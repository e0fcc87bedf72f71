import StreamStat.Proofs.Moves

/-!
# Views are transparent

A view adds nothing to the account in which it ends: the account is what it would be had
it been fed the converted samples directly. A call through a chain of views is a passage
down its converters and then a call on the account (`chain_spec`).
-/

namespace StreamStat

/-! ## An account on its own -/

/-- A sample that has been handed to an account, and how objects looked at the time. -/
structure Delivery where
  sight : ObjectView
  sample : Value

namespace Account

def standing (a : Account) : Title × Nat × Body := (a.title, a.samples, a.body)

def fed (a : Account) (ds : List Delivery) : Account :=
  ds.foldl (fun a d => (a.receive d.sight 0 d.sample).1) a

theorem receive_standing {a b : Account} (h : a.standing = b.standing) (o : ObjectView) (m n : Nat) (v : Value) :
    (a.receive o m v).1.standing = (b.receive o n v).1.standing := by
  obtain ⟨t, k, body, _, _⟩ := a
  obtain ⟨_, _, _, _, _⟩ := b
  simp only [standing, Prod.mk.injEq] at h
  obtain ⟨rfl, rfl, rfl⟩ := h
  cases body with
  | min least => simp only [receive]; cases keepLess o least v <;> rfl
  | max greatest => simp only [receive]; cases keepGreater o greatest v <;> rfl
  | minMax least greatest =>
    simp only [receive]
    cases keepLess o least v with
    | error f => rfl
    | ok l => simp only; cases keepGreater o greatest v <;> rfl
  | mean x => simp only [receive]; cases v.toDouble <;> rfl
  | variance x => simp only [receive]; cases v.toDouble <;> rfl
  | _ => rfl

end Account

def deliveries (handle : Nat) (es : List Event) : List Delivery :=
  es.filterMap fun
    | .handed h sight _ v => if h = handle then some ⟨sight, v⟩ else none
    | .returned _ _ => none

theorem deliveries_append (handle : Nat) (es fs : List Event) :
    deliveries handle (es ++ fs) = deliveries handle es ++ deliveries handle fs :=
  List.filterMap_append

/-- An account that is no view is made by what it has been handed. -/
theorem Account.standing_history (handle : Nat) (es : List Event) :
    ∀ {a b : Account}, a.isView = false → a.standing = b.standing →
      (a.history handle es).standing = (b.fed (deliveries handle es)).standing := by
  induction es with
  | nil => exact fun _ h => h
  | cons e es ih =>
    intro a b hv hab
    have hu := (isView_undergo handle a e).trans hv
    cases e with
    | handed h sight mark v =>
      by_cases hh : h = handle
      · have hd : deliveries handle (.handed h sight mark v :: es) = ⟨sight, v⟩ :: deliveries handle es := by
          simp [deliveries, hh]
        rw [hd]
        refine ih hu ?_
        simp only [undergo, hh, if_true]
        exact receive_standing hab sight mark 0 v
      · have hd : deliveries handle (.handed h sight mark v :: es) = deliveries handle es := by
          simp [deliveries, hh]
        rw [hd]
        refine ih hu ?_
        simp only [undergo, hh, if_false]
        exact hab
    | returned h forwarded =>
      refine ih (a := a.undergo handle (.returned h forwarded)) hu ?_
      simp only [undergo, hv, Bool.false_eq_true, and_false, if_false]
      exact hab

/-! ## Passage down a row of converters -/

namespace Passage

/-- What an account is handed by a passage that ends in it: what the taps on the way give
it, and then the converted value if all conversions return. -/
def delivered (base : Nat) (p : Passage) : List Delivery :=
  deliveries base p.events ++ match p.result with
    | .error _ => []
    | .ok w => [⟨p.store.view, w.stamp p.store.marks⟩]

def outcome (base : Nat) (p : Passage) : Outcome := p.exit.andThen fun w s => s.feed (.handle base) w

def bind (p : Passage) (f : Value → Store → Passage) : Passage :=
  match p.result with
  | .ok v => { f v p.store with events := p.events ++ (f v p.store).events }
  | .error _ => p

end Passage

def Converter.applyAll (cs : List Converter) (o : ObjectView) (v : Value) : Except Fault Value :=
  cs.foldlM (fun v c => c.apply o v) v

namespace Store

def pass : List Converter → Value → Store → Passage
  | [], v, s => ⟨s, [], .ok v⟩
  | c :: cs, v, s => ((c.program v).traced (fun w t u => u.traced false t w) s).bind (pass cs)

/-- Converters without taps are functions: nothing happens but conversions. -/
theorem pass_of_untapped {cs : List Converter} (h : ∀ c ∈ cs, c.taps = ∅) (v : Value) (s : Store) :
    s.pass cs v = ⟨s, [], Converter.applyAll cs s.view v⟩ := by
  induction cs generalizing v with
  | nil => rfl
  | cons c cs ih =>
    have hc : ∀ t, ¬ (c.program v).Feeds t :=
      fun t ht => Set.eq_empty_iff_forall_notMem.mp (h c (List.mem_cons_self ..)) t ⟨v, ht⟩
    simp only [pass, Converter.applyAll, List.foldlM_cons, Program.traced_of_untapped _ hc]
    unfold Passage.bind Converter.apply
    cases (c.program v).answer s.view with
    | error f => rfl
    | ok w => simp only [ih (fun d hd => h d (List.mem_cons_of_mem _ hd)) w]; rfl

/-! ## Chains of views -/

/-- The views on the way from a target to the account in which they end, the outermost
first, with their converters. -/
inductive Chain (s : Store) (base : Nat) : Value → List (Nat × Converter) → Prop where
  | base : Chain s base (.handle base) []
  | view {h : Nat} {a : Account} {adoptee : Value} {c : Converter} {path : List (Nat × Converter)} :
      s.account? h = some a → a.body = .view adoptee c → Chain s base adoptee path →
        Chain s base (.handle h) ((h, c) :: path)

theorem Chain.steps {s t : Store} {es : List Event} {base : Nat} {target : Value} {path : List (Nat × Converter)}
    (hs : Steps s es t) (hc : Chain s base target path) : Chain t base target path := by
  induction hc with
  | base => exact .base
  | @view h a _ _ _ ha hb _ ih =>
    exact .view (hs.account? ha) (Account.body_history_of_view h es hb) ih

theorem Chain.takesSamples {s : Store} {base : Nat} {a : Account} (ha : s.account? base = some a) {target : Value}
    {path : List (Nat × Converter)} (hc : Chain s base target path) : s.takesSamples target = true := by
  cases hc with
  | base => simp [Store.takesSamples, objectOf?, account?_eq_some.mp ha]
  | view ha' _ _ => simp [Store.takesSamples, objectOf?, account?_eq_some.mp ha']

def countAll (path : List (Nat × Converter)) (s : Store) : Store := path.foldr (fun v s => s.count v.1) s

theorem deliveries_counted (base handle : Nat) (forwarded : Bool) (t : Traced) :
    deliveries base (t.andThen fun s => ⟨⟨s.count handle, none⟩, [.returned handle forwarded]⟩).events =
      deliveries base t.events := by
  cases h : t.outcome.fault with
  | none => rw [Traced.andThen_of_none h, deliveries_append]; exact List.append_nil _
  | some f => rw [Traced.andThen_of_fault h]

theorem deliveries_absorb (s : Store) (handle : Nat) (a : Account) (forwarded : Bool) (v : Value) :
    deliveries handle (s.tracedAbsorb handle a forwarded v).events = [⟨s.view, v.stamp s.marks⟩] := by
  unfold tracedAbsorb
  dsimp only
  split <;> simp [deliveries]

/-- A call through a chain of views is a passage down its converters and then a call on
the account in which it ends, which the views count if it comes back. -/
theorem chain_spec {s : Store} (hs : s.Sound) {base : Nat} {a : Account} (ha : s.account? base = some a)
    (hv : a.isView = false) {target : Value} {path : List (Nat × Converter)} (hc : Chain s base target path)
    (x : Value) :
    s.feed target x = ((s.pass (path.map Prod.snd) x).outcome base).andThen (fun u => ⟨u.countAll path, none⟩) ∧
      ∀ forwarded, deliveries base (s.traced forwarded target x).events =
        (s.pass (path.map Prod.snd) x).delivered base := by
  induction path generalizing s a target x with
  | nil =>
    cases hc
    constructor
    · simp only [List.map_nil, pass, Passage.outcome, Passage.exit, Exit.andThen, countAll, List.foldr_nil,
        Outcome.andThen]
      split
      · rename_i h; rw [← h]
      · rfl
    · intro forwarded
      rw [traced_base ha hv, deliveries_absorb]; rfl
  | cons v path ih =>
    cases hc with
    | @view h b adoptee c _ hb hbb hc =>
      have ht := hc.takesSamples ha
      have hout := traced_outcome s false (.handle h) x
      simp only [traced_view hs hb hbb ht] at hout ⊢
      rw [← hout]
      have hp := steps_program (fun w t u hn => steps_traced hn false t w) (c.program x) hs.tallyless
      simp only [List.map_cons, pass]
      generalize (c.program x).traced (fun w t u => u.traced false t w) s = p at hp ⊢
      obtain ⟨u, es, result⟩ := p
      cases result with
      | error f => exact ⟨rfl, fun _ => (List.append_nil _).symm⟩
      | ok w =>
        obtain ⟨ih₁, ih₂⟩ := ih (hp.sound hs) (hp.account? ha)
          ((Account.isView_history base a _).trans hv) (hc.steps hp) w
        simp only [Passage.andThen, Passage.bind, tracedForward]
        constructor
        · simp only [Traced.andThen_outcome, traced_outcome, ih₁]
          exact Outcome.andThen_assoc _ _ _
        · intro forwarded
          simp only [deliveries_append, deliveries_counted, ih₂, Passage.delivered, List.append_assoc]

/-! ## Transparency -/

theorem Chain.ne_base {s : Store} {base : Nat} {a : Account} (ha : s.account? base = some a)
    (hv : a.isView = false) {target : Value} {path : List (Nat × Converter)} (hc : Chain s base target path) :
    ∀ v ∈ path, v.1 ≠ base := by
  induction hc with
  | base => intro v hv; cases hv
  | @view h b adoptee c path hb hbb _ ih =>
    intro v hm
    rcases List.mem_cons.mp hm with rfl | hm
    · rintro rfl
      rw [hb, Option.some.injEq] at ha
      subst ha
      rw [Account.isView_of_body hbb] at hv
      cases hv
    · exact ih v hm

theorem account?_count_of_ne {s : Store} {h k : Nat} (hk : h ≠ k) : (s.count h).account? k = s.account? k := by
  cases ha : s.account? h with
  | none => simp only [count, ha]
  | some a => simp only [account?, object?_count ha, if_neg (Ne.symm hk)]

theorem account?_countAll {base : Nat} {path : List (Nat × Converter)} (h : ∀ v ∈ path, v.1 ≠ base) (s : Store) :
    (s.countAll path).account? base = s.account? base := by
  induction path with
  | nil => rfl
  | cons v path ih =>
    exact (account?_count_of_ne (h v (List.mem_cons_self ..))).trans
      (ih fun w hw => h w (List.mem_cons_of_mem _ hw))

/-- What a call through a chain tells the account in which it ends, and the caller. -/
theorem chain_account? {s : Store} (hs : s.Sound) {base : Nat} {a : Account} (ha : s.account? base = some a)
    (hv : a.isView = false) {target : Value} {path : List (Nat × Converter)} (hc : Chain s base target path)
    (x : Value) :
    let o := (s.pass (path.map Prod.snd) x).outcome base
    (s.feed target x).fault = o.fault ∧ (s.feed target x).store.account? base = o.store.account? base := by
  have hne := hc.ne_base ha hv
  rw [(chain_spec hs ha hv hc x).1]
  unfold Outcome.andThen
  cases h : ((s.pass (path.map Prod.snd) x).outcome base).fault with
  | none => exact ⟨h.symm, account?_countAll hne _⟩
  | some f => exact ⟨rfl, rfl⟩

/-- Views are transparent to the account in which they end: whatever is done, it is the
account fed directly with what it has been handed. A call through a chain hands it the
converted sample if all conversions return, and fails if a conversion fails or the account
refuses. One view with the composed converter does the same to it as the chain. -/
theorem views_transparent {s : Store} (hs : s.Built) {base : Nat} {a : Account}
    (ha : s.account? base = some a) (hv : a.isView = false) :
    (∀ ms, ∃ b, (s.after ms).account? base = some b ∧
      b.standing = (a.fed (deliveries base (eventsOf ms s))).standing) ∧
    (∀ target path x, Chain s base target path →
      (s.feed target x).fault = ((s.pass (path.map Prod.snd) x).outcome base).fault ∧
      deliveries base (s.traced false target x).events = (s.pass (path.map Prod.snd) x).delivered base ∧
      ((∀ v ∈ path, v.2.taps = ∅) →
        s.pass (path.map Prod.snd) x = ⟨s, [], Converter.applyAll (path.map Prod.snd) s.view x⟩)) ∧
    ∀ target path h b c, Chain s base target path → (∀ v ∈ path, v.2.taps = ∅) →
      s.account? h = some b → b.body = .view (.handle base) c → c.taps = ∅ →
      c.apply = Converter.applyAll (path.map Prod.snd) → ∀ x,
        (s.feed (.handle h) x).fault = (s.feed target x).fault ∧
        (s.feed (.handle h) x).store.account? base = (s.feed target x).store.account? base := by
  have untapped {path : List (Nat × Converter)} (h : ∀ v ∈ path, v.2.taps = ∅) (x : Value) :
      s.pass (path.map Prod.snd) x = ⟨s, [], Converter.applyAll (path.map Prod.snd) s.view x⟩ :=
    pass_of_untapped (fun c hc => by obtain ⟨v, hm, rfl⟩ := List.mem_map.mp hc; exact h v hm) x s
  refine ⟨?_, ?_, ?_⟩
  · intro ms
    have h := object?_after hs.sound.tallyless ms (account?_eq_some.mp ha)
    exact ⟨_, account?_eq_some.mpr h, Account.standing_history base _ hv rfl⟩
  · intro target path x hc
    exact ⟨(chain_account? hs.sound ha hv hc x).1, (chain_spec hs.sound ha hv hc x).2 false,
      fun hp => untapped hp x⟩
  · intro target path h b c hc hp hb hbb ht hcomp x
    have hview : Chain s base (.handle h) [(h, c)] := .view hb hbb .base
    have hsame : s.pass ([(h, c)].map Prod.snd) x = s.pass (path.map Prod.snd) x := by
      rw [@untapped [(h, c)] (by simpa using ht), untapped hp]
      simp [Converter.applyAll, hcomp]
    obtain ⟨hf₁, ha₁⟩ := chain_account? hs.sound ha hv hview x
    obtain ⟨hf₂, ha₂⟩ := chain_account? hs.sound ha hv hc x
    rw [hf₁, ha₁, hf₂, ha₂, hsame]
    exact ⟨rfl, rfl⟩

/-- A mean, a view of it that doubles, a view of the view that changes the sign, and a view
of the mean that does both. -/
def viewedMean : Store :=
  empty.after [.create (.statistic .mean false), .adapt (.handle 0) (.ofConversion .none .double),
    .adapt (.handle 1) (.ofConversion .none .neg),
    .adapt (.handle 0) (.ofFunction (fun _ => .ok "twice the opposite") .none false
      (Converter.applyAll [.ofConversion .none .neg, .ofConversion .none .double]))]

theorem built_viewedMean : viewedMean.Built := by
  have older {h k : Nat} (hk : h < k) : Older k (.handle h) := fun _ he => by cases he; exact hk
  exact .perform (.perform (.perform (.perform .empty trivial) ⟨older Nat.zero_lt_one, by simp⟩)
    ⟨older (by decide : 1 < 2), by simp⟩) ⟨older (by decide : 0 < 3), by simp⟩

theorem views_transparent_of_viewedMean :
    viewedMean.account? 0 = some (.opened (.statistic .mean false) 0) ∧
    (viewedMean.feed (.handle 2) .none).fault = some .wrongType ∧
    (viewedMean.feed (.handle 3) (.ofInt 3)).store.account? 0 =
      (viewedMean.feed (.handle 2) (.ofInt 3)).store.account? 0 := by
  have chain : Chain viewedMean 0 (.handle 2) [(2, .ofConversion .none .neg), (1, .ofConversion .none .double)] :=
    .view rfl rfl (.view rfl rfl .base)
  obtain ⟨_, through, composed⟩ := @views_transparent _ built_viewedMean 0 _ rfl rfl
  refine ⟨rfl, (through _ _ .none chain).1, ?_⟩
  exact (composed _ _ 3 _ _ chain (by simp) rfl rfl (Converter.taps_ofFunction ..) rfl (.ofInt 3)).2

end Store

end StreamStat
