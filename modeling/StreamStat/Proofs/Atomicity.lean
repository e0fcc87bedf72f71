import StreamStat.Proofs.Moves
import StreamStat.Proofs.ValueOrder

/-!
# A failing call changes nothing

An account that keeps two extremes takes a sample in two comparisons, and the second one
could fail when the first one has replaced an extreme. It does not, since the least sample
precedes the greatest one (`Paired`). As views count last, a call that fails leaves every
account as it was, however many views it has gone through.
-/

namespace StreamStat

/-! ## Two extremes -/

def Paired (least greatest : Value) : Prop :=
  (least = .none ∧ greatest = .none) ∨
    (least.isPlain = true ∧ greatest.isPlain = true ∧ least ≠ .none ∧ greatest ≠ .none ∧
      (least = greatest ∨ least.precedes greatest = true))

section
variable {o : ObjectView} {least greatest v : Value}

theorem keepLess_of_ne_none (h : least ≠ .none) :
    keepLess o least v = (v.lt o least).map fun less => if less then v else least := by
  cases least <;> first | rfl | exact absurd rfl h

theorem keepGreater_of_ne_none (h : greatest ≠ .none) :
    keepGreater o greatest v = (greatest.lt o v).map fun less => if less then v else greatest := by
  cases greatest <;> first | rfl | exact absurd rfl h

theorem ne_none_of_precedes {a b : Value} (h : a.precedes b = true) : a ≠ .none ∧ b ≠ .none := by
  constructor
  · rintro rfl; simp [Value.precedes] at h
  · rintro rfl; cases a <;> simp [Value.precedes] at h

/-- Once the first comparison is answered, the second one fails only if the least sample
has been kept; if it does not fail, the new extremes are paired. -/
theorem Paired.keep (h : Paired least greatest) (hv : v.isPlain = true) {less : Value}
    (hl : keepLess o least v = .ok less) :
    (∀ f, keepGreater o greatest v = .error f → less = least) ∧
      ∀ more, keepGreater o greatest v = .ok more → Paired less more := by
  rcases h with ⟨rfl, rfl⟩ | ⟨hpl, hpg, hnl, hng, hlg⟩
  · cases hl
    refine ⟨fun f hf => (by cases hf), ?_⟩
    intro more hm
    cases hm
    by_cases hn : v = .none
    · exact .inl ⟨hn, hn⟩
    · exact .inr ⟨hv, hv, hn, hn, .inl rfl⟩
  · rw [keepLess_of_ne_none hnl] at hl
    rw [keepGreater_of_ne_none hng]
    cases hlt : v.lt o least with
    | error f => rw [hlt] at hl; cases hl
    | ok b =>
      rw [hlt] at hl
      cases hl
      cases b with
      | true =>
        -- the sample precedes the least one, hence the greatest one
        have hvl := (Value.lt_iff_precedes o hv hpl).mp hlt
        have hvg : v.precedes greatest = true := hlg.elim (fun e => e ▸ hvl) (Value.precedes_trans hvl)
        rw [Value.lt_of_precedes o hv hpg hvg]
        refine ⟨fun f hf => (by cases hf), ?_⟩
        intro more hm
        cases hm
        exact .inr ⟨hv, hpg, (ne_none_of_precedes hvg).1, hng, .inr hvg⟩
      | false =>
        refine ⟨fun _ _ => rfl, ?_⟩
        intro more hm
        cases hgt : greatest.lt o v with
        | error f => rw [hgt] at hm; cases hm
        | ok b =>
          rw [hgt] at hm
          cases hm
          cases b with
          | true =>
            have hgv := (Value.lt_iff_precedes o hpg hv).mp hgt
            have hlv : least.precedes v = true := hlg.elim (fun e => e ▸ hgv) fun h => Value.precedes_trans h hgv
            exact .inr ⟨hpl, hv, hnl, (ne_none_of_precedes hlv).2, .inr hlv⟩
          | false => exact .inr ⟨hpl, hpg, hnl, hng, hlg⟩

end

/-! ## Accounts -/

def Converter.Quiet (c : Converter) : Prop :=
  c.taps = ∅ ∧ ∀ o v w, v.isPlain = true → c.apply o v = .ok w → w.isPlain = true

namespace Account

def Orderly (a : Account) : Prop :=
  match a.body with
  | .minMax least greatest => Paired least greatest
  | .view _ c => c.Quiet
  | _ => True

/-- A sample that is refused leaves the account as it was. -/
theorem receive_refused {a : Account} (ha : a.Orderly) {v : Value} (hv : v.isPlain = true) {o : ObjectView}
    {mark : Nat} {f : Fault} (hf : (a.receive o mark v).2 = some f) : (a.receive o mark v).1 = a := by
  rcases a.receive_cases o mark v with ⟨body, stamp, _, h⟩ | ⟨g, h⟩ | ⟨least, greatest, less, g, hb, hl, hg, h⟩
  · rw [h] at hf
    cases hf
  · rw [h]
  · have hp : Paired least greatest := by
      unfold Orderly at ha
      rwa [hb] at ha
    rw [h, (hp.keep hv hl).1 g hg]
    exact keep_body hb

theorem orderly_receive {a : Account} (ha : a.Orderly) {v : Value} (hv : v.isPlain = true) (o : ObjectView)
    (mark : Nat) : (a.receive o mark v).1.Orderly := by
  rcases a.receive_cases o mark v with ⟨body, stamp, ht, h⟩ | ⟨f, h⟩ | ⟨least, greatest, less, f, hb, _, _, h⟩
  · rw [h]
    unfold Orderly at ha ⊢
    generalize a.body = b at ha ht
    cases ht with
    | minMax hl hg => exact (Paired.keep ha hv hl).2 _ hg
    | view => exact ha
    | _ => trivial
  · rwa [h]
  · rwa [receive_refused ha hv (congrArg Prod.snd h)]

end Account

namespace Store

/-! ## Calls -/

structure Orderly (s : Store) : Prop where
  tallyless : s.Tallyless
  unchanged : s.changes = []
  accounts : ∀ h a, s.account? h = some a → a.Orderly

theorem Orderly.put {s t : Store} {h : Nat} {a b : Account} (hs : s.Orderly) (ha : s.account? h = some a)
    (hb : b.Orderly) (ho : t.objects = s.objects.set h (.account b)) (hc : t.changes = s.changes) : t.Orderly := by
  have obj (k : Nat) : t.object? k = if k = h then some (.account b) else s.object? k := by
    rw [← object?_put (account?_eq_some.mp ha)]
    simp only [object?, ho, Store.put]
  refine ⟨?_, hc.trans hs.unchanged, ?_⟩
  · intro k u hu
    rw [obj] at hu
    split at hu
    · cases hu
    · exact hs.tallyless k u hu
  · intro k c hk
    rw [account?_eq_some, obj] at hk
    split at hk
    · cases hk; exact hb
    · exact hs.accounts k c (account?_eq_some.mpr hk)

theorem changes_absorb (s : Store) (h : Nat) (a : Account) (v : Value) :
    (s.absorb h a v).store.changes = s.changes := by
  unfold absorb
  dsimp only
  split <;> rfl

theorem orderly_absorb {s : Store} (hs : s.Orderly) {h : Nat} {a : Account} (ha : s.account? h = some a)
    {v : Value} (hv : v.isPlain = true) : (s.absorb h a v).store.Orderly :=
  hs.put ha (Account.orderly_receive (hs.accounts h a ha) (Value.isPlain_stamp hv _) _ _) (absorb_spec s h a v).2
    (changes_absorb s h a v)

theorem orderly_count {s : Store} (hs : s.Orderly) (h : Nat) : (s.count h).Orderly := by
  cases ha : s.account? h with
  | none => simpa only [count, ha] using hs
  | some a =>
    refine hs.put ha (b := a.count) (hs.accounts h a ha) ?_ ?_ <;> simp only [count, ha, Store.put]

theorem absorb_refused {s : Store} (hs : s.Orderly) {h : Nat} {a : Account} (ha : s.account? h = some a)
    {v : Value} (hv : v.isPlain = true) {f : Fault} (hf : (s.absorb h a v).fault = some f) :
    (s.absorb h a v).store = s.reserve 2 := by
  have hr : (s.reserve 1).view = s.view := view_congr rfl
  rw [(absorb_spec s h a v).1] at hf
  have hkeep := Account.receive_refused (hs.accounts h a ha) (Value.isPlain_stamp hv _) hf
  obtain ⟨hl, hget⟩ := List.getElem?_eq_some_iff.mp (account?_eq_some.mp ha)
  have hput : s.objects.set h (.account a) = s.objects := by rw [← hget, List.set_getElem_self]
  unfold absorb stamp
  simp only [hr]
  split
  · -- a recorder refuses nothing
    rename_i tape hb
    have hb : (a.receive s.view (s.marks + 1) (v.stamp s.marks)).1.body = .recorder tape := hb
    rw [hkeep] at hb
    simp [Account.receive, hb] at hf
  · show { s with
      objects := s.objects.set h (.account (a.receive s.view (s.marks + 1) (v.stamp s.marks)).1)
      marks := s.marks + 1 + 1 } = s.reserve 2
    rw [hkeep, hput]
    rfl

/-- All that a call can be in an orderly store: a refusal, a sample taken, or a conversion
and a call on what the view refers to. -/
theorem feedWithin_cases {s : Store} (hs : s.Orderly) (target : Value) :
    (∀ depth v, feedWithin (depth + 1) v target s = ⟨s, some .noAttribute⟩) ∨
    (∃ h a, s.account? h = some a ∧ ∀ depth v, feedWithin (depth + 1) v target s = s.absorb h a v) ∨
    ∃ h adoptee c, Converter.Quiet c ∧ ∀ depth v, feedWithin (depth + 1) v target s =
      (Exit.mk s (c.apply s.view v)).andThen fun w s =>
        (feedWithin depth w adoptee s).andThen fun s => ⟨s.count h, none⟩ := by
  rcases tracedWithin_cases target hs.tallyless with he | ⟨h, a, rfl, ha, hv⟩ |
    ⟨h, a, adoptee, c, rfl, ha, hb, ht⟩
  · exact .inl fun depth v => by rw [← tracedWithin_outcome _ false, he]; rfl
  · refine .inr (.inl ⟨h, a, ha, ?_⟩)
    intro depth v
    rw [← tracedWithin_outcome _ false, tracedWithin_base ha hv]
    rfl
  · have hq : c.Quiet := by
      have := hs.accounts h a ha
      simpa only [Account.Orderly, hb] using this
    refine .inr (.inr ⟨h, adoptee, c, hq, ?_⟩)
    intro depth v
    rw [← tracedWithin_outcome _ false, tracedWithin_view ha hb ht, Passage.andThen_outcome,
      Program.traced_exit (tracedWithin_outcome depth false), Converter.run_of_untapped hq.1]
    simp only [tracedForward, Traced.andThen_outcome, tracedWithin_outcome]

/-- A call that fails leaves the store as it was, but for the marks that it has given out. -/
theorem feedWithin_refused {depth : Nat} {v target : Value} {s : Store} (hs : s.Orderly) (hv : v.isPlain = true)
    {f : Fault} (hf : (feedWithin depth v target s).fault = some f) :
    ∃ n, (feedWithin depth v target s).store = s.reserve n := by
  induction depth generalizing v target with
  | zero => exact ⟨0, rfl⟩
  | succ depth ih =>
    rcases feedWithin_cases hs target with he | ⟨h, a, ha, he⟩ | ⟨h, adoptee, c, hq, he⟩
    · exact ⟨0, by rw [he]; rfl⟩
    · rw [he] at hf ⊢
      exact ⟨2, absorb_refused hs ha hv hf⟩
    · rw [he] at hf ⊢
      cases hc : c.apply s.view v with
      | error f => exact ⟨0, by rw [Exit.andThen]; rfl⟩
      | ok w =>
        simp only [hc, Exit.andThen, Outcome.andThen] at hf ⊢
        cases hw : (feedWithin depth w adoptee s).fault with
        | none => simp [hw] at hf
        | some g =>
          simp only [hw] at hf ⊢
          exact ih (hq.2 _ _ _ hv hc) (hw.trans hf)

theorem orderly_feedWithin {depth : Nat} {v target : Value} {s : Store} (hs : s.Orderly) (hv : v.isPlain = true) :
    (feedWithin depth v target s).store.Orderly := by
  induction depth generalizing v target with
  | zero => exact hs
  | succ depth ih =>
    rcases feedWithin_cases hs target with he | ⟨h, a, ha, he⟩ | ⟨h, adoptee, c, hq, he⟩
    · rw [he]; exact hs
    · rw [he]; exact orderly_absorb hs ha hv
    · rw [he]
      cases hc : c.apply s.view v with
      | error f => exact hs
      | ok w =>
        have hw : (feedWithin depth w adoptee s).store.Orderly := ih (hq.2 _ _ _ hv hc)
        simp only [Exit.andThen, Outcome.andThen]
        split
        · exact orderly_count hw h
        · exact hw

/-! ## Moves -/

end Store

def Move.Quiet : Move → Prop
  | .adapt _ c => c.Quiet
  | .feed _ v => v.isPlain = true
  | .accumulate _ vs => ∀ v ∈ vs, v.isPlain = true
  | .create _ | .copy _ | .list _ _ => True

namespace Store

theorem Orderly.listed {s t : Store} {x : Object} (hs : s.Orderly) (ht : t.objects = s.objects ++ [x])
    (hc : t.changes = s.changes) (hx : ∀ u, x ≠ .tally u) (ha : ∀ a, x = .account a → a.Orderly) : t.Orderly := by
  refine ⟨hs.tallyless.append ht hx, hc.trans hs.unchanged, ?_⟩
  intro h a hh
  rw [account?_eq_some, object?_append ht] at hh
  split at hh
  · exact ha a (Option.some.inj hh)
  · exact hs.accounts h a (account?_eq_some.mpr hh)

theorem orderly_opened (c : AccountClass) (tape : Nat) : (Account.opened c tape).Orderly := by
  cases c with
  | statistic i logged => cases i <;> first | trivial | exact .inl ⟨rfl, rfl⟩
  | _ => trivial

theorem orderly_tracedEach {f : Value → Store → Traced}
    (hf : ∀ t (s : Store), s.Orderly → (f t s).outcome.store.Orderly) :
    ∀ ts (s : Store), s.Orderly → (tracedEach f ts s).outcome.store.Orderly
  | [], _, hs => hs
  | t :: ts, s, hs => by
    have ih := orderly_tracedEach hf ts _ (hf t s hs)
    simp only [tracedEach, Traced.andThen_outcome, Outcome.andThen]
    split
    · exact ih
    · exact hf t s hs

theorem orderly_traced {s : Store} (hs : s.Orderly) {v : Value} (hv : v.isPlain = true) (target : Value) :
    (s.traced false target v).outcome.store.Orderly := by
  rw [traced_outcome]
  exact orderly_feedWithin hs hv

theorem orderly_tracedAll (targets : List Value) :
    ∀ vs (s : Store), (∀ v ∈ vs, v.isPlain = true) → s.Orderly → (tracedAll targets vs s).outcome.store.Orderly
  | [], _, _, hs => hs
  | v :: vs, s, hv, hs => by
    have each := orderly_tracedEach (f := fun target s => s.traced false target (v.amendBy s.changes))
      (fun t u hu => orderly_traced hu (by rw [hu.unchanged]; exact hv v (List.mem_cons_self ..)) t) targets s hs
    have ih := orderly_tracedAll targets vs _ (fun w hw => hv w (List.mem_cons_of_mem _ hw)) each
    simp only [tracedAll, Traced.andThen_outcome, Outcome.andThen]
    split
    · exact ih
    · exact each

theorem Orderly.perform {s : Store} (hs : s.Orderly) {m : Move} (hm : m.Quiet) :
    (s.perform m).outcome.store.Orderly := by
  cases m with
  | create c =>
    exact hs.listed (x := .account (.opened c s.tapes.length)) (by cases c <;> rfl) (by cases c <;> rfl)
      (fun _ h => by cases h) fun a h => by cases h; exact orderly_opened c _
  | adapt adoptee c =>
    exact hs.listed (x := .account (.view adoptee c)) rfl rfl (fun _ h => by cases h) fun a h => by
      cases h
      exact hm
  | copy handle =>
    simp only [Store.perform, Store.copy]
    cases ha : s.account? handle with
    | none => exact hs
    | some a =>
      exact hs.listed (x := .account a) rfl rfl (fun _ h => by cases h) fun b h => by
        cases h; exact hs.accounts handle a ha
  | feed target v => exact orderly_traced hs hm target
  | accumulate targets values =>
    simp only [Store.perform]
    split
    · exact hs
    · exact orderly_tracedAll targets values s hm hs
  | list x passive =>
    exact hs.listed (x := x) rfl rfl (fun _ h => by cases h; cases passive) fun _ h => by cases h; cases passive

theorem orderly_empty : Store.empty.Orderly :=
  ⟨tallyless_empty, rfl, fun _ _ ha => by rw [account?_eq_some, object?_empty] at ha; cases ha⟩

theorem Orderly.after {s : Store} (hs : s.Orderly) {ms : List Move} (hm : ∀ m ∈ ms, m.Quiet) :
    (s.after ms).Orderly := by
  induction ms generalizing s with
  | nil => exact hs
  | cons m ms ih =>
    exact ih (hs.perform (hm m (List.mem_cons_self ..))) fun n hn => hm n (List.mem_cons_of_mem _ hn)

/-- A failing call changes nothing. Whatever has been opened, viewed, copied and fed with
plain samples, a call that fails leaves all objects and tapes as they were; only marks have
been used up, which tell new occurrences from old ones. -/
theorem refused_unchanged {ms : List Move} (hm : ∀ m ∈ ms, m.Quiet) {target v : Value} (hv : v.isPlain = true)
    {f : Fault} (hf : ((empty.after ms).feed target v).fault = some f) :
    ∃ n, ((empty.after ms).feed target v).store = (empty.after ms).reserve n :=
  feedWithin_refused (orderly_empty.after hm) hv hf

def viewedLists : List Move :=
  [.create (.statistic .minMax false), .adapt (.handle 0) (.ofConversion .none .id),
    .feed (.handle 1) (.list [.ofInt 1] 0), .feed (.handle 1) (.list [.ofInt 2, .none] 0)]

theorem refused_unchanged_of_viewedLists :
    ((empty.after viewedLists).feed (.handle 1) (.list [.ofInt 2, .ofInt 5] 0)).fault = some .wrongType ∧
    ∃ n, ((empty.after viewedLists).feed (.handle 1) (.list [.ofInt 2, .ofInt 5] 0)).store =
      (empty.after viewedLists).reserve n := by
  have quiet : ∀ m ∈ viewedLists, m.Quiet := by
    intro m hm
    simp only [viewedLists, List.mem_cons, List.not_mem_nil, or_false] at hm
    rcases hm with rfl | rfl | rfl | rfl
    · trivial
    · exact ⟨by simp, fun _ _ _ hv h => by cases h; exact hv⟩
    · rfl
    · rfl
  have fault : ((empty.after viewedLists).feed (.handle 1) (.list [.ofInt 2, .ofInt 5] 0)).fault =
      some .wrongType := by
    decide +kernel
  exact ⟨fault, refused_unchanged quiet rfl fault⟩

end Store

end StreamStat
