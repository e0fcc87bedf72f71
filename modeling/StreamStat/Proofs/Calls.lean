import StreamStat.Proofs.Steps

/-!
# Calls are steps

In a store without tallies every call is a row of steps, so that its trace accounts for
all that it changes. Where views refer to older objects only, the depth that a call is
allowed does not matter, and a call on a view is the calls that it makes
(`traced_view`).
-/

namespace StreamStat.Store

/-! ## Stores without tallies -/

def Tallyless (s : Store) : Prop := ∀ h t, s.object? h ≠ some (.tally t)

theorem Steps.tallyless {s t : Store} {es : List Event} (hs : Steps s es t) (hn : s.Tallyless) :
    t.Tallyless := by
  intro h x hx
  rw [hs.object? h, Option.map_eq_some_iff] at hx
  obtain ⟨y, hy, he⟩ := hx
  cases y with
  | tally u => exact hn h u hy
  | _ => simp [Object.history] at he

theorem steps_andThen {s : Store} {t : Traced} {f : Store → Traced} (ht : Steps s t.events t.outcome.store)
    (hf : Steps t.outcome.store (f t.outcome.store).events (f t.outcome.store).outcome.store) :
    Steps s (t.andThen f).events (t.andThen f).outcome.store := by
  cases h : t.outcome.fault with
  | none => rw [Traced.andThen_of_none h]; exact ht.trans hf
  | some x => rw [Traced.andThen_of_fault h]; exact ht

theorem steps_tracedEach {f : Value → Store → Traced}
    (hf : ∀ t s, s.Tallyless → Steps s (f t s).events (f t s).outcome.store) :
    ∀ ts s, s.Tallyless → Steps s (tracedEach f ts s).events (tracedEach f ts s).outcome.store
  | [], s, _ => .refl s
  | t :: ts, s, hn =>
    have h := hf t s hn
    steps_andThen h (steps_tracedEach hf ts _ (h.tallyless hn))

/-- A program whose calls are rows of steps is one. -/
theorem steps_program {call : Value → Value → Store → Traced}
    (hcall : ∀ v t s, s.Tallyless → Steps s (call v t s).events (call v t s).outcome.store) (p : Program)
    {s : Store} (hn : s.Tallyless) : Steps s (p.traced call s).events (p.traced call s).store := by
  refine Program.traced_keeps (P := Steps s) (.refl s) (fun es u hs => ?_) fun t v es u _ hs => ?_
  · simpa using hs.trans (Step.reserve u 1).steps
  · exact hs.trans (hcall v t u (hs.tallyless hn))

theorem steps_passage {s : Store} {p : Passage} {f : Value → Store → Traced} (hp : Steps s p.events p.store)
    (hf : ∀ v, Steps p.store (f v p.store).events (f v p.store).outcome.store) :
    Steps s (p.andThen f).events (p.andThen f).outcome.store := by
  cases h : p.result with
  | ok v => rw [Passage.andThen_of_ok h]; exact hp.trans (hf v)
  | error x => rw [Passage.andThen_of_error h]; exact hp

theorem tracedWithin_base {s : Store} {h : Nat} {a : Account} (ha : s.account? h = some a)
    (hv : a.isView = false) (depth : Nat) (forwarded : Bool) (v : Value) :
    tracedWithin (depth + 1) forwarded v (.handle h) s = s.tracedAbsorb h a forwarded v := by
  rw [account?_eq_some] at ha
  cases hb : a.body with
  | view adoptee c => rw [Account.isView_of_body hb] at hv; cases hv
  | _ => simp only [tracedWithin, objectOf?, ha, hb]

theorem tracedWithin_view {s : Store} {h : Nat} {a : Account} {adoptee : Value} {c : Converter}
    (ha : s.account? h = some a) (hb : a.body = .view adoptee c) (ht : s.takesSamples adoptee = true)
    (depth : Nat) (forwarded : Bool) (v : Value) :
    tracedWithin (depth + 1) forwarded v (.handle h) s =
      ((c.program v).traced (tracedWithin depth false) s).andThen
        (tracedForward (tracedWithin depth true) h adoptee forwarded) := by
  rw [account?_eq_some] at ha
  simp only [tracedWithin, objectOf?, ha, hb, ht, if_true]

/-- All that a call can be, where there are no tallies: a refusal, a sample taken, or the
calls that a view makes. -/
theorem tracedWithin_cases (target : Value) {s : Store} (hn : s.Tallyless) :
    (∀ depth forwarded v, tracedWithin (depth + 1) forwarded v target s = .quiet ⟨s, some .noAttribute⟩) ∨
    (∃ h a, target = .handle h ∧ s.account? h = some a ∧ a.isView = false) ∨
    ∃ h a adoptee c, target = .handle h ∧ s.account? h = some a ∧ a.body = .view adoptee c ∧
      s.takesSamples adoptee = true := by
  cases target with
  | handle h =>
    cases hx : s.object? h with
    | none => exact .inl fun depth forwarded v => by simp only [tracedWithin, objectOf?, hx]
    | some x =>
      cases x with
      | tally t => exact absurd hx (hn h t)
      | account a =>
        have ha : s.account? h = some a := account?_eq_some.mpr hx
        cases hb : a.body with
        | view adoptee c =>
          cases ht : s.takesSamples adoptee with
          | false => exact .inl fun depth forwarded v => by simp [tracedWithin, objectOf?, hx, hb, ht]
          | true => exact .inr (.inr ⟨h, a, adoptee, c, rfl, ha, hb, ht⟩)
        | _ => exact .inr (.inl ⟨h, a, rfl, ha, by simp [Account.isView, hb]⟩)
      | _ => exact .inl fun depth forwarded v => by simp only [tracedWithin, objectOf?, hx]
  | _ => exact .inl fun depth forwarded v => by simp only [tracedWithin]

theorem steps_tracedForward {call : Value → Value → Store → Traced} {s t : Store} {es : List Event} {h : Nat}
    {a : Account} {adoptee : Value} {c : Converter} (forwarded : Bool)
    (hs : Steps s es t) (ha : s.account? h = some a) (hb : a.body = .view adoptee c) {w : Value}
    (hc : Steps t (call w adoptee t).events (call w adoptee t).outcome.store) :
    Steps t (tracedForward call h adoptee forwarded w t).events
      (tracedForward call h adoptee forwarded w t).outcome.store := by
  have ha' := (hs.trans hc).account? ha
  have hv := (Account.isView_history h a (es ++ (call w adoptee t).events)).trans (Account.isView_of_body hb)
  exact steps_andThen hc (Step.count forwarded ha' hv).steps

theorem steps_tracedWithin (depth : Nat) (forwarded : Bool) (v target : Value) {s : Store} (hn : s.Tallyless) :
    Steps s (tracedWithin depth forwarded v target s).events
      (tracedWithin depth forwarded v target s).outcome.store := by
  induction depth generalizing forwarded v target s with
  | zero => exact .refl s
  | succ depth ih =>
    rcases tracedWithin_cases target hn with he | ⟨h, a, rfl, ha, hv⟩ |
      ⟨h, a, adoptee, c, rfl, ha, hb, ht⟩
    · rw [he]; exact .refl s
    · rw [tracedWithin_base ha hv]; exact (Step.absorb forwarded v ha hv).steps
    · have hp := steps_program (fun v t s hn => ih false v t hn) (c.program v) hn
      rw [tracedWithin_view ha hb ht]
      exact steps_passage hp fun w =>
        steps_tracedForward forwarded hp ha hb (ih true w adoptee (hp.tallyless hn))

/-! ## References -/

/-- Whether a value is no handle, or one of an object older than this one. -/
def Older (handle : Nat) (v : Value) : Prop := ∀ h, v = .handle h → h < handle

def Layered (s : Store) : Prop :=
  ∀ h adoptee c, s.link? h = some (adoptee, c) → Older h adoptee ∧ ∀ t ∈ c.taps, Older h t

theorem Steps.layered {s t : Store} {es : List Event} (hs : Steps s es t) (hl : s.Layered) : t.Layered :=
  fun h adoptee c hlink => hl h adoptee c ((hs.link? h).symm.trans hlink)

theorem Steps.length_eq {s t : Store} {es : List Event} (hs : Steps s es t) :
    t.objects.length = s.objects.length := by
  have h : ∀ k, t.objects.length ≤ k ↔ s.objects.length ≤ k := by
    intro k
    rw [← List.getElem?_eq_none_iff, ← List.getElem?_eq_none_iff]
    have := hs.object? k
    simp only [Store.object?] at this
    rw [this, Option.map_eq_none_iff]
  have h₁ := (h s.objects.length).mpr (Nat.le_refl _)
  have h₂ := (h t.objects.length).mp (Nat.le_refl _)
  omega

theorem handle_of_takesSamples {s : Store} {v : Value} (h : s.takesSamples v = true) : ∃ k, v = .handle k := by
  cases v with
  | handle k => exact ⟨k, rfl⟩
  | _ => simp [takesSamples, objectOf?] at h

structure Sound (s : Store) : Prop where
  tallyless : s.Tallyless
  layered : s.Layered

theorem Steps.sound {s t : Store} {es : List Event} (hs : Steps s es t) (h : s.Sound) : t.Sound :=
  ⟨hs.tallyless h.tallyless, hs.layered h.layered⟩

theorem Older.mono {h k : Nat} {v : Value} (hv : Older h v) (hk : h ≤ k) : Older k v :=
  fun i hi => Nat.lt_of_lt_of_le (hv i hi) hk

/-- Any depth will do that is greater than the handle of the target. -/
theorem tracedWithin_depth {d e : Nat} (hd : 0 < d) (he : 0 < e) (forwarded : Bool) (v : Value) {target : Value}
    (htd : Older d target) (hte : Older e target) {s : Store} (hs : s.Sound) :
    tracedWithin d forwarded v target s = tracedWithin e forwarded v target s := by
  induction d generalizing e forwarded v target s with
  | zero => exact absurd hd (Nat.lt_irrefl 0)
  | succ d ih =>
    obtain ⟨e, rfl⟩ := Nat.exists_eq_succ_of_ne_zero (Nat.ne_of_gt he)
    rcases tracedWithin_cases target hs.tallyless with he | ⟨h, a, rfl, ha, hv⟩ |
      ⟨h, a, adoptee, c, rfl, ha, hb, ht⟩
    · rw [he d, he e]
    · rw [tracedWithin_base ha hv, tracedWithin_base ha hv]
    · obtain ⟨hoa, hot⟩ := hs.layered h adoptee c (link?_eq_some.mpr ⟨a, ha, hb⟩)
      have hhd : h ≤ d := Nat.le_of_lt_succ (htd h rfl)
      have hhe : h ≤ e := Nat.le_of_lt_succ (hte h rfl)
      obtain ⟨k, rfl⟩ := handle_of_takesSamples ht
      have hk := hoa k rfl
      have call {forwarded : Bool} {v target : Value} (ho : Older h target) {s : Store} (hs : s.Sound) :
          tracedWithin d forwarded v target s = tracedWithin e forwarded v target s :=
        ih (by omega) (by omega) forwarded v (ho.mono hhd) (ho.mono hhe) hs
      have run : (c.program v).traced (tracedWithin d false) s = (c.program v).traced (tracedWithin e false) s :=
        Program.traced_congr (P := Sound) hs (fun u hu => (Step.reserve u 1).steps.sound hu) fun t v u ht hu =>
          ⟨call (hot t ⟨_, ht⟩) hu, (steps_tracedWithin d false v t hu.tallyless).sound hu⟩
      have hp := (steps_program (fun v t s hn => steps_tracedWithin e false v t hn) (c.program v) hs.tallyless).sound hs
      rw [tracedWithin_view ha hb ht, tracedWithin_view ha hb ht, run]
      refine Passage.andThen_congr fun w => ?_
      unfold tracedForward
      rw [call hoa hp]

/-! ## Calls from outside -/

def traced (s : Store) (forwarded : Bool) (target v : Value) : Traced :=
  tracedWithin (s.objects.length + 1) forwarded v target s

theorem traced_outcome (s : Store) (forwarded : Bool) (target v : Value) :
    (s.traced forwarded target v).outcome = s.feed target v :=
  tracedWithin_outcome _ forwarded v target s

theorem steps_traced {s : Store} (hn : s.Tallyless) (forwarded : Bool) (target v : Value) :
    Steps s (s.traced forwarded target v).events (s.traced forwarded target v).outcome.store :=
  steps_tracedWithin _ forwarded v target hn

theorem steps_feed {s : Store} (hn : s.Tallyless) (target v : Value) :
    Steps s (s.traced false target v).events (s.feed target v).store :=
  traced_outcome s false target v ▸ steps_traced hn false target v

theorem lt_of_account? {s : Store} {h : Nat} {a : Account} (ha : s.account? h = some a) :
    h < s.objects.length :=
  (List.getElem?_eq_some_iff.mp (account?_eq_some.mp ha)).1

theorem traced_base {s : Store} {h : Nat} {a : Account} (ha : s.account? h = some a)
    (hv : a.isView = false) (forwarded : Bool) (v : Value) :
    s.traced forwarded (.handle h) v = s.tracedAbsorb h a forwarded v :=
  tracedWithin_base ha hv _ forwarded v

/-- A call on a view is the calls that it makes: those of its converter, and one on its adoptee
with what the converter makes of the sample. -/
theorem traced_view {s : Store} (hs : s.Sound) {h : Nat} {a : Account} {adoptee : Value} {c : Converter}
    (ha : s.account? h = some a) (hb : a.body = .view adoptee c) (ht : s.takesSamples adoptee = true)
    (forwarded : Bool) (v : Value) :
    s.traced forwarded (.handle h) v =
      ((c.program v).traced (fun w t u => u.traced false t w) s).andThen
        (tracedForward (fun w t u => u.traced true t w) h adoptee forwarded) := by
  obtain ⟨hoa, hot⟩ := hs.layered h adoptee c (link?_eq_some.mpr ⟨a, ha, hb⟩)
  obtain ⟨k, rfl⟩ := handle_of_takesSamples ht
  have hk := hoa k rfl
  have hh := lt_of_account? ha
  -- every store on the way is sound and has as many objects
  let P (t : Store) : Prop := t.Sound ∧ t.objects.length = s.objects.length
  have keep {t u : Store} {es : List Event} (hst : Steps t es u) (hp : P t) : P u :=
    ⟨hst.sound hp.1, hst.length_eq.trans hp.2⟩
  have call {forwarded : Bool} {v target : Value} (ho : Older h target) {t : Store} (hp : P t) :
      tracedWithin s.objects.length forwarded v target t = t.traced forwarded target v := by
    have ho := ho.mono (Nat.le_of_lt hh)
    exact tracedWithin_depth (by omega) (Nat.succ_pos _) forwarded v ho
      (ho.mono (by rw [hp.2]; exact Nat.le_succ _)) hp.1
  have run : (c.program v).traced (tracedWithin s.objects.length false) s =
      (c.program v).traced (fun w t u => u.traced false t w) s :=
    Program.traced_congr (P := P) ⟨hs, rfl⟩ (fun u hu => keep (Step.reserve u 1).steps hu) fun t w u ht hu =>
      ⟨call (hot t ⟨_, ht⟩) hu, keep (steps_tracedWithin _ false w t hu.1.tallyless) hu⟩
  have hp := keep (steps_program (fun w t u hn => steps_traced hn false t w) (c.program v) hs.tallyless) ⟨hs, rfl⟩
  rw [traced, tracedWithin_view ha hb ht, run]
  refine Passage.andThen_congr fun w => ?_
  unfold tracedForward
  rw [call hoa hp]

def give (v target : Value) (s : Store) : Outcome := s.feed target v

theorem feed_view {s : Store} (hs : s.Sound) {h : Nat} {adoptee : Value} {c : Converter}
    (hl : s.link? h = some (adoptee, c)) (ht : s.takesSamples adoptee = true) (v : Value) :
    s.feed (.handle h) v = ((c.program v).run give s).andThen fun w u =>
      (u.feed adoptee w).andThen fun u => ⟨u.count h, none⟩ := by
  obtain ⟨a, ha, hb⟩ := link?_eq_some.mp hl
  rw [← traced_outcome s false, traced_view hs ha hb ht, Passage.andThen_outcome,
    Program.traced_exit (g := give) fun w t u => traced_outcome u false t w]
  simp only [tracedForward, Traced.andThen_outcome, traced_outcome]

end StreamStat.Store
