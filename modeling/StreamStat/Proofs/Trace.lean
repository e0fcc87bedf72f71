import StreamStat.Proofs.Programs

/-!
# Traces of calls

A call on a view makes calls of its own, on what its converter feeds and on its adoptee.
The trace of a call lists in the order of time which accounts have been handed a sample
and which calls have returned. Tracing a call does not change what it does
(`tracedWithin_outcome`).
-/

namespace StreamStat

theorem Outcome.andThen_assoc (o : Outcome) (f g : Store → Outcome) :
    (o.andThen f).andThen g = o.andThen fun s => (f s).andThen g := by
  unfold andThen
  cases h : o.fault with
  | none => rfl
  | some x => simp only [h]

inductive Event where
  /-- An account that is no view has been handed a sample, at a time when objects look
  like this and this mark is free. -/
  | handed (handle : Nat) (sight : ObjectView) (mark : Nat) (sample : Value)
  /-- A call on an account has returned; a view that forwards has made it, or not. -/
  | returned (handle : Nat) (forwarded : Bool)

structure Traced where
  outcome : Outcome
  events : List Event

namespace Traced

def quiet (o : Outcome) : Traced := ⟨o, []⟩

def andThen (t : Traced) (f : Store → Traced) : Traced :=
  match t.outcome.fault with
  | none => ⟨(f t.outcome.store).outcome, t.events ++ (f t.outcome.store).events⟩
  | some _ => t

theorem andThen_outcome (t : Traced) (f : Store → Traced) :
    (t.andThen f).outcome = t.outcome.andThen fun s => (f s).outcome := by
  unfold andThen Outcome.andThen
  split <;> simp_all

theorem andThen_of_fault {t : Traced} {x : Fault} (h : t.outcome.fault = some x) (f : Store → Traced) :
    t.andThen f = t := by
  unfold andThen
  rw [h]

theorem andThen_of_none {t : Traced} (h : t.outcome.fault = none) (f : Store → Traced) :
    t.andThen f = ⟨(f t.outcome.store).outcome, t.events ++ (f t.outcome.store).events⟩ := by
  unfold andThen
  rw [h]

theorem mem_andThen {t : Traced} {f : Store → Traced} {e : Event} (he : e ∈ (t.andThen f).events) :
    e ∈ t.events ∨ t.outcome.fault = none ∧ e ∈ (f t.outcome.store).events := by
  cases h : t.outcome.fault with
  | none =>
    rw [andThen_of_none h] at he
    exact (List.mem_append.mp he).imp_right fun he => ⟨rfl, he⟩
  | some x =>
    rw [andThen_of_fault h] at he
    exact .inl he

end Traced

structure Passage where
  store : Store
  events : List Event
  result : Except Fault Value

namespace Passage

def exit (p : Passage) : Exit := ⟨p.store, p.result⟩

def andThen (p : Passage) (f : Value → Store → Traced) : Traced :=
  match p.result with
  | .ok v => ⟨(f v p.store).outcome, p.events ++ (f v p.store).events⟩
  | .error x => ⟨⟨p.store, some x⟩, p.events⟩

theorem andThen_of_ok {p : Passage} {v : Value} (h : p.result = .ok v) (f : Value → Store → Traced) :
    p.andThen f = ⟨(f v p.store).outcome, p.events ++ (f v p.store).events⟩ := by
  unfold andThen
  rw [h]

theorem andThen_of_error {p : Passage} {x : Fault} (h : p.result = .error x) (f : Value → Store → Traced) :
    p.andThen f = ⟨⟨p.store, some x⟩, p.events⟩ := by
  unfold andThen
  rw [h]

theorem mem_andThen {p : Passage} {f : Value → Store → Traced} {e : Event} (he : e ∈ (p.andThen f).events) :
    e ∈ p.events ∨ ∃ v, p.result = .ok v ∧ e ∈ (f v p.store).events := by
  cases h : p.result with
  | ok v =>
    rw [andThen_of_ok h] at he
    exact (List.mem_append.mp he).imp_right fun he => ⟨v, rfl, he⟩
  | error x =>
    rw [andThen_of_error h] at he
    exact .inl he

theorem andThen_outcome (p : Passage) (f : Value → Store → Traced) :
    (p.andThen f).outcome = p.exit.andThen fun v s => (f v s).outcome := by
  unfold andThen Exit.andThen exit
  cases p.result <;> rfl

theorem andThen_congr {p : Passage} {f g : Value → Store → Traced} (h : ∀ v, f v p.store = g v p.store) :
    p.andThen f = p.andThen g := by
  unfold andThen
  simp only [h]

end Passage

namespace Program

/-- Traces a run; `call` traces the giving of a sample to a target. -/
def traced (call : Value → Value → Store → Traced) : Program → Store → Passage
  | finish result, s => ⟨s, [], result⟩
  | look next, s => (next s.view).traced call s
  | feed target sample next, s =>
    let t := call (sample.stamp s.marks) target (s.reserve 1)
    if t.outcome.fault = some .endless then ⟨t.outcome.store, t.events, .error .endless⟩
    else
      let p := (next (sample.stamp s.marks) t.outcome.fault).traced call t.outcome.store
      { p with events := t.events ++ p.events }

theorem traced_exit {f : Value → Value → Store → Traced} {g : Value → Value → Store → Outcome}
    (h : ∀ v t s, (f v t s).outcome = g v t s) (p : Program) (s : Store) : (p.traced f s).exit = p.run g s := by
  induction p generalizing s with
  | finish result => rfl
  | look next ih => exact ih _ s
  | feed target sample next ih =>
    simp only [traced, run, Store.stamp, ← h]
    split
    · rfl
    · exact ih _ _ _

theorem traced_of_untapped (call : Value → Value → Store → Traced) {p : Program} (hp : ∀ t, ¬ p.Feeds t) (s : Store) :
    p.traced call s = ⟨s, [], p.answer s.view⟩ := by
  induction p with
  | finish result => rfl
  | look next ih => exact ih _ fun t ht => hp t (.look _ ht)
  | feed target sample next ih => exact absurd .now (hp target)

/-- What reserving marks and all calls of a program keep, with the events until then, the program keeps. -/
theorem traced_keeps {call : Value → Value → Store → Traced} {P : List Event → Store → Prop} {p : Program}
    {es : List Event} {s : Store} (hs : P es s) (hreserve : ∀ es u, P es u → P es (u.reserve 1))
    (hcall : ∀ target v es u, p.Feeds target → P es u →
      P (es ++ (call v target u).events) (call v target u).outcome.store) :
    P (es ++ (p.traced call s).events) (p.traced call s).store := by
  induction p generalizing es s with
  | finish result => simpa only [traced, List.append_nil] using hs
  | look next ih => exact ih _ hs fun t v es u ht => hcall t v es u (.look _ ht)
  | feed target sample next ih =>
    have h := hcall target (sample.stamp s.marks) es (s.reserve 1) .now (hreserve es s hs)
    unfold traced
    dsimp only
    split
    · exact h
    · rw [← List.append_assoc]
      exact ih _ _ h fun t v es u ht => hcall t v es u (.later _ _ ht)

/-- Calls that are the same on the stores that a program comes to make no difference. -/
theorem traced_congr {f g : Value → Value → Store → Traced} {P : Store → Prop} {p : Program} {s : Store} (hs : P s)
    (hreserve : ∀ u, P u → P (u.reserve 1))
    (hcall : ∀ target v u, p.Feeds target → P u → f v target u = g v target u ∧ P (f v target u).outcome.store) :
    p.traced f s = p.traced g s := by
  induction p generalizing s with
  | finish result => rfl
  | look next ih => exact ih _ hs fun t v u ht => hcall t v u (.look _ ht)
  | feed target sample next ih =>
    obtain ⟨he, hP⟩ := hcall target (sample.stamp s.marks) (s.reserve 1) .now (hreserve s hs)
    unfold traced
    dsimp only
    rw [← he]
    split
    · rfl
    · rw [ih _ _ hP fun t v u ht => hcall t v u (.later _ _ ht)]

end Program

namespace Store

/-! ## Tracing calls -/

def tracedEach (f : Value → Store → Traced) : List Value → Store → Traced
  | [], s => .quiet ⟨s, none⟩
  | t :: ts, s => (f t s).andThen (tracedEach f ts)

def tracedAbsorb (s : Store) (handle : Nat) (a : Account) (forwarded : Bool) (v : Value) : Traced :=
  let o := s.absorb handle a v
  let returned := match o.fault with
    | none => [Event.returned handle forwarded]
    | some _ => []
  ⟨o, .handed handle s.view (s.marks + 1) (v.stamp s.marks) :: returned⟩

def tracedForward (call : Value → Value → Store → Traced) (handle : Nat) (adoptee : Value) (forwarded : Bool)
    (v : Value) (s : Store) : Traced :=
  (call v adoptee s).andThen fun s => ⟨⟨s.count handle, none⟩, [.returned handle forwarded]⟩

def tracedWithin : Nat → Bool → Value → Value → Store → Traced
  | 0, _, _, _, s => .quiet ⟨s, some .endless⟩
  | depth + 1, forwarded, v, target, s =>
    match target, s.objectOf? target with
    | .handle h, some (.tally t) => .quiet (s.addUp h t v)
    | .handle h, some (.account a) =>
      match a.body with
      | .view adoptee converter =>
        if s.takesSamples adoptee then
          ((converter.program v).traced (tracedWithin depth false) s).andThen
            (tracedForward (tracedWithin depth true) h adoptee forwarded)
        else .quiet ⟨s, some .noAttribute⟩
      | _ => s.tracedAbsorb h a forwarded v
    | _, _ => .quiet ⟨s, some .noAttribute⟩

theorem tracedEach_outcome {f : Value → Store → Traced} {g : Value → Store → Outcome}
    (h : ∀ t s, (f t s).outcome = g t s) :
    ∀ ts s, (tracedEach f ts s).outcome = forEach g ts s
  | [], _ => rfl
  | t :: ts, s => by
    simp only [tracedEach, forEach, Traced.andThen_outcome, h, tracedEach_outcome h ts]

theorem tracedWithin_outcome (depth : Nat) (forwarded : Bool) (v target : Value) (s : Store) :
    (tracedWithin depth forwarded v target s).outcome = feedWithin depth v target s := by
  induction depth generalizing forwarded v target s with
  | zero => rfl
  | succ depth ih =>
    unfold tracedWithin feedWithin
    generalize s.objectOf? target = x
    cases target with
    | handle h =>
      rcases x with _ | x
      · rfl
      cases x with
      | account a =>
        simp only
        cases a.body with
        | view adoptee converter =>
          simp only
          split
          · rw [Passage.andThen_outcome, Program.traced_exit (ih false)]
            simp only [tracedForward, Traced.andThen_outcome, ih]
          · rfl
        | _ => rfl
      | _ => rfl
    | _ => rfl

end Store

end StreamStat
