import Mathlib.Data.Set.Insert
import StreamStat.Store.Feed

/-!
# Programs of converters

A program goes from state to state until it ends or a call that it makes goes on for ever
(`Comes.run_cases`), so that what its calls keep it keeps (`run_keeps`). A program that feeds
nothing is a function of the objects that it looks at (`run_of_untapped`).
-/

namespace StreamStat

namespace Program

inductive Feeds (target : Value) : Program → Prop where
  | now {sample : Value} {next : Value → Option Fault → Program} : Feeds target (.feed target sample next)
  | look {next : ObjectView → Program} (o : ObjectView) : Feeds target (next o) → Feeds target (.look next)
  | later {t sample : Value} {next : Value → Option Fault → Program} (v : Value) (fault : Option Fault) :
      Feeds target (next v fault) → Feeds target (.feed t sample next)

/-- What a program ends with if all objects look like this and all samples are taken. -/
def answer (o : ObjectView) : Program → Except Fault Value
  | finish result => result
  | look next => (next o).answer o
  | feed _ sample next => (next sample none).answer o

/-- The states that a run comes to. The calls that it has made until then have ended. -/
inductive Comes (call : Value → Value → Store → Outcome) (p : Program) (s : Store) : Program → Store → Prop where
  | start : Comes call p s p s
  | look {next : ObjectView → Program} {u : Store} :
      Comes call p s (.look next) u → Comes call p s (next u.view) u
  | feed {target sample : Value} {next : Value → Option Fault → Program} {u : Store} {o : Outcome} :
      Comes call p s (.feed target sample next) u → call (sample.stamp u.marks) target (u.reserve 1) = o →
        o.fault ≠ some .endless → Comes call p s (next (sample.stamp u.marks) o.fault) o.store

section
variable {call : Value → Value → Store → Outcome} {p q : Program} {s u : Store}

theorem Comes.feeds (h : Comes call p s q u) {target : Value} (ht : q.Feeds target) : p.Feeds target := by
  induction h with
  | start => exact ht
  | look _ ih => exact ih (.look _ ht)
  | feed _ _ _ ih => exact ih (.later _ _ ht)

theorem Comes.keeps {P : Store → Prop} (h : Comes call p s q u) (hs : P s)
    (hcall : ∀ {target sample next u}, Comes call p s (.feed target sample next) u → P u →
      P (call (sample.stamp u.marks) target (u.reserve 1)).store) : P u := by
  induction h with
  | start => exact hs
  | look _ ih => exact ih
  | feed hq ho _ ih => exact ho ▸ hcall hq ih

theorem run_feed_of_endless {target sample : Value} {next : Value → Option Fault → Program}
    (hf : (call (sample.stamp s.marks) target (s.reserve 1)).fault = some .endless) :
    (feed target sample next).run call s = ⟨(call (sample.stamp s.marks) target (s.reserve 1)).store, .error .endless⟩ :=
  if_pos hf

theorem run_feed_of_ends {target sample : Value} {next : Value → Option Fault → Program} {o : Outcome}
    (ho : call (sample.stamp s.marks) target (s.reserve 1) = o) (hf : o.fault ≠ some .endless) :
    (feed target sample next).run call s = (next (sample.stamp s.marks) o.fault).run call o.store := by
  subst ho
  exact if_neg hf

/-- A run ends with its program, or with a call that goes on for ever. -/
theorem Comes.run_cases (hq : Comes call p s q u) :
    Comes call p s (.finish (q.run call u).result) (q.run call u).store ∨
      ∃ target sample next t, Comes call p s (.feed target sample next) t ∧
        call (sample.stamp t.marks) target (t.reserve 1) = ⟨(q.run call u).store, some .endless⟩ ∧
        (q.run call u).result = .error .endless := by
  induction q generalizing u with
  | finish result => exact .inl hq
  | look next ih => exact ih _ hq.look
  | feed target sample next ih =>
    by_cases hf : (call (sample.stamp u.marks) target (u.reserve 1)).fault = some .endless
    · rw [run_feed_of_endless hf]
      exact .inr ⟨target, sample, next, u, hq, by rw [← hf], rfl⟩
    · rw [run_feed_of_ends rfl hf]
      exact ih _ _ (hq.feed rfl hf)

theorem run_keeps {P : Store → Prop} (hs : P s)
    (hcall : ∀ {target sample next u}, Comes call p s (.feed target sample next) u → P u →
      P (call (sample.stamp u.marks) target (u.reserve 1)).store) : P (p.run call s).store := by
  rcases Comes.run_cases (.start : Comes call p s p s) with hq | ⟨target, sample, next, u, hq, ho, _⟩
  · exact hq.keeps hs hcall
  · have h := hcall hq (hq.keeps hs hcall)
    rwa [ho] at h

end

theorem run_of_untapped (call : Value → Value → Store → Outcome) {p : Program} (hp : ∀ t, ¬ p.Feeds t) (s : Store) :
    p.run call s = ⟨s, p.answer s.view⟩ := by
  induction p with
  | finish result => rfl
  | look next ih => exact ih _ fun t ht => hp t (.look _ ht)
  | feed target sample next ih => exact absurd .now (hp target)

end Program

namespace Converter

def taps (c : Converter) : Set Value := {t | ∃ v, (c.program v).Feeds t}

def apply (c : Converter) (o : ObjectView) (v : Value) : Except Fault Value := (c.program v).answer o

theorem run_of_untapped {c : Converter} (hc : c.taps = ∅) (call : Value → Value → Store → Outcome) (v : Value) (s : Store) :
    (c.program v).run call s = ⟨s, c.apply s.view v⟩ :=
  Program.run_of_untapped call (fun t ht => Set.eq_empty_iff_forall_notMem.mp hc t ⟨v, ht⟩) s

@[simp] theorem taps_ofFunction (shown : ObjectView → Except Fault String) (object : Value) (isNumeric : Bool)
    (f : ObjectView → Value → Except Fault Value) : (ofFunction shown object isNumeric f).taps = ∅ := by
  refine Set.eq_empty_of_forall_notMem ?_
  rintro t ⟨v, ht⟩
  cases ht with
  | look o ht => cases ht

@[simp] theorem taps_ofConversion (object : Value) (c : Conversion) : (ofConversion object c).taps = ∅ :=
  taps_ofFunction ..

theorem taps_of_feeds_once {c : Converter} {target : Value} {sample : Value → Value}
    {result : Value → Value → Option Fault → Except Fault Value}
    (h : ∀ v, c.program v = .feed target (sample v) fun w fault => .finish (result v w fault)) : c.taps = {target} := by
  refine Set.ext fun t => ⟨?_, ?_⟩
  · rintro ⟨v, ht⟩
    rw [h] at ht
    cases ht with
    | now => rfl
    | later w fault ht => cases ht
  · rintro rfl
    exact ⟨.none, h .none ▸ .now⟩

@[simp] theorem taps_tee (object target : Value) : (tee object target).taps = {target} :=
  taps_of_feeds_once fun _ => rfl

end Converter

end StreamStat
