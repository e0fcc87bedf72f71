import StreamStat.Proofs.Counts

/-!
# Calls within calls

While a call on a view is running it makes calls on what its converter feeds and on its
adoptee, and these make calls again. What returns on the way is the call itself or one
within it (`returned_within`). A call that fails is therefore not counted by its account:
that counts none but calls within the call (`samplesOf_of_fault`).
-/

namespace StreamStat

namespace Program

variable {f : Value → Value → Store → Traced} {g : Value → Value → Store → Outcome} {p q : Program} {s u : Store}

theorem comes_of_returned {w : Value} (h : (p.run g s).result = .ok w) : Comes g p s (.finish (.ok w)) (p.run g s).store := by
  rcases Comes.run_cases (.start : Comes g p s p s) with hq | ⟨_, _, _, _, _, _, hend⟩
  · rwa [h] at hq
  · rw [h] at hend
    cases hend

/-- What happens in a run happens in one of the calls that it makes. -/
theorem Comes.mem_traced (h : ∀ v t s, (f v t s).outcome = g v t s) (hq : Comes g p s q u) {e : Event}
    (he : e ∈ (q.traced f u).events) :
    ∃ target sample next t, Comes g p s (.feed target sample next) t ∧
      e ∈ (f (sample.stamp t.marks) target (t.reserve 1)).events := by
  induction q generalizing u with
  | finish result => cases he
  | look next ih => exact ih _ hq.look he
  | feed target sample next ih =>
    unfold traced at he
    dsimp only at he
    split at he
    · exact ⟨target, sample, next, u, hq, he⟩
    · rename_i hf
      rcases List.mem_append.mp he with he | he
      · exact ⟨target, sample, next, u, hq, he⟩
      · exact ih _ _ (hq.feed (h ..).symm hf) he

end Program

structure Invocation where
  store : Store
  target : Value
  sample : Value

namespace Store

def Leads (s : Store) (h k : Nat) : Prop :=
  ∃ adoptee c, s.link? h = some (adoptee, c) ∧ (adoptee = .handle k ∨ .handle k ∈ c.taps)

theorem Steps.leads {s t : Store} {es : List Event} (hs : Steps s es t) : t.Leads = s.Leads := by
  funext h k
  simp only [Leads, hs.link?]

theorem Layered.lt_of_leads {s : Store} (hl : s.Layered) {h k : Nat} (hk : s.Leads h k) : k < h := by
  obtain ⟨adoptee, c, hlink, rfl | hk⟩ := hk
  · exact (hl h _ c hlink).1 k rfl
  · exact (hl h adoptee c hlink).2 _ hk k rfl

theorem not_transGen_of_falls {r : Nat → Nat → Prop} (hr : ∀ h k, r h k → k < h) (h : Nat) :
    ¬ Relation.TransGen r h h := by
  have falls {i j : Nat} (hw : Relation.TransGen r i j) : j < i := by
    induction hw with
    | single h => exact hr _ _ h
    | tail _ h ih => exact Nat.lt_trans (hr _ _ h) ih
  exact fun hw => Nat.lt_irrefl h (falls hw)

theorem steps_feedWithin (depth : Nat) (v target : Value) {s : Store} (hn : s.Tallyless) :
    ∃ es, Steps s es (feedWithin depth v target s).store := by
  have h := steps_tracedWithin depth false v target hn
  rw [tracedWithin_outcome] at h
  exact ⟨_, h⟩

end Store

namespace Invocation

open Store

section
variable (call : Value → Value → Store → Outcome)

structure Runs (i : Invocation) (adoptee : Value) (c : Converter) (q : Program) (u : Store) : Prop where
  view : ∃ h, i.target = .handle h ∧ i.store.link? h = some (adoptee, c)
  takes : i.store.takesSamples adoptee = true
  comes : Program.Comes call (c.program i.sample) i.store q u

/-- The calls that a call makes itself, if `call` is what they do: those of the program of a
converter, and one on the adoptee once the program has returned. -/
inductive MakesBy (i : Invocation) : Invocation → Prop where
  | tap {adoptee target sample : Value} {c : Converter} {next : Value → Option Fault → Program} {u : Store} :
      i.Runs call adoptee c (.feed target sample next) u → MakesBy i ⟨u.reserve 1, target, sample.stamp u.marks⟩
  | adoptee {adoptee w : Value} {c : Converter} {u : Store} :
      i.Runs call adoptee c (.finish (.ok w)) u → MakesBy i ⟨u, adoptee, w⟩

end

/-- The calls within a call, with the depths that are left to them. -/
inductive Encloses : Nat → Invocation → Nat → Invocation → Prop where
  | made {depth : Nat} {i j : Invocation} : MakesBy (feedWithin depth) i j → Encloses (depth + 1) i depth j
  | deeper {depth d : Nat} {i j k : Invocation} :
      MakesBy (feedWithin depth) i j → Encloses depth j d k → Encloses (depth + 1) i d k

variable {call : Value → Value → Store → Outcome} {i j : Invocation}

theorem MakesBy.leads (h : MakesBy call i j) :
    ∃ k, i.target = .handle k ∧ ∀ n, j.target = .handle n → i.store.Leads k n := by
  cases h with
  | tap h =>
    obtain ⟨k, hk, hl⟩ := h.view
    exact ⟨k, hk, fun n hn => ⟨_, _, hl, .inr ⟨i.sample, h.comes.feeds (by cases hn; exact .now)⟩⟩⟩
  | adoptee h =>
    obtain ⟨k, hk, hl⟩ := h.view
    exact ⟨k, hk, fun n hn => ⟨_, _, hl, .inl hn⟩⟩

section
variable (hcall : ∀ v t s, s.Tallyless → ∃ es, Steps s es (call v t s).store) (hn : i.store.Tallyless)
include hcall hn

theorem Runs.steps {adoptee : Value} {c : Converter} {q : Program} {u : Store} (h : i.Runs call adoptee c q u) :
    ∃ es, Steps i.store es u := by
  refine h.comes.keeps (P := fun u => ∃ es, Steps i.store es u) ⟨[], .refl _⟩ ?_
  rintro target sample next u - ⟨es, hs⟩
  have hs' := hs.trans (Step.reserve u 1).steps
  obtain ⟨fs, hfs⟩ := hcall (sample.stamp u.marks) target (u.reserve 1) (hs'.tallyless hn)
  exact ⟨_, hs'.trans hfs⟩

theorem MakesBy.steps (h : MakesBy call i j) : ∃ es, Steps i.store es j.store := by
  cases h with
  | tap h =>
    obtain ⟨_, hs⟩ := h.steps hcall hn
    exact ⟨_, hs.trans (Step.reserve _ 1).steps⟩
  | adoptee h => exact h.steps hcall hn

end

theorem Encloses.leads {depth d : Nat} (h : Encloses depth i d j) (hn : i.store.Tallyless) :
    ∃ k, i.target = .handle k ∧ ∀ n, j.target = .handle n → Relation.TransGen i.store.Leads k n := by
  induction h with
  | made h =>
    obtain ⟨k, hk, hl⟩ := h.leads
    exact ⟨k, hk, fun n hj => .single (hl n hj)⟩
  | deeper h _ ih =>
    obtain ⟨es, hs⟩ := h.steps (fun v t s => steps_feedWithin _ v t) hn
    obtain ⟨k, hk, hl⟩ := h.leads
    obtain ⟨m, hm, hw⟩ := ih (hs.tallyless hn)
    rw [hs.leads] at hw
    exact ⟨k, hk, fun n hj => .head (hl m hm) (hw n hj)⟩

end Invocation

namespace Store

open Invocation

/-- What returns in a call is the call itself, or it returns in one that the call makes. -/
theorem returned_cases {depth k : Nat} {forwarded b : Bool} {v target : Value} {s : Store} (hn : s.Tallyless)
    (he : .returned k b ∈ (tracedWithin (depth + 1) forwarded v target s).events) :
    (target = .handle k ∧ (tracedWithin (depth + 1) forwarded v target s).outcome.fault = none) ∨
      ∃ j forwarded, MakesBy (feedWithin depth) ⟨s, target, v⟩ j ∧
        .returned k b ∈ (tracedWithin depth forwarded j.sample j.target j.store).events := by
  rcases tracedWithin_cases target hn with hr | ⟨h, a, rfl, ha, hv⟩ | ⟨h, a, adoptee, c, rfl, ha, hb, ht⟩
  · rw [hr] at he
    cases he
  · rw [tracedWithin_base ha hv] at he ⊢
    unfold tracedAbsorb at he ⊢
    dsimp only at he ⊢
    split at he <;> simp_all
  · rw [tracedWithin_view ha hb ht] at he ⊢
    have hl := link?_eq_some.mpr ⟨a, ha, hb⟩
    have hexit := Program.traced_exit (tracedWithin_outcome depth false) (c.program v) s
    -- it returns in a call of the program, in the one on the adoptee, or it is the view itself
    rcases Passage.mem_andThen he with he | ⟨w, hw, he⟩
    · obtain ⟨t, x, next, u, hq, he⟩ := Program.Comes.mem_traced (tracedWithin_outcome depth false) .start he
      exact .inr ⟨_, false, .tap ⟨⟨h, rfl, hl⟩, ht, hq⟩, he⟩
    · have hcomes := Program.comes_of_returned ((congrArg Exit.result hexit).symm.trans hw)
      rw [← congrArg Exit.store hexit] at hcomes
      rcases Traced.mem_andThen he with he | ⟨hnone, he⟩
      · exact .inr ⟨_, true, .adoptee ⟨⟨h, rfl, hl⟩, ht, hcomes⟩, he⟩
      · cases List.mem_singleton.mp he
        refine .inl ⟨rfl, ?_⟩
        rw [Passage.andThen_of_ok hw, tracedForward, Traced.andThen_of_none hnone]

/-- What returns in a call is the call itself or a call within it. -/
theorem returned_within {depth k : Nat} {forwarded b : Bool} {v target : Value} {s : Store} (hn : s.Tallyless)
    (he : .returned k b ∈ (tracedWithin depth forwarded v target s).events) :
    (target = .handle k ∧ (tracedWithin depth forwarded v target s).outcome.fault = none) ∨
      ∃ d j, Encloses depth ⟨s, target, v⟩ d j ∧ j.target = .handle k ∧
        (feedWithin d j.sample j.target j.store).fault = none := by
  induction depth generalizing forwarded v target s with
  | zero => cases he
  | succ depth ih =>
    rcases returned_cases hn he with hown | ⟨j, forwarded', hj, he⟩
    · exact .inl hown
    · obtain ⟨es, hs⟩ := hj.steps (fun v t s => steps_feedWithin depth v t) hn
      rcases ih (hs.tallyless hn) he with ⟨hk, hf⟩ | ⟨d, i, hi, hk, hf⟩
      · rw [tracedWithin_outcome] at hf
        exact .inr ⟨depth, j, .made hj, hk, hf⟩
      · exact .inr ⟨d, i, .deeper hj hi, hk, hf⟩

theorem returns_eq_zero {handle : Nat} {es : List Event} (h : ∀ b, .returned handle b ∉ es) : returns handle es = 0 := by
  rw [returns, returnsWhere, List.countP_eq_zero]
  intro e he
  cases e with
  | handed => exact Bool.false_ne_true
  | returned k b =>
    intro hk
    exact h b (beq_iff_eq.mp hk ▸ he)

/-- A call that fails is not counted by the account it was made on. What the account has counted when
the call is over are calls within this one that have returned, to which the account leads back. -/
theorem samplesOf_of_fault {depth : Nat} {v : Value} {h : Nat} {s : Store} (hn : s.Tallyless) {f : Fault}
    (hf : (feedWithin depth v (.handle h) s).fault = some f) :
    (feedWithin depth v (.handle h) s).store.samplesOf h =
        s.samplesOf h + returns h (tracedWithin depth false v (.handle h) s).events ∧
      ∀ b, .returned h b ∈ (tracedWithin depth false v (.handle h) s).events →
        Relation.TransGen s.Leads h h ∧ ∃ d j, Encloses depth ⟨s, .handle h, v⟩ d j ∧ j.target = .handle h ∧
          (feedWithin d j.sample j.target j.store).fault = none := by
  refine ⟨?_, fun b he => ?_⟩
  · rw [← tracedWithin_outcome depth false, (steps_tracedWithin depth false v (.handle h) hn).samplesOf]
  · rcases returned_within hn he with ⟨_, hnone⟩ | ⟨d, j, hj, ht, hj'⟩
    · rw [tracedWithin_outcome, hf] at hnone
      cases hnone
    · obtain ⟨k, hk, hw⟩ := hj.leads hn
      cases hk
      exact ⟨hw h ht, d, j, hj, ht, hj'⟩

end Store

end StreamStat
