import StreamStat.Proofs.NestedCalls
import StreamStat.Proofs.SelfEquality
import StreamStat.Proofs.Showing

/-!
# Calls come to an end

An account that is given a sample may compare it, and a comparison goes on for ever only if both
sides lead to objects that are reached from themselves. So a call comes to an end if the converters
that it applies do, unless some account is given a sample that leads to such an object
(`stalls_of_endless`). Where objects show nothing but older ones there are no such objects, and
samples that hold nothing but older objects bring in none (`ordered_outcome`).
-/

namespace StreamStat

theorem Value.handles_stamp (v : Value) (mark : Nat) : (v.stamp mark).handles = v.handles := by
  unfold stamp
  split <;> simp only [handles]

namespace Invocation

open Store

variable {i j : Invocation}

/-! ## Calls that go on for ever -/

/-- What can make a call go on for ever by itself: the converter of a view does, though all calls that
it makes come to an end, or the sample of another account leads to an object that is reached from itself. -/
inductive Stalls (i : Invocation) : Prop where
  | converter {adoptee : Value} {c : Converter} {u : Store} :
      i.Runs give adoptee c (.finish (.error .endless)) u → i.Stalls
  | sample {h k : Nat} {a : Account} :
      i.target = .handle h → i.store.account? h = some a → a.isView = false → k ∈ i.sample.handles →
        i.store.Coiled k → i.Stalls

/-- A call that goes on for ever makes a call that does so by itself, or is one. -/
theorem stalls_of_endless (hs : i.store.Sound) (hc : i.store.Terminating) (hf : i.outcome.fault = some .endless) :
    ∃ j, Relation.ReflTransGen Makes i j ∧ j.Stalls := by
  have acc := acc_makes hs
  induction acc with
  | intro i _ ih =>
    rcases feed_cases hs.tallyless i.target i.sample with he | ⟨h, a, hi, ha, hv, he⟩ | ⟨h, adoptee, c, hi, hl, ht⟩
    · rw [outcome, he] at hf
      cases hf
    · by_contra hstalls
      -- of two values that are compared one is the sample, which is enough
      have hsample : (i.sample.stamp i.store.marks).KnowsOnly {k | ¬ i.store.Coiled k} := by
        intro k hk hcoiled
        rw [Value.handles_stamp] at hk
        exact hstalls ⟨i, .refl, .sample hi ha hv hk hcoiled⟩
      rw [outcome, he, (absorb_spec i.store h a i.sample).1] at hf
      exact Account.receive_ends (endsOn_view hc) hsample _ a hf
    · rcases fault_of_view hi hl ht hs hf with ⟨j, hj, hf⟩ | ⟨u, hu⟩
      · obtain ⟨_, hsteps⟩ := hj.steps hs
        obtain ⟨k, hk, hstalls⟩ := ih j hj (hj.sound hs) (hsteps.terminating hc) hf
        exact ⟨k, .head hj hk, hstalls⟩
      · exact ⟨i, .refl, .converter hu⟩

end Invocation

/-! ## Stores in order -/

namespace Store

def Ordered (s : Store) : Prop := ∀ h k, s.Shows h k → k < h

variable {s t : Store}

theorem Ordered.not_coiled (ho : s.Ordered) (h : Nat) : ¬ s.Coiled h := by
  rintro ⟨k, _, hk⟩
  exact not_transGen_of_falls ho k hk

theorem Ordered.endsOn (ho : s.Ordered) (hc : s.Terminating) : s.view.EndsOn Set.univ := by
  have hview := endsOn_view hc
  exact ⟨fun h _ => hview.text h (ho.not_coiled h), fun h _ => hview.written h (ho.not_coiled h),
    fun i j _ => hview.equal i j (.inl (ho.not_coiled i))⟩

theorem ordered_reserve (ho : s.Ordered) (n : Nat) : (s.reserve n).Ordered := ho

/-- An object that holds nothing but what is there can be listed. -/
theorem ordered_perform (hn : s.Tallyless) (ho : s.Ordered) {m : Move} {x : Object} (hm : m.listed? s = some x)
    (hx : ∀ v ∈ x.contents, ∀ k ∈ v.handles, k < s.next) : (s.perform m).outcome.store.Ordered := by
  rcases perform_spec hn m with ⟨y, hy, _, ht⟩ | ⟨hnone, _⟩
  · cases hm.symm.trans hy
    rintro h k ⟨y, hy, v, hv, hk⟩
    rw [object?_append ht] at hy
    split at hy
    · rename_i hh
      cases hy
      rw [hh]
      exact hx v hv k hk
    · exact ho h k ⟨y, hy, v, hv, hk⟩
  · rw [hm] at hnone
    cases hnone

theorem ordered_absorb {h : Nat} {a : Account} (ho : s.Ordered) (ha : s.account? h = some a) (hb : a.isView = false)
    {v : Value} (hv : ∀ k ∈ v.handles, k < h) : (s.absorb h a v).store.Ordered := by
  rintro i k ⟨x, hx, w, hw, hk⟩
  rw [object?_absorb ha] at hx
  split at hx
  · rename_i hi
    subst hi
    cases hx
    rw [Account.contents_of_base ((Account.isView_receive ..).trans hb)] at hw
    rcases Account.extremes_receive _ _ a _ w hw with hw | rfl
    · rw [← Account.contents_of_base hb] at hw
      exact ho i k ⟨_, account?_eq_some.mp ha, w, hw, hk⟩
    · rw [Value.handles_stamp] at hk
      exact hv k hk
  · exact ho i k ⟨x, hx, w, hw, hk⟩

theorem ordered_count (ho : s.Ordered) (h : Nat) : (s.count h).Ordered := by
  cases ha : s.account? h with
  | none => simpa only [count, ha] using ho
  | some a =>
    rintro i k ⟨x, hx, hk⟩
    rw [object?_count ha] at hx
    split at hx
    · rename_i hi
      subst hi
      cases hx
      exact ho i k ⟨_, account?_eq_some.mp ha, hk⟩
    · exact ho i k ⟨x, hx, hk⟩

end Store

namespace Invocation

open Store

variable {i j : Invocation}

def GivesOlder (i : Invocation) : Prop :=
  ∀ h a, i.target = .handle h → i.store.account? h = some a → a.isView = false → ∀ k ∈ i.sample.handles, k < h

/-- Calls keep a store in order if they give accounts nothing but older objects. -/
theorem ordered_outcome (hs : i.store.Sound) (ho : i.store.Ordered)
    (holder : ∀ j, Relation.ReflTransGen Makes i j → j.GivesOlder) : i.outcome.store.Ordered := by
  have acc := acc_makes hs
  induction acc with
  | intro i _ ih =>
    rcases feed_cases hs.tallyless i.target i.sample with he | ⟨h, a, hi, ha, hv, he⟩ | ⟨h, adoptee, c, hi, hl, ht⟩
    · rw [outcome, he]
      exact ho
    · rw [outcome, he]
      exact ordered_absorb ho ha hv (holder i .refl h a hi ha hv)
    · refine outcome_keeps hi hl ht hs ho (fun u hou => ordered_reserve hou 1) (fun j hj hoj => ?_) fun u hou =>
        ordered_count hou h
      exact ih j hj (hj.sound hs) hoj fun k hk => holder k (.head hj hk)

theorem Runs.ordered {adoptee : Value} {c : Converter} {q : Program} {u : Store} (h : i.Runs give adoptee c q u)
    (hs : i.store.Sound) (ho : i.store.Ordered) (holder : ∀ j, Relation.ReflTransGen Makes i j → j.GivesOlder) :
    u.Ordered :=
  h.keeps ho (fun _ hou => ordered_reserve hou 1) fun _ hj hoj =>
    ordered_outcome (hj.sound hs) hoj fun k hk => holder k (.head hj hk)

theorem ordered_of_reflTransGen (h : Relation.ReflTransGen Makes i j) (hs : i.store.Sound) (ho : i.store.Ordered)
    (holder : ∀ j, Relation.ReflTransGen Makes i j → j.GivesOlder) : j.store.Ordered := by
  induction h with
  | refl => exact ho
  | tail hreach h ih =>
    have below (k : Invocation) (hk : Relation.ReflTransGen Makes _ k) := holder k (hreach.trans hk)
    have hs' := sound_of_reflTransGen hreach hs
    cases h with
    | tap h => exact ordered_reserve (h.ordered hs' ih below) 1
    | adoptee h => exact h.ordered hs' ih below

theorem Runs.ends {adoptee : Value} {c : Converter} {result : Except Fault Value} {u : Store}
    (h : i.Runs give adoptee c (.finish result) u) (hs : i.store.Sound) (hc : i.store.Terminating) (ho : i.store.Ordered)
    (holder : ∀ j, Relation.ReflTransGen Makes i j → j.GivesOlder) : Ends result := by
  obtain ⟨k, _, hl⟩ := h.view
  -- whatever the program has looked at on the way could be looked at
  have hend := h.comes.terminates ((hc k _ _ hl).program i.sample) fun next t hq => by
    have hlook : i.Runs give adoptee c (.look next) t := ⟨h.view, h.takes, hq⟩
    obtain ⟨_, hsteps⟩ := hlook.steps steps_give hs.tallyless
    exact (hlook.ordered hs ho holder).endsOn (hsteps.terminating hc)
  cases hend with
  | finish hresult => exact hresult

theorem ends_of_ordered (hs : i.store.Sound) (hc : i.store.Terminating) (ho : i.store.Ordered)
    (holder : ∀ j, Relation.ReflTransGen Makes i j → j.GivesOlder) : i.outcome.fault ≠ some .endless := by
  intro hf
  obtain ⟨j, hreach, hstalls⟩ := stalls_of_endless hs hc hf
  obtain ⟨_, hsteps⟩ := steps_of_reflTransGen hreach hs
  have hsj := hsteps.sound hs
  have hcj := hsteps.terminating hc
  have hoj := ordered_of_reflTransGen hreach hs ho holder
  cases hstalls with
  | converter hu => exact ends_iff.mp (hu.ends hsj hcj hoj fun k hk => holder k (hreach.trans hk)) rfl
  | sample _ _ _ _ hcoiled => exact hoj.not_coiled _ hcoiled

end Invocation

/-! ## Forwarding ends -/

namespace Store

variable {s : Store}

/-- Views refer to older objects only, so that the calls that a call makes end and none of them is
made on a target on which one is running. The texts of an object end unless it leads to an object
that is reached from itself, one showing the next. A call ends unless, on its way, a converter does
not or an account is given a sample that leads to such an object. There are none where objects show
older ones only; calls keep it so if they give accounts nothing but older objects. -/
theorem forwarding_ends (hs : s.Built) (hc : s.Terminating) :
    (∀ h k, s.Leads h k → k < h) ∧ (∀ h, ¬ Relation.TransGen s.Leads h h) ∧
    (∀ target v, Acc (Function.swap Invocation.Makes) ⟨s, target, v⟩ ∧
      ∀ i j, Relation.ReflTransGen Invocation.Makes ⟨s, target, v⟩ i → Relation.TransGen Invocation.Makes i j →
        j.target ≠ i.target) ∧
    (∀ h, ¬ s.Coiled h → Ends (s.view.text h) ∧ Ends (s.view.written h)) ∧
    (∀ target v, (s.feed target v).fault = some .endless →
      ∃ i, Relation.ReflTransGen Invocation.Makes ⟨s, target, v⟩ i ∧ i.Stalls) ∧
    (s.Ordered →
      (∀ h, Ends (s.view.text h) ∧ Ends (s.view.written h)) ∧
      (∀ target v, (∀ i, Relation.ReflTransGen Invocation.Makes ⟨s, target, v⟩ i → i.GivesOlder) →
        (s.feed target v).fault ≠ some .endless ∧ (s.feed target v).store.Ordered) ∧
      ∀ m x, m.listed? s = some x → (∀ v ∈ x.contents, ∀ k ∈ v.handles, k < s.next) →
        (s.perform m).outcome.store.Ordered) := by
  have hview := endsOn_view hc
  have hfalls : ∀ h k, s.Leads h k → k < h := fun _ _ => hs.sound.layered.lt_of_leads
  refine ⟨hfalls, not_transGen_of_falls hfalls, fun target v => ⟨Invocation.acc_makes hs.sound, fun i j hi hj => ?_⟩,
    fun h hh => ?_, fun target v hf => ?_, fun ho => ⟨fun h => ?_, fun target v holder => ?_, fun m x hm hx => ?_⟩⟩
  · exact Invocation.target_ne_of_transGen hj (Invocation.sound_of_reflTransGen hi hs.sound)
  · exact ⟨hview.text h hh, hview.written h hh⟩
  · exact Invocation.stalls_of_endless (i := ⟨s, target, v⟩) hs.sound hc hf
  · exact ⟨hview.text h (ho.not_coiled h), hview.written h (ho.not_coiled h)⟩
  · exact ⟨Invocation.ends_of_ordered hs.sound hc ho holder, Invocation.ordered_outcome hs.sound ho holder⟩
  · exact ordered_perform hs.sound.tallyless ho hm hx

/-- A minimum and a counter, a view of the counter that gives its samples to the minimum too, and a
view of this view that changes the sign. -/
def teedCounter : Store :=
  empty.after [.create (.statistic .min false), .create .counter, .adapt (.handle 1) (.tee .none (.handle 0)),
    .adapt (.handle 2) (.ofConversion .none .neg)]

theorem built_teedCounter : teedCounter.Built := by
  have older {h k : Nat} (hk : h < k) : Older k (.handle h) := fun _ he => by cases he; exact hk
  refine .perform (.perform (.perform (.perform .empty trivial) trivial) ⟨older (by decide : 1 < 2), ?_⟩)
    ⟨older (by decide : 2 < 3), fun t ht => ?_⟩
  · rintro t ht
    rw [Converter.taps_tee, Set.mem_singleton_iff] at ht
    exact ht ▸ older (by decide : 0 < 2)
  · rw [Converter.taps_ofConversion] at ht
    exact ht.elim

theorem terminating_teedCounter : teedCounter.Terminating := by
  refine terminating_after tallyless_empty terminating_empty fun adoptee c hm => ?_
  simp only [List.mem_cons, Move.adapt.injEq, reduceCtorEq, List.not_mem_nil, or_false, false_or] at hm
  rcases hm with ⟨-, rfl⟩ | ⟨-, rfl⟩
  · exact Converter.terminates_tee _ _
  · exact Converter.terminates_ofConversion _ _

theorem forwarding_ends_of_teedCounter :
    teedCounter.Built ∧ teedCounter.Terminating ∧ teedCounter.Leads 2 0 ∧
    (∀ h k, teedCounter.Leads h k → k < h) ∧
    ∀ v i, Relation.TransGen Invocation.Makes ⟨teedCounter, .handle 3, v⟩ i → i.target ≠ .handle 3 := by
  obtain ⟨older, -, calls, -⟩ := forwarding_ends built_teedCounter terminating_teedCounter
  refine ⟨built_teedCounter, terminating_teedCounter, ⟨_, _, rfl, ?_⟩, older, fun v i hi => ?_⟩
  · exact .inr (by simp)
  · exact (calls (.handle 3) v).2 _ i .refl hi

/-! ## Accounts that hold themselves -/

/-- Two minima that have been given themselves, and one that has been given a list of the first. -/
def selfHolding : Store :=
  empty.after [.create (.statistic .min false), .create (.statistic .min false), .create (.statistic .min false),
    .feed (.handle 0) (.handle 0), .feed (.handle 1) (.handle 1), .feed (.handle 2) (.list [.handle 0] 0)]

theorem built_selfHolding : selfHolding.Built :=
  .perform (.perform (.perform (.perform (.perform (.perform .empty trivial) trivial) trivial) trivial) trivial) trivial

theorem terminating_selfHolding : selfHolding.Terminating :=
  terminating_after tallyless_empty terminating_empty fun adoptee c hm => by simp at hm

/-- However deep one looks, there is more to see. -/
theorem endless_selfHolding (depth : Nat) :
    (selfHolding.viewWithin depth).text 0 = .error .endless ∧
    (selfHolding.viewWithin depth).written 0 = .error .endless ∧
    (selfHolding.viewWithin depth).equal 1 0 = .error .endless := by
  have held (h : Nat) (hh : h < 2) :
      selfHolding.object? h = some (.account ⟨AccountClass.title (.statistic .min false), 1, .min (.handle h), 0, []⟩) := by
    match h, hh with
    | 0, _ => rfl
    | 1, _ => rfl
  induction depth with
  | zero => exact ⟨rfl, rfl, rfl⟩
  | succ depth ih =>
    obtain ⟨htext, -, hequal⟩ := ih
    have hwritten : (selfHolding.viewWithin (depth + 1)).written 0 = .error .endless := by
      simp only [viewWithin, held 0 (by decide), Option.elim, Object.written, Account.written, Account.statistics,
        List.mapM_cons, Value.inlineText, Value.plainText, htext]
      rfl
    refine ⟨?_, hwritten, ?_⟩
    · rw [← hwritten]
      simp only [viewWithin, held 0 (by decide), Option.elim, Object.text]
    · simp only [viewWithin, held 0 (by decide), held 1 (by decide), Object.compare, Account.compare,
        Account.compareStatistics, Value.compare, Value.compareSingle, Value.compareHandles, hequal]
      rfl

/-- Where accounts hold themselves a text may go on for ever, and so may a call that compares. -/
theorem endless_when_self_held :
    selfHolding.Built ∧ selfHolding.Terminating ∧
    (∀ depth, (selfHolding.viewWithin depth).written 0 = .error .endless) ∧ ¬ Ends (selfHolding.view.written 0) ∧
    (selfHolding.feed (.handle 2) (.list [.handle 1] 0)).fault = some .endless := by
  refine ⟨built_selfHolding, terminating_selfHolding, fun depth => (endless_selfHolding depth).2.1, fun hends => ?_, rfl⟩
  exact ends_iff.mp hends (endless_selfHolding _).2.1

end Store

end StreamStat
