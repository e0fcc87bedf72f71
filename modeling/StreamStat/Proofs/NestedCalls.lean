import StreamStat.Proofs.Nesting

/-!
# Calls that are made by calls

While a call on a view is running it makes calls on what its converter feeds and on its adoptee. These
are older than the view, so that the handles of the targets fall from call to call: no call makes
calls for ever, and none comes back to a target on which a call is still running.
-/

namespace StreamStat

namespace Store

/-- All that a call can be, where there are no tallies. -/
theorem feed_cases {s : Store} (hn : s.Tallyless) (target v : Value) :
    s.feed target v = ⟨s, some .noAttribute⟩ ∨
    (∃ h a, target = .handle h ∧ s.account? h = some a ∧ a.isView = false ∧ s.feed target v = s.absorb h a v) ∨
    ∃ h adoptee c, target = .handle h ∧ s.link? h = some (adoptee, c) ∧ s.takesSamples adoptee = true := by
  rw [← traced_outcome s false]
  rcases tracedWithin_cases target hn with he | ⟨h, a, rfl, ha, hv⟩ | ⟨h, a, adoptee, c, rfl, ha, hb, ht⟩
  · exact .inl (congrArg Traced.outcome (he ..))
  · exact .inr (.inl ⟨h, a, rfl, ha, hv, congrArg Traced.outcome (traced_base ha hv false v)⟩)
  · exact .inr (.inr ⟨h, adoptee, c, rfl, link?_eq_some.mpr ⟨a, ha, hb⟩, ht⟩)

end Store

namespace Invocation

open Store

def outcome (i : Invocation) : Outcome := i.store.feed i.target i.sample

abbrev Makes : Invocation → Invocation → Prop := MakesBy give

variable {i j : Invocation}

theorem steps_give (v target : Value) (s : Store) (hn : s.Tallyless) : ∃ es, Steps s es (give v target s).store :=
  ⟨_, steps_feed hn target v⟩

theorem Makes.steps (h : i.Makes j) (hs : i.store.Sound) : ∃ es, Steps i.store es j.store :=
  MakesBy.steps steps_give hs.tallyless h

theorem Makes.sound (h : i.Makes j) (hs : i.store.Sound) : j.store.Sound := by
  obtain ⟨_, hsteps⟩ := h.steps hs
  exact hsteps.sound hs

theorem steps_of_reflTransGen (h : Relation.ReflTransGen Makes i j) (hs : i.store.Sound) :
    ∃ es, Steps i.store es j.store := by
  induction h with
  | refl => exact ⟨[], .refl _⟩
  | tail _ h ih =>
    obtain ⟨_, hsteps⟩ := ih
    obtain ⟨_, hsteps'⟩ := h.steps (hsteps.sound hs)
    exact ⟨_, hsteps.trans hsteps'⟩

theorem sound_of_reflTransGen (h : Relation.ReflTransGen Makes i j) (hs : i.store.Sound) : j.store.Sound := by
  obtain ⟨_, hsteps⟩ := steps_of_reflTransGen h hs
  exact hsteps.sound hs

theorem Makes.older (h : i.Makes j) (hs : i.store.Sound) : ∃ k, i.target = .handle k ∧ Older k j.target := by
  obtain ⟨k, hk, hl⟩ := h.leads
  exact ⟨k, hk, fun n hn => hs.layered.lt_of_leads (hl n hn)⟩

/-- No call makes calls for ever, one inside the other. -/
theorem acc_makes (hs : i.store.Sound) : Acc (Function.swap Makes) i := by
  -- every call lowers the handle of the target, so that a bound on it bounds how deep calls nest
  have bounded (n : Nat) : ∀ {i : Invocation}, Older n i.target → i.store.Sound → Acc (Function.swap Makes) i := by
    induction n with
    | zero =>
      intro i hn hs
      constructor
      intro j hj
      obtain ⟨k, hk, _⟩ := Makes.older hj hs
      exact absurd (hn k hk) (Nat.not_lt_zero k)
    | succ n ih =>
      intro i hn hs
      constructor
      intro j hj
      obtain ⟨k, hk, hold⟩ := Makes.older hj hs
      exact ih (hold.mono (Nat.le_of_lt_succ (hn k hk))) (Makes.sound hj hs)
  cases ht : i.target with
  | handle k => exact bounded (k + 1) (fun h hh => by rw [ht] at hh; cases hh; exact Nat.lt_succ_self k) hs
  | _ => exact bounded 0 (fun h hh => by rw [ht] at hh; cases hh) hs

theorem older_of_transGen (h : Relation.TransGen Makes i j) (hs : i.store.Sound) :
    ∃ k, i.target = .handle k ∧ Older k j.target := by
  induction h with
  | single h => exact h.older hs
  | tail hbefore h ih =>
    obtain ⟨k, hk, hold⟩ := ih
    obtain ⟨n, hn, hold'⟩ := h.older (sound_of_reflTransGen hbefore.to_reflTransGen hs)
    exact ⟨k, hk, hold'.mono (Nat.le_of_lt (hold n hn))⟩

/-- While a call on a target is running, no other call on the target is made. -/
theorem target_ne_of_transGen (h : Relation.TransGen Makes i j) (hs : i.store.Sound) : j.target ≠ i.target := by
  intro heq
  obtain ⟨k, hk, hold⟩ := older_of_transGen h hs
  exact Nat.lt_irrefl k (hold k (heq.trans hk))

/-! ## Calls on views -/

section
variable {P : Store → Prop} (hP : P i.store) (hreserve : ∀ u, P u → P (u.reserve 1))
  (hcall : ∀ j, i.Makes j → P j.store → P j.outcome.store)
include hP hreserve hcall

/-- What all calls keep that a program makes the program keeps. -/
theorem Runs.keeps {adoptee : Value} {c : Converter} {q : Program} {u : Store} (h : i.Runs give adoptee c q u) : P u :=
  h.comes.keeps hP fun hq hu => hcall _ (.tap ⟨h.view, h.takes, hq⟩) (hreserve _ hu)

end

section
variable {h : Nat} {adoptee : Value} {c : Converter} (hview : i.target = .handle h) (hl : i.store.link? h = some (adoptee, c))
  (ht : i.store.takesSamples adoptee = true)
include hview hl ht

theorem runs_of_comes {q : Program} {u : Store} (hq : Program.Comes give (c.program i.sample) i.store q u) :
    i.Runs give adoptee c q u := ⟨⟨h, hview, hl⟩, ht, hq⟩

variable (hs : i.store.Sound)
include hs

/-- A call on a view is the calls that it makes; each of them is made in full. -/
theorem outcome_view :
    i.outcome = ((c.program i.sample).run give i.store).andThen fun w u =>
      (u.feed adoptee w).andThen fun u => ⟨u.count h, none⟩ := by
  unfold outcome
  rw [hview, feed_view hs hl ht]

/-- A call on a view fails because its converter does or a call that it makes. -/
theorem fault_of_view {x : Fault} (hx : i.outcome.fault = some x) :
    (∃ j, i.Makes j ∧ j.outcome.fault = some x) ∨ ∃ u, i.Runs give adoptee c (.finish (.error x)) u := by
  have runs {q : Program} {u : Store} := runs_of_comes (q := q) (u := u) hview hl ht
  rw [outcome_view hview hl ht hs] at hx
  have hcases := Program.Comes.run_cases (.start : Program.Comes give (c.program i.sample) i.store _ _)
  generalize (c.program i.sample).run give i.store = e at hx hcases
  obtain ⟨u, result⟩ := e
  rcases hcases with hq | ⟨target, sample, next, t, hq, hendless, rfl⟩
  · cases result with
    | error f =>
      cases hx
      exact .inr ⟨u, runs hq⟩
    | ok w =>
      refine .inl ⟨_, .adoptee (runs hq), ?_⟩
      simp only [Exit.andThen, Outcome.andThen] at hx
      split at hx
      · cases hx
      · exact hx
  · cases hx
    exact .inl ⟨_, .tap (runs hq), congrArg Outcome.fault hendless⟩

/-- What all calls keep that a call on a view makes the call keeps. -/
theorem outcome_keeps {P : Store → Prop} (hP : P i.store) (hreserve : ∀ u, P u → P (u.reserve 1))
    (hcall : ∀ j, i.Makes j → P j.store → P j.outcome.store) (hcount : ∀ u, P u → P (u.count h)) :
    P i.outcome.store := by
  have runs {q : Program} {u : Store} := runs_of_comes (q := q) (u := u) hview hl ht
  have hrun : P ((c.program i.sample).run give i.store).store :=
    Program.run_keeps hP fun hq hu => hcall _ (.tap (runs hq)) (hreserve _ hu)
  rw [outcome_view hview hl ht hs]
  cases hw : ((c.program i.sample).run give i.store).result with
  | error f => simpa only [Exit.andThen, hw] using hrun
  | ok w =>
    have hadoptee := hcall _ (.adoptee (runs (Program.comes_of_returned hw))) hrun
    simp only [Exit.andThen, hw, Outcome.andThen]
    split
    · exact hcount _ hadoptee
    · exact hadoptee

end

end Invocation

end StreamStat
