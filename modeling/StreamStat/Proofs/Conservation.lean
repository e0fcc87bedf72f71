import StreamStat.Proofs.Nesting
import Mathlib.Algebra.BigOperators.Ring.Finset
import Mathlib.Data.List.GetD
import Mathlib.Tactic.Ring

/-!
# Samples are conserved

What an account has counted since it was opened are the calls on it from outside that have
returned and what its views have counted since they were opened. Views may share an
account and be views of views, converters may feed other accounts, and calls may fail.
-/

namespace StreamStat

namespace Store

/-! ## The balance of a call -/

/-- How many more calls forwarded to the base have returned than calls on its views. -/
def surplus (s : Store) (base : Nat) (es : List Event) : Int :=
  forwardedReturns base es - returnsWhere (fun h _ => s.isViewOf base h) es

theorem surplus_append (s : Store) (base : Nat) (es fs : List Event) :
    s.surplus base (es ++ fs) = s.surplus base es + s.surplus base fs := by
  simp only [surplus, forwardedReturns, returnsWhere_append, Nat.cast_add]
  ring

theorem surplus_nil (s : Store) (base : Nat) : s.surplus base [] = 0 := rfl

theorem Steps.surplus {s t : Store} {es : List Event} (hs : Steps s es t) (base : Nat) (fs : List Event) :
    t.surplus base fs = s.surplus base fs := by
  simp only [Store.surplus, isViewOf, hs.link?]

theorem surplus_returned (s : Store) (base h : Nat) (forwarded : Bool) :
    s.surplus base [.returned h forwarded] =
      (if h = base ∧ forwarded then 1 else 0) - if s.isViewOf base h then 1 else 0 := by
  simp only [surplus, forwardedReturns, returnsWhere, List.countP_singleton, Bool.and_eq_true, beq_iff_eq]
  push_cast
  rfl

theorem surplus_handed (s : Store) (base h : Nat) (sight : ObjectView) (mark : Nat) (v : Value) (es : List Event) :
    s.surplus base (.handed h sight mark v :: es) = s.surplus base es := by
  simp [surplus, forwardedReturns, returnsWhere]

theorem surplus_tracedAbsorb {s : Store} {h : Nat} {a : Account} (ha : s.account? h = some a)
    (hv : a.isView = false) (base : Nat) (forwarded : Bool) (v : Value) :
    s.surplus base (s.tracedAbsorb h a forwarded v).events =
      if h = base ∧ forwarded ∧ (s.absorb h a v).fault = none then 1 else 0 := by
  simp only [tracedAbsorb, surplus_handed]
  split
  · rename_i hf; simp [surplus_returned, isViewOf, link?_of_base ha hv, hf]
  · rename_i f hf; simp [surplus_nil, hf]

theorem surplus_andThen {s : Store} {t : Traced} {f : Store → Traced} {base : Nat}
    (ht : Steps s t.events t.outcome.store) (h₁ : s.surplus base t.events = 0)
    (h₂ : t.outcome.store.surplus base (f t.outcome.store).events = 0) :
    s.surplus base (t.andThen f).events = 0 := by
  rw [ht.surplus] at h₂
  cases h : t.outcome.fault with
  | none => rw [Traced.andThen_of_none h, surplus_append, h₁, h₂, Int.add_zero]
  | some x => rw [Traced.andThen_of_fault h, h₁]

theorem surplus_tracedEach {f : Value → Store → Traced} {base : Nat}
    (hs : ∀ t (s : Store), s.Tallyless → Steps s (f t s).events (f t s).outcome.store)
    (hf : ∀ t (s : Store), s.Tallyless → s.surplus base (f t s).events = 0) :
    ∀ ts (s : Store), s.Tallyless → s.surplus base (tracedEach f ts s).events = 0
  | [], _, _ => rfl
  | t :: ts, s, hn =>
    have h := hs t s hn
    surplus_andThen h (hf t s hn) (surplus_tracedEach hs hf ts _ (h.tallyless hn))

theorem surplus_program {call : Value → Value → Store → Traced} {base : Nat}
    (hs : ∀ v t (s : Store), s.Tallyless → Steps s (call v t s).events (call v t s).outcome.store)
    (hf : ∀ v t (s : Store), s.Tallyless → s.surplus base (call v t s).events = 0) (p : Program) {s : Store}
    (hn : s.Tallyless) : s.surplus base (p.traced call s).events = 0 := by
  refine (Program.traced_keeps (P := fun es u => Steps s es u ∧ s.surplus base es = 0) ⟨.refl s, rfl⟩
    (fun es u h => ?_) fun t v es u _ h => ?_).2
  · exact ⟨by simpa using h.1.trans (Step.reserve u 1).steps, h.2⟩
  · have hu := h.1.tallyless hn
    have hcall := hf v t u hu
    rw [h.1.surplus] at hcall
    exact ⟨h.1.trans (hs v t u hu), by rw [surplus_append, h.2, hcall, Int.add_zero]⟩

/-- Within a call every return that is forwarded to the base is matched by one of a view
of it, but for the return of the call itself. -/
theorem surplus_tracedWithin (depth base : Nat) (forwarded : Bool) (v target : Value) {s : Store}
    (hn : s.Tallyless) :
    s.surplus base (tracedWithin depth forwarded v target s).events =
      if target.refersTo base ∧ forwarded ∧ (tracedWithin depth forwarded v target s).outcome.fault = none
        then 1 else 0 := by
  induction depth generalizing forwarded v target s with
  | zero => simp [tracedWithin, Traced.quiet, surplus_nil]
  | succ depth ih =>
    rcases tracedWithin_cases target hn with he | ⟨h, a, rfl, ha, hv⟩ |
      ⟨h, a, adoptee, c, rfl, ha, hb, ht⟩
    · simp [he, Traced.quiet, surplus_nil]
    · rw [tracedWithin_base ha hv, surplus_tracedAbsorb ha hv]
      simp [tracedAbsorb, Value.refersTo]
    · rw [tracedWithin_view ha hb ht]
      have step v t u hn := steps_tracedWithin depth false v t (s := u) hn
      have run := surplus_program step (fun v t u hn => by simpa using ih false v t hn) (c.program v) hn
      have hp := steps_program step (c.program v) hn
      generalize (c.program v).traced (tracedWithin depth false) s = p at run hp ⊢
      obtain ⟨u, es, result⟩ := p
      cases result with
      | error f => simp [Passage.andThen, run]
      | ok w =>
        have forward := ih true w adoptee (hp.tallyless hn)
        rw [hp.surplus] at forward
        simp only [Passage.andThen, tracedForward, surplus_append, run, zero_add]
        cases hF : (tracedWithin depth true w adoptee u).outcome.fault with
        | some f => simp [Traced.andThen_of_fault hF, forward, hF]
        | none =>
          -- the adoptee's return is matched by the view's own
          simp only [Traced.andThen_of_none hF, surplus_append, forward, surplus_returned,
            isViewOf, link?_eq_some.mpr ⟨a, ha, hb⟩, Option.any_some, hF]
          by_cases hh : h = base <;> cases adoptee.refersTo base <;> cases forwarded <;>
            simp [Value.refersTo, hh]

theorem surplus_traced (base : Nat) (target v : Value) {s : Store} (hn : s.Tallyless) :
    s.surplus base (s.traced false target v).events = 0 := by
  rw [traced, surplus_tracedWithin _ base false v target hn, if_neg (by simp)]

theorem surplus_tracedAll (base : Nat) (targets : List Value) :
    ∀ vs (s : Store), s.Tallyless → s.surplus base (tracedAll targets vs s).events = 0
  | [], _, _ => rfl
  | v :: vs, s, hn =>
    have step t u hn := steps_traced (s := u) hn false t (v.amendBy u.changes)
    have h := steps_tracedEach step targets s hn
    surplus_andThen h (surplus_tracedEach step (fun t _ hn => surplus_traced base t _ hn) targets s hn)
      (surplus_tracedAll base targets vs _ (h.tallyless hn))

theorem surplus_perform (base : Nat) {s : Store} (hn : s.Tallyless) (m : Move) :
    s.surplus base (s.perform m).events = 0 := by
  cases m with
  | copy handle => simp only [perform]; cases s.copy handle <;> rfl
  | feed target v => exact surplus_traced base target v hn
  | accumulate targets values =>
    simp only [perform]
    split
    · rfl
    · exact surplus_tracedAll base targets values s hn
  | _ => rfl

end Store

/-! ## Openings -/

def Object.samples : Object → Nat
  | .account a => a.samples
  | _ => 0

/-- The initial count of what a move lists: that of the source for a copy, and zero for
everything else. -/
def Move.openings (s : Store) : Move → List Nat
  | .create _ | .adapt _ _ | .list _ _ => [0]
  | .copy handle => ((s.account? handle).map Account.samples).toList
  | .feed _ _ | .accumulate _ _ => []

theorem Store.samplesOf_eq (s : Store) (handle : Nat) :
    s.samplesOf handle = ((s.object? handle).map Object.samples).getD 0 := by
  simp only [samplesOf, account?]
  cases s.object? handle with
  | none => rfl
  | some x => cases x <;> rfl

theorem Move.openings_eq (s : Store) (m : Move) :
    m.openings s = ((m.listed? s).map Object.samples).toList := by
  cases m with
  | copy handle => simp only [openings, listed?, Option.map_map]; rfl
  | list x passive => cases x <;> first | rfl | cases passive
  | _ => rfl

namespace Store

def openings : List Move → Store → List Nat
  | [], _ => []
  | m :: ms, s => m.openings s ++ openings ms (s.perform m).outcome.store

def gained (s : Store) (initial : List Nat) (handle : Nat) : Int := s.samplesOf handle - initial.getD handle 0

/-! ## Conservation -/

structure Conserved (s : Store) (initial : List Nat) (es : List Event) : Prop where
  tallyless : s.Tallyless
  length_eq : initial.length = s.next
  balance : ∀ base, s.gained initial base = directReturns base es + ∑ v ∈ s.viewsOf base, s.gained initial v

section
variable {s t : Store} {initial : List Nat} {es : List Event}

theorem Conserved.steps {fs : List Event} (h : Conserved s initial es) (hs : Steps s fs t)
    (hb : ∀ base, s.surplus base fs = 0) : Conserved t initial (es ++ fs) := by
  refine ⟨hs.tallyless h.tallyless, h.length_eq.trans hs.length_eq.symm, ?_⟩
  intro base
  have gain (k : Nat) : t.gained initial k = s.gained initial k + returns k fs := by
    simp only [gained, hs.samplesOf k, Nat.cast_add]; ring
  have views : t.viewsOf base = s.viewsOf base := by
    ext k; rw [mem_viewsOf, mem_viewsOf, isViewOf, hs.link?, isViewOf]
  have returned : ∑ v ∈ s.viewsOf base, returns v fs = forwardedReturns base fs := by
    have := hb base
    rw [sum_returns]
    simp only [mem_viewsOf, Bool.decide_eq_true]
    unfold surplus at this
    omega
  have hd := returns_eq base fs
  rw [views]
  simp only [gain, Finset.sum_add_distrib, ← Nat.cast_sum, returned, h.balance base]
  simp only [directReturns, returnsWhere_append] at hd ⊢
  omega

theorem Conserved.listed {x : Object} (h : Conserved s initial es) (ht : t.objects = s.objects ++ [x])
    (hx : ∀ u, x ≠ .tally u) : Conserved t (initial ++ [x.samples]) es := by
  have hl : initial.length = s.objects.length := h.length_eq
  have absent {k : Nat} (hk : s.objects.length ≤ k) : s.gained initial k = 0 := by
    rw [gained, samplesOf_eq, object?, List.getElem?_eq_none hk, List.getD_eq_default _ _ (by omega)]
    rfl
  have gain (k : Nat) : t.gained (initial ++ [x.samples]) k = s.gained initial k := by
    have ho := object?_append ht k
    rcases Nat.lt_trichotomy k s.objects.length with hk | rfl | hk
    · rw [if_neg (by omega)] at ho
      rw [gained, gained, samplesOf_congr ho, List.getD_append _ _ _ _ (by omega)]
    · rw [if_pos rfl] at ho
      rw [absent (Nat.le_refl _), gained, samplesOf_eq, ho, ← hl, List.getD_append_right _ _ _ _ (Nat.le_refl _)]
      simp
    · rw [if_neg (by omega)] at ho
      rw [gained, samplesOf_congr ho, List.getD_eq_default _ _ (by simp; omega), absent (by omega), samplesOf_eq,
        object?, List.getElem?_eq_none (by omega)]
      rfl
  refine ⟨h.tallyless.append ht hx, ?_, ?_⟩
  · simp [next, ht, hl]
  · intro base
    have old {k : Nat} (hk : k ≠ s.objects.length) : t.isViewOf base k = s.isViewOf base k :=
      isViewOf_congr ((object?_append ht k).trans (if_neg hk)) base
    have views : ∑ v ∈ s.viewsOf base, s.gained initial v = ∑ v ∈ t.viewsOf base, s.gained initial v := by
      apply Finset.sum_subset
      · intro k hk
        have hlt := Finset.mem_range.mp (Finset.mem_filter.mp hk).1
        rw [mem_viewsOf] at hk ⊢
        rw [old (Nat.ne_of_lt hlt), hk]
      · intro k hk hn
        rw [mem_viewsOf] at hk hn
        by_cases hk' : k = s.objects.length
        · exact absent (Nat.le_of_eq hk'.symm)
        · exact absurd ((old hk').symm.trans hk) hn
    simp only [gain, h.balance base, views]

theorem Conserved.perform (h : Conserved s initial es) (m : Move) :
    Conserved (s.perform m).outcome.store (initial ++ m.openings s) (es ++ (s.perform m).events) := by
  rcases perform_spec h.tallyless m with ⟨x, hx, he, ht⟩ | ⟨hx, hs⟩
  · rw [Move.openings_eq, hx, he, List.append_nil]
    exact h.listed ht (listed_ne_tally hx)
  · rw [Move.openings_eq, hx]
    simpa using h.steps hs fun base => surplus_perform base h.tallyless m

theorem Conserved.after (h : Conserved s initial es) (ms : List Move) :
    Conserved (s.after ms) (initial ++ openings ms s) (es ++ eventsOf ms s) := by
  induction ms generalizing s initial es with
  | nil => rwa [openings, eventsOf, List.append_nil, List.append_nil]
  | cons m ms ih =>
    rw [openings, eventsOf, ← List.append_assoc, ← List.append_assoc]
    exact ih (h.perform m)

end

theorem conserved_empty : Conserved .empty [] [] :=
  ⟨tallyless_empty, rfl, fun base => by
    simp [gained, samplesOf, account?, object?_empty, directReturns, returnsWhere]⟩

/-- Samples are conserved. After any moves, what an account has counted beyond its initial
count are the returns of calls on it that no view has made to forward a sample and what its
views have counted beyond theirs. A call that fails, be it within another one, leaves the
count of the account it was made on as it was. Only where an account leads back to itself can
its count rise meanwhile, by the calls on it within this one that have returned. -/
theorem samples_conserved (ms : List Move) :
    (∀ base, (empty.after ms).gained (openings ms empty) base =
      directReturns base (eventsOf ms empty) +
        ∑ v ∈ (empty.after ms).viewsOf base, (empty.after ms).gained (openings ms empty) v) ∧
    ∀ es t, Steps (empty.after ms) es t → ∀ depth x h f, (feedWithin depth x (.handle h) t).fault = some f →
      (¬ Relation.TransGen t.Leads h h → (feedWithin depth x (.handle h) t).store.samplesOf h = t.samplesOf h) ∧
      (feedWithin depth x (.handle h) t).store.samplesOf h =
          t.samplesOf h + returns h (tracedWithin depth false x (.handle h) t).events ∧
        ∀ b, .returned h b ∈ (tracedWithin depth false x (.handle h) t).events →
          ∃ d j, Invocation.Encloses depth ⟨t, .handle h, x⟩ d j ∧ j.target = .handle h ∧
            (feedWithin d j.sample j.target j.store).fault = none := by
  have hconserved : Conserved (empty.after ms) (openings ms empty) (eventsOf ms empty) := conserved_empty.after ms
  refine ⟨hconserved.balance, fun es t hs depth x h f hf => ?_⟩
  obtain ⟨hcount, hreturned⟩ := samplesOf_of_fault (hs.tallyless hconserved.tallyless) hf
  refine ⟨fun hback => ?_, hcount, fun b he => (hreturned b he).2⟩
  rw [hcount, returns_eq_zero fun b he => hback (hreturned b he).1, Nat.add_zero]

/-- Gives its argument to a target and returns it, even if the target refuses it. -/
def offered (target : Value) : Converter :=
  { Converter.tee .none target with program := fun v => .feed target v fun v _ => .finish (.ok v) }

/-- Two counters, a view of the first one that feeds the second one as well, a copy of the
view, a view of the view that lets nothing through, and one that offers what it forwards to a
mean. -/
def sharedCounter : List Move :=
  [.create .counter, .create .counter, .adapt (.handle 0) (.tee .none (.handle 1)), .copy 2,
    .adapt (.handle 2) (.ofConversion .none .fail), .create (.statistic .mean false),
    .adapt (.handle 0) (offered (.handle 5)), .accumulate [.handle 2, .handle 0, .handle 3] [.none, .none],
    .feed (.handle 4) .none, .feed (.handle 6) .none]

theorem built_sharedCounter : (empty.after sharedCounter).Built := by
  have older {h k : Nat} (hk : h < k) : Older k (.handle h) := fun _ he => by cases he; exact hk
  refine .perform (.perform (.perform (.perform (.perform (.perform (.perform (.perform (.perform (.perform .empty
    trivial) trivial) ⟨older (by decide : 0 < 2), fun t ht => ?tee⟩) trivial) ⟨older (by decide : 2 < 4), by simp⟩)
    trivial) ⟨older (by decide : 0 < 6), fun t ht => ?offered⟩) trivial) trivial) trivial
  case tee =>
    rw [Converter.taps_tee] at ht
    exact ht ▸ older (by decide : 1 < 2)
  case offered =>
    rw [Converter.taps_of_feeds_once (c := offered (.handle 5)) fun _ => rfl] at ht
    exact ht ▸ older (by decide : 5 < 6)

theorem samples_conserved_of_sharedCounter :
    (empty.after sharedCounter).gained (openings sharedCounter empty) 0 = (2 : Nat) + (5 : Int) ∧
    directReturns 0 (eventsOf sharedCounter empty) = 2 ∧ (empty.after sharedCounter).viewsOf 0 = {2, 3, 6} ∧
    (empty.after sharedCounter).samplesOf 1 = 4 ∧ (empty.after sharedCounter).samplesOf 5 = 0 ∧
    (feedWithin 3 .none (.handle 4) (empty.after sharedCounter)).store.samplesOf 4 = 0 := by
  obtain ⟨h, h'⟩ := samples_conserved sharedCounter
  have direct : directReturns 0 (eventsOf sharedCounter empty) = 2 := by decide
  have views : (empty.after sharedCounter).viewsOf 0 = {2, 3, 6} := by decide
  refine ⟨?_, direct, views, by decide, by decide, ?_⟩
  · rw [h 0, direct, views]
    decide
  · obtain ⟨hsame, -⟩ := h' [] _ (.refl _) 3 .none 4 .badValue rfl
    have falls := not_transGen_of_falls (fun _ _ => built_sharedCounter.sound.layered.lt_of_leads) 4
    exact (hsame falls).trans (by decide)

end Store

end StreamStat
