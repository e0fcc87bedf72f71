import Mathlib.Algebra.BigOperators.Group.Finset.Piecewise
import StreamStat.Proofs.Moves

/-!
# Counts and returns

An account has counted one sample for each call on it that has returned. A view that
forwards a call counts it after its adoptee, so that in a call from outside the returns
forwarded to an account are the returns of its views (`surplus_perform`).
-/

namespace StreamStat

/-! ## Returns in a trace -/

def returnsWhere (p : Nat → Bool → Bool) (es : List Event) : Nat :=
  es.countP fun
    | .handed .. => false
    | .returned h forwarded => p h forwarded

def returns (handle : Nat) : List Event → Nat := returnsWhere fun h _ => h == handle

/-- How many calls on an account have returned that no view has made to forward a sample. -/
def directReturns (handle : Nat) : List Event → Nat :=
  returnsWhere fun h forwarded => h == handle && !forwarded

/-- How many calls on an account have returned that a view has made to forward a sample. -/
def forwardedReturns (handle : Nat) : List Event → Nat :=
  returnsWhere fun h forwarded => h == handle && forwarded

theorem returnsWhere_append (p : Nat → Bool → Bool) (es fs : List Event) :
    returnsWhere p (es ++ fs) = returnsWhere p es + returnsWhere p fs :=
  List.countP_append

theorem returns_eq (handle : Nat) (es : List Event) :
    returns handle es = directReturns handle es + forwardedReturns handle es := by
  induction es with
  | nil => rfl
  | cons e es ih =>
    simp only [returns, directReturns, forwardedReturns, returnsWhere, List.countP_cons] at ih ⊢
    rw [ih]
    cases e with
    | handed => simp
    | returned h forwarded => cases forwarded <;> by_cases hh : h = handle <;> simp [hh] <;> omega

/-- The returns of some accounts, account by account. -/
theorem sum_returns (S : Finset Nat) (es : List Event) :
    ∑ v ∈ S, returns v es = returnsWhere (fun h _ => decide (h ∈ S)) es := by
  induction es with
  | nil => exact Finset.sum_const_zero
  | cons e es ih =>
    simp only [returns, returnsWhere, List.countP_cons] at ih ⊢
    rw [Finset.sum_add_distrib, ih]
    cases e with
    | handed => simp
    | returned h forwarded => simp [Finset.sum_ite_eq]

def Value.refersTo (handle : Nat) : Value → Bool
  | .handle h => h == handle
  | _ => false

namespace Store

/-! ## Counts -/

def samplesOf (s : Store) (handle : Nat) : Nat := ((s.account? handle).map Account.samples).getD 0

theorem samples_receive (o : ObjectView) (mark : Nat) (a : Account) (v : Value) :
    (a.receive o mark v).1.samples = a.samples + if (a.receive o mark v).2 = none then 1 else 0 := by
  rcases a.receive_cases o mark v with ⟨body, stamp, _, h⟩ | ⟨f, h⟩ | ⟨_, _, _, f, _, _, _, h⟩
  · rw [h]; rfl
  · rw [h]; rfl
  · rw [h]; rfl

theorem samplesOf_congr {s t : Store} {h k : Nat} (hst : s.object? h = t.object? k) :
    s.samplesOf h = t.samplesOf k := by
  simp only [samplesOf, account?, hst]

theorem Step.samplesOf {s t : Store} {es : List Event} (hs : Step s es t) (k : Nat) :
    t.samplesOf k = s.samplesOf k + returns k es := by
  cases hs with
  | reserve n => exact samplesOf_congr (object?_reserve s n k)
  | @absorb h a forwarded v ha hv =>
    by_cases hk : k = h
    · subst hk
      have ho := object?_absorb ha v k
      rw [if_pos rfl, ← account?_eq_some] at ho
      simp only [Store.samplesOf, ho, ha, Option.map_some, Option.getD_some, samples_receive, tracedAbsorb,
        (absorb_spec s k a v).1]
      cases (a.receive s.view (s.marks + 1) (v.stamp s.marks)).2 <;> simp [returns, returnsWhere]
    · have ho := object?_absorb ha v k
      rw [if_neg hk] at ho
      rw [samplesOf_congr ho]
      unfold tracedAbsorb
      dsimp only
      split <;> simp [returns, returnsWhere, Ne.symm hk]
  | @count h a forwarded ha hv =>
    by_cases hk : k = h
    · subst hk
      have ho := object?_count ha k
      rw [if_pos rfl, ← account?_eq_some] at ho
      simp [Store.samplesOf, ho, ha, Account.count, returns, returnsWhere]
    · have ho := object?_count ha k
      rw [if_neg hk] at ho
      simp [samplesOf_congr ho, returns, returnsWhere, Ne.symm hk]

/-- An account counts the calls on it that return, and no others. -/
theorem Steps.samplesOf {s t : Store} {es : List Event} (hs : Steps s es t) (k : Nat) :
    t.samplesOf k = s.samplesOf k + returns k es := by
  induction hs with
  | refl s => rfl
  | cons hs _ ih => rw [ih, hs.samplesOf k, returns, returnsWhere_append]; omega

/-! ## Views of an account -/

def isViewOf (s : Store) (base handle : Nat) : Bool := (s.link? handle).any fun r => r.1.refersTo base

theorem isViewOf_congr {s t : Store} {h : Nat} (hst : s.object? h = t.object? h) (base : Nat) :
    s.isViewOf base h = t.isViewOf base h := by
  simp only [isViewOf, link?, account?, hst]

def viewsOf (s : Store) (base : Nat) : Finset Nat := (Finset.range s.next).filter fun h => s.isViewOf base h

theorem mem_viewsOf {s : Store} {base h : Nat} : h ∈ s.viewsOf base ↔ s.isViewOf base h = true := by
  refine Finset.mem_filter.trans ⟨And.right, fun hv => ⟨Finset.mem_range.mpr ?_, hv⟩⟩
  cases ha : s.account? h with
  | none => simp [isViewOf, link?, ha] at hv
  | some a => exact lt_of_account? ha

end Store

end StreamStat
