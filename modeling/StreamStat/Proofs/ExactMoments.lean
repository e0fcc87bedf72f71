import Mathlib.Algebra.BigOperators.Group.List.Basic
import Mathlib.Algebra.BigOperators.Ring.List
import Mathlib.Algebra.Field.Rat
import Mathlib.Tactic.FieldSimp
import Mathlib.Tactic.LinearCombination
import Mathlib.Tactic.NormNum
import Mathlib.Tactic.Ring
import StreamStat.Proofs.RunningMean

/-!
# Running moments without rounding

In exact arithmetic a run gives the textbook statistics of its samples. The final mean is in every
summand of the sum of squared deviations, while a step only ever adds one product, so the induction
is on sums that no mean is in: that of the samples and that of their squares
(`mean_pushAll`, `spread_pushAll`).
-/

namespace StreamStat

/-- The running mean that is kept without a spread, after the first `n` samples and some more. -/
def runningMean {α : Type} [Add α] [Sub α] [Div α] [NatCast α] (mean : α) (n : Nat) : List α → α
  | [] => mean
  | x :: xs => runningMean (nextMean mean (n + 1) x) (n + 1) xs

namespace Moments

/-- The mean is the same with and without a spread. -/
theorem runningMean_eq {α : Type} [Add α] [Sub α] [Mul α] [Div α] [NatCast α] (m : Moments α) (n : Nat) (xs : List α) :
    runningMean m.mean n xs = (m.pushAll n xs).mean := by
  induction xs generalizing m n with
  | nil => rfl
  | cons x xs ih => exact ih (m.push (n + 1) x) (n + 1)

variable (m : Moments ℚ) (n : Nat)

/-! ## One step -/

theorem mean_push (x : ℚ) : (m.push (n + 1) x).mean * (n + 1) = m.mean * n + x := by
  have hn : (n : ℚ) + 1 ≠ 0 := n.cast_add_one_ne_zero
  simp only [push, nextMean, Nat.cast_add, Nat.cast_one]
  field_simp
  ring

theorem spread_push (x : ℚ) :
    (m.push (n + 1) x).spread + (m.push (n + 1) x).mean ^ 2 * (n + 1) =
      m.spread + m.mean ^ 2 * n + x ^ 2 := by
  have hmean := mean_push m n x
  have hspread : (m.push (n + 1) x).spread = m.spread + (x - m.mean) * (x - (m.push (n + 1) x).mean) := rfl
  rw [hspread]
  -- one factor of the new mean is multiplied out, the other one stays
  linear_combination ((m.push (n + 1) x).mean + m.mean) * hmean

/-! ## A run -/

theorem mean_pushAll (xs : List ℚ) :
    (m.pushAll n xs).mean * (n + xs.length) = m.mean * n + xs.sum := by
  induction xs generalizing m n with
  | nil => simp [pushAll]
  | cons x xs ih =>
    have h := ih (m.push (n + 1) x) (n + 1)
    push_cast at h
    rw [mean_push] at h
    simp only [pushAll, List.length_cons, List.sum_cons, Nat.cast_add, Nat.cast_one]
    linear_combination h

theorem spread_pushAll (xs : List ℚ) :
    (m.pushAll n xs).spread + (m.pushAll n xs).mean ^ 2 * (n + xs.length) =
      m.spread + m.mean ^ 2 * n + (xs.map (· ^ 2)).sum := by
  induction xs generalizing m n with
  | nil => simp [pushAll]
  | cons x xs ih =>
    have h := ih (m.push (n + 1) x) (n + 1)
    push_cast at h
    rw [spread_push] at h
    simp only [pushAll, List.length_cons, List.map_cons, List.sum_cons, Nat.cast_add, Nat.cast_one]
    linear_combination h

/-! ## The textbook statistics -/

theorem sum_sq_sub (xs : List ℚ) (c : ℚ) :
    (xs.map fun x => (x - c) ^ 2).sum = (xs.map (· ^ 2)).sum - 2 * c * xs.sum + c ^ 2 * xs.length := by
  induction xs with
  | nil => simp
  | cons x xs ih =>
    simp only [List.map_cons, List.sum_cons, ih, List.length_cons, Nat.cast_add, Nat.cast_one]
    ring

def unrounded (xs : List ℚ) : Moments ℚ := pushAll ⟨0, 0⟩ 0 xs

theorem mean_unrounded (xs : List ℚ) : (unrounded xs).mean * xs.length = xs.sum := by
  simpa [unrounded] using mean_pushAll ⟨0, 0⟩ 0 xs

theorem spread_unrounded (xs : List ℚ) :
    (unrounded xs).spread = (xs.map fun x => (x - (unrounded xs).mean) ^ 2).sum := by
  have hmean := mean_unrounded xs
  have hspread := spread_pushAll ⟨0, 0⟩ 0 xs
  simp only [Nat.cast_zero, zero_add, mul_zero] at hspread
  rw [sum_sq_sub]
  unfold unrounded at hmean ⊢
  linear_combination hspread - 2 * (pushAll ⟨0, 0⟩ 0 xs).mean * hmean

/-- Without rounding, the mean of `n` samples times `n` is their sum, whether it is kept alone or
with the spread, the spread is the sum of the squared deviations from the final mean, and the
variance is that sum divided by `n - 1`. -/
theorem textbook_statistics (xs : List ℚ) :
    runningMean 0 0 xs = (unrounded xs).mean ∧
      (unrounded xs).mean * xs.length = xs.sum ∧
      (unrounded xs).spread = (xs.map fun x => (x - (unrounded xs).mean) ^ 2).sum ∧
      (2 ≤ xs.length → (unrounded xs).variance xs.length =
        (xs.map fun x => (x - (unrounded xs).mean) ^ 2).sum / (xs.length - 1)) := by
  refine ⟨runningMean_eq ⟨0, 0⟩ 0 xs, mean_unrounded xs, spread_unrounded xs, ?_⟩
  intro h₂
  rw [variance, spread_unrounded, Nat.cast_sub (Nat.one_le_of_lt h₂), Nat.cast_one]

theorem textbook_statistics_of_eight :
    2 ≤ [2, 4, 4, 4, 5, 5, 7, 9].length ∧ (unrounded [2, 4, 4, 4, 5, 5, 7, 9]).mean = 5 ∧
      (unrounded [2, 4, 4, 4, 5, 5, 7, 9]).variance 8 = 32 / 7 := by
  obtain ⟨_, hmean, _, hvariance⟩ := textbook_statistics [2, 4, 4, 4, 5, 5, 7, 9]
  have hvariance := hvariance (by decide)
  have hfive : (unrounded [2, 4, 4, 4, 5, 5, 7, 9]).mean = 5 := by
    norm_num at hmean
    linarith
  rw [hfive] at hvariance
  norm_num at hvariance
  exact ⟨by decide, hfive, hvariance⟩

end Moments

end StreamStat
