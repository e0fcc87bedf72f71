import Mathlib.Algebra.Order.Ring.Rat
import Mathlib.Tactic.FieldSimp
import Mathlib.Tactic.Linarith
import Mathlib.Tactic.Ring
import StreamStat.Uniform.Basic

/-!
# The cumulative function is the integral of the density

On rationals nothing is rounded. There the density and the cumulative function, which are
computed separately, balance: between two points the cumulative function rises by the density
times the length of what the domain has between them.
-/

namespace StreamStat

namespace Arithmetic

@[simp] theorem zero_rat : (zero : ℚ) = 0 := rfl

@[simp] theorem one_rat : (one : ℚ) = 1 := rfl

@[simp] theorem sub_rat (x y : ℚ) : sub x y = .ok (x - y) := rfl

theorem div_rat {x y : ℚ} (h : y ≠ 0) : div x y = .ok (x / y) := if_neg h

@[simp] theorem lt_rat (x y : ℚ) : lt x y = .ok (decide (x < y)) := rfl

@[simp] theorem le_rat (x y : ℚ) : le x y = .ok (decide (x ≤ y)) := rfl

@[simp] theorem eq_rat (x y : ℚ) : eq x y = .ok (decide (x = y)) := rfl

@[simp] theorem isEndless_rat (x : ℚ) : isEndless x = .ok false := rfl

end Arithmetic

open Arithmetic

section
variable {a b : ℚ} (h : a < b)
include h

theorem checkedWidth_rat : checkedWidth a b = .ok (b - a) := by
  have hne : b - a ≠ 0 := (sub_pos.mpr h).ne'
  have hpos : ¬ b - a < 0 := not_lt_of_gt (sub_pos.mpr h)
  simp [checkedWidth, div_rat hne, hne, hpos, bind, Except.bind, pure, Except.pure]

theorem Density.ofBounds_rat : ofBounds a b = .ok ⟨a, b, 1 / (b - a)⟩ := by
  have hne : b - a ≠ 0 := (sub_pos.mpr h).ne'
  simp only [ofBounds, checkedWidth_rat h, one_rat, div_rat hne, bind, Except.bind]
  rfl

theorem Cumulative.ofBounds_rat : ofBounds a b = .ok ⟨a, b, b - a⟩ := by
  simp only [ofBounds, checkedWidth_rat h, bind, Except.bind]
  rfl

end

theorem Density.eval_rat (p : Density ℚ) (x : ℚ) :
    p.eval x = .ok (if p.lower ≤ x ∧ x ≤ p.upper then p.density else 0) := by
  by_cases hl : p.lower ≤ x <;> by_cases hu : x ≤ p.upper <;>
    simp [eval, hl, hu, bind, Except.bind, pure, Except.pure]

def nearestWithin (a b x : ℚ) : ℚ := max a (min x b)

/-- The three branches are one ramp, taken at the nearest point of the domain. -/
theorem Cumulative.eval_rat {a b : ℚ} (h : a < b) (x : ℚ) :
    eval ⟨a, b, b - a⟩ x = .ok ((nearestWithin a b x - a) / (b - a)) := by
  have hne : b - a ≠ 0 := (sub_pos.mpr h).ne'
  unfold eval nearestWithin
  rcases lt_or_ge x a with hx | hx
  · rw [min_eq_left (hx.trans h).le, max_eq_left hx.le, sub_self, zero_div]
    simp [hx, bind, Except.bind, pure, Except.pure]
  rcases lt_or_ge b x with hb | hb
  · rw [min_eq_right hb.le, max_eq_right h.le, div_self hne]
    simp [hb, not_lt.mpr hx, bind, Except.bind, pure, Except.pure]
  · rw [min_eq_left hb, max_eq_right hx]
    simp [not_lt.mpr hb, not_lt.mpr hx, div_rat hne, bind, Except.bind]

/-- From one point to a later one the nearest points move by what the domain has between. -/
theorem nearestWithin_sub {a b x y : ℚ} (h : a < b) (hxy : x ≤ y) :
    nearestWithin a b y - nearestWithin a b x = max 0 (min y b - max x a) := by
  unfold nearestWithin
  rcases le_total y a with hya | hya
  · rw [min_eq_left (hya.trans h.le), min_eq_left ((hxy.trans hya).trans h.le), max_eq_left hya,
      max_eq_left (hxy.trans hya), max_eq_right (hxy.trans hya), max_eq_left (by linarith), sub_self]
  rcases le_total b x with hbx | hbx
  · rw [min_eq_right hbx, min_eq_right (hbx.trans hxy), max_eq_right h.le, max_eq_left (h.le.trans hbx),
      max_eq_left (by linarith), sub_self]
  · have hlow : max x a ≤ min y b := le_min (max_le hxy hya) (max_le hbx h.le)
    rw [min_eq_left hbx, max_eq_right (le_min hya h.le), max_comm a x, max_eq_right (sub_nonneg.mpr hlow)]

/-- Exactly computed, the cumulative function of a domain rises from one point to a later one by
the density times the length of the domain between them, and the whole domain has mass one. -/
theorem rise_eq_mass {a b : ℚ} (h : a < b) :
    ∃ p c, ∃ F : ℚ → ℚ, Density.ofBounds a b = .ok p ∧ Cumulative.ofBounds a b = .ok c ∧
      (∀ x, p.eval x = .ok (if a ≤ x ∧ x ≤ b then p.density else 0)) ∧
      (∀ x, c.eval x = .ok (F x)) ∧
      (∀ x y, x ≤ y → F y - F x = p.density * max 0 (min y b - max x a)) ∧
      p.density * (b - a) = 1 := by
  have hne : b - a ≠ 0 := (sub_pos.mpr h).ne'
  refine ⟨_, _, fun x => (nearestWithin a b x - a) / (b - a), Density.ofBounds_rat h, Cumulative.ofBounds_rat h,
    Density.eval_rat _, Cumulative.eval_rat h, ?rise, one_div_mul_cancel hne⟩
  case rise =>
    intro x y hxy
    rw [← nearestWithin_sub h hxy]
    ring

/-- From a point below the domain to one inside of it. -/
theorem rise_of_third : ∃ c : Cumulative ℚ, Cumulative.ofBounds (1 / 3) 2 = .ok c ∧
    ∃ low high, c.eval 0 = .ok low ∧ c.eval 1 = .ok high ∧ high - low = 2 / 5 := by
  obtain ⟨p, c, F, hp, hc, _, hF, hrise, _⟩ := rise_eq_mass (by norm_num : (1 / 3 : ℚ) < 2)
  rw [Density.ofBounds_rat (by norm_num)] at hp
  obtain rfl := (Except.ok.inj hp).symm
  refine ⟨c, hc, F 0, F 1, hF 0, hF 1, ?_⟩
  rw [hrise 0 1 (by norm_num)]
  norm_num

end StreamStat
