import StreamStat.Proofs.DoubleLevel
import StreamStat.Uniform.Grid

/-!
# The ramp

On grids the cumulative function is the ramp, cut off at zero and one; point by point it is
constant outside of the domain. Subtraction and division keep the order, and the ramp is
zero at the lower bound and one at the upper bound, so that the cut changes nothing inside.
-/

namespace StreamStat

namespace Double

def alike (x y : Double) : Bool := (x.isNaN && y.isNaN) || x.eq y

theorem alike_of_level {x y : Double} (hx : x.isNaN = false) (hy : y.isNaN = false) (h : x.level = y.level) :
    x.alike y = true := by
  rw [alike, (eq_iff hx hy).mpr h, Bool.or_true]

theorem alike_self (x : Double) : x.alike x = true := by
  cases h : x.isNaN with
  | false => exact alike_of_level h h rfl
  | true => rw [alike, h]; rfl

structure Spans (l u : Double) : Prop where
  isFinite : (u - l).isFinite = true
  pos : 0 < (u - l).level
  wide : (1 / (u - l)).isFinite = true

structure Rises (l d : Double) : Prop where
  lower : l.isFinite = true
  divisor : d.isFinite = true
  pos : 0 < d.level

theorem Spans.rises {l u : Double} (h : Spans l u) : Rises l (u - l) :=
  ⟨(isFinite_of_sub h.isFinite).2, h.isFinite, h.pos⟩

theorem Spans.ne_zero {l u : Double} (h : Spans l u) : (u - l).eq 0 = false := by
  have := mt (eq_zero_iff (isNaN_of_isFinite h.isFinite)).mp (ne_of_gt h.pos)
  rwa [Bool.not_eq_true] at this

end Double

namespace Cumulative

open Double

/-! ## The cut -/

theorem clip_nan : clip nan = nan := by
  have hlow : ¬ nan < 0 := ne_true_of_eq_false (nan_lt 0)
  have hhigh : ¬ 1 < nan := ne_true_of_eq_false (lt_nan 1)
  rw [clip, if_neg hlow, if_neg hhigh]

theorem isNaN_clip {x : Double} (hx : x.isNaN = false) : (clip x).isNaN = false := by
  unfold clip
  split
  · exact isNaN_zero
  · split
    · exact isNaN_one
    · exact hx

theorem level_clip {x : Double} (hx : x.isNaN = false) : (clip x).level = max 0 (min x.level unitsPerOne) := by
  have hu : (0 : Int) < unitsPerOne := by exact_mod_cast unitsPerOne_pos
  have hlow : x < 0 ↔ x.level < 0 := lt_zero_iff hx
  have hhigh : 1 < x ↔ unitsPerOne < x.level := by
    have h := lt_iff isNaN_one hx
    rwa [level_one] at h
  unfold clip
  split
  · rename_i h
    rw [level_zero]
    have := hlow.mp h
    omega
  · rename_i h
    have := mt hlow.mpr h
    split
    · rename_i h
      rw [level_one]
      have := hhigh.mp h
      omega
    · rename_i h
      have := mt hhigh.mpr h
      omega

theorem alike_cut {below above : Bool} {y : Double} (hy : y.isNaN = false) (hbelow : below = true → y.level ≤ 0)
    (habove : below = false → above = true → unitsPerOne ≤ y.level)
    (hbetween : below = false → above = false → 0 ≤ y.level ∧ y.level ≤ unitsPerOne) :
    (if below then 0 else if above then 1 else y).alike (clip y) = true := by
  have hu : (0 : Int) < unitsPerOne := by exact_mod_cast unitsPerOne_pos
  have hc := level_clip hy
  cases below with
  | true =>
    have := hbelow rfl
    refine alike_of_level isNaN_zero (isNaN_clip hy) ?_
    rw [if_pos rfl, level_zero]
    omega
  | false =>
    cases above with
    | true =>
      have := habove rfl rfl
      refine alike_of_level isNaN_one (isNaN_clip hy) ?_
      rw [if_neg Bool.false_ne_true, if_pos rfl, level_one]
      omega
    | false =>
      have := hbetween rfl rfl
      refine alike_of_level hy (isNaN_clip hy) ?_
      rw [if_neg Bool.false_ne_true, if_neg Bool.false_ne_true]
      omega

/-! ## Order of the ramp -/

/-- The cumulative function at a point outside of grids, on bounds that are not rounded. -/
def stepBetween (a b : Number) (l d x : Double) : Double :=
  if Number.related .lt (.float x) a then 0 else if Number.related .lt b (.float x) then 1 else ramp l d x

def step (l u x : Double) : Double := if x.lt l then 0 else if u.lt x then 1 else ramp l (u - l) x

section
variable {l d : Double} (h : Rises l d)
include h

theorem isNaN_ramp {x : Double} (hx : x.isNaN = false) : (ramp l d x).isNaN = false :=
  isNaN_div (isNaN_sub hx h.lower) h.divisor h.pos

theorem ramp_mono {x y : Double} (hx : x.isNaN = false) (hy : y.isNaN = false) (hxy : x.level ≤ y.level) :
    (ramp l d x).level ≤ (ramp l d y).level :=
  div_mono (isNaN_sub hx h.lower) (isNaN_sub hy h.lower) h.divisor h.pos (sub_mono hx hy h.lower hxy)

theorem level_ramp_lower : (ramp l d l).level = 0 := by
  have hz := isNaN_sub (isNaN_of_isFinite h.lower) h.lower
  have heq : (l - l).level = (0 : Double).level := by rw [level_sub_self h.lower, level_zero]
  have hle := div_mono hz isNaN_zero h.divisor h.pos (le_of_eq heq)
  have hge := div_mono isNaN_zero hz h.divisor h.pos (ge_of_eq heq)
  rw [level_zero_div h.divisor h.pos] at hle hge
  exact le_antisymm hle hge

end

section
variable {l u : Double} (h : Spans l u)
include h

theorem level_ramp_upper : (ramp l (u - l) u).level = unitsPerOne := level_div_self h.isFinite h.pos

/-- The ramp that is cut off agrees with the function that is constant outside. -/
theorem alike_step (x : Double) : (step l u x).alike (clip (ramp l (u - l) x)) = true := by
  cases hx : x.isNaN with
  | true =>
    cases x with
    | nan =>
      have hstep : step l u nan = nan := by
        unfold step
        rw [nan_lt, lt_nan]
        rfl
      have hclip : clip (ramp l (u - l) nan) = nan := clip_nan
      rw [hstep, hclip]
      rfl
    | _ => cases hx
  | false =>
    obtain ⟨hu, hl⟩ := isFinite_of_sub h.isFinite
    have hnl := isNaN_of_isFinite hl
    have hnu := isNaN_of_isFinite hu
    have hlow := level_ramp_lower h.rises
    have hhigh := level_ramp_upper h
    have hxl : x.lt l = false → l.level ≤ x.level := by
      rw [← Bool.not_eq_true, lt_iff hx hnl]
      exact not_lt.mp
    have hxu : u.lt x = false → x.level ≤ u.level := by
      rw [← Bool.not_eq_true, lt_iff hnu hx]
      exact not_lt.mp
    refine alike_cut (isNaN_ramp h.rises hx) ?_ ?_ ?_
    · intro hbelow
      have := ramp_mono h.rises hx hnl (le_of_lt ((lt_iff hx hnl).mp hbelow))
      omega
    · intro _ habove
      have := ramp_mono h.rises hnu hx (le_of_lt ((lt_iff hnu hx).mp habove))
      omega
    · intro hbelow habove
      have := ramp_mono h.rises hnl hx (hxl hbelow)
      have := ramp_mono h.rises hx hnu (hxu habove)
      omega

end

end Cumulative

end StreamStat
