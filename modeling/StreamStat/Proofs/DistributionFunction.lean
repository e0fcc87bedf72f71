import StreamStat.Proofs.UniformArrays

/-!
# The cumulative function is a distribution function

Rounding does not spoil the cumulative function of two doubles. Inside of the domain the ramp
is not cut off, and still the function stays between zero and one, never falls, and is exact at
and beyond both bounds: everywhere it is level with the ramp cut off (`level_step`).
-/

namespace StreamStat

open Double Value

namespace Double

theorem level_of_alike {x y : Double} (h : x.alike y = true) (hy : y.isNaN = false) :
    x.isNaN = false ∧ x.level = y.level := by
  rw [alike, hy, Bool.and_false, Bool.false_or] at h
  obtain ⟨hx, _, hlevel⟩ := level_of_eq h
  exact ⟨hx, hlevel⟩

structure Distributes (F : Double → Double) (l u : Double) : Prop where
  nonneg : ∀ x, x.isNaN = false → 0 ≤ F x
  le_one : ∀ x, x.isNaN = false → F x ≤ 1
  mono : ∀ x y, x ≤ y → F x ≤ F y
  eq_zero : ∀ x, x ≤ l → (F x).eq 0 = true
  eq_one : ∀ x, u ≤ x → (F x).eq 1 = true

end Double

namespace Cumulative

section
variable {l u : Double} (h : Spans l u)
include h

theorem level_step {x : Double} (hx : x.isNaN = false) :
    (step l u x).isNaN = false ∧
      (step l u x).level = max 0 (min (ramp l (u - l) x).level unitsPerOne) := by
  have hr := isNaN_ramp h.rises hx
  obtain ⟨hn, hlevel⟩ := level_of_alike (alike_step h x) (isNaN_clip hr)
  exact ⟨hn, hlevel.trans (level_clip hr)⟩

theorem distributes_step : Distributes (step l u) l u := by
  have hone : (0 : Int) < unitsPerOne := by exact_mod_cast unitsPerOne_pos
  have hlow := level_ramp_lower h.rises
  have hhigh := level_ramp_upper h
  refine ⟨?nonneg, ?le_one, ?mono, ?eq_zero, ?eq_one⟩
  case nonneg =>
    intro x hx
    obtain ⟨hn, hlevel⟩ := level_step h hx
    refine (le_iff isNaN_zero hn).mpr ?_
    rw [level_zero]
    omega
  case le_one =>
    intro x hx
    obtain ⟨hn, hlevel⟩ := level_step h hx
    refine (le_iff hn isNaN_one).mpr ?_
    rw [level_one]
    omega
  case mono =>
    intro x y hxy
    obtain ⟨hx, hy⟩ := isNaN_of_le hxy
    obtain ⟨hnx, hlx⟩ := level_step h hx
    obtain ⟨hny, hly⟩ := level_step h hy
    have := ramp_mono h.rises hx hy ((le_iff hx hy).mp hxy)
    refine (le_iff hnx hny).mpr ?_
    omega
  case eq_zero =>
    intro x hxl
    obtain ⟨hx, hl⟩ := isNaN_of_le hxl
    obtain ⟨hn, hlevel⟩ := level_step h hx
    have := ramp_mono h.rises hx hl ((le_iff hx hl).mp hxl)
    refine (eq_zero_iff hn).mpr ?_
    omega
  case eq_one =>
    intro x hux
    obtain ⟨hu, hx⟩ := isNaN_of_le hux
    obtain ⟨hn, hlevel⟩ := level_step h hx
    have := ramp_mono h.rises hu hx ((le_iff hu hx).mp hux)
    refine (eq_iff hn isNaN_one).mpr ?_
    rw [level_one]
    omega

end

/-- At a single point the cumulative function of two doubles takes the point as a double. -/
theorem apply_kept {l u : Double} {i j : Nat} {c : Cumulative Value}
    (hc : ofBounds (number (.float l) i) (number (.float u) j) = .ok c) (a b e : Nat) {v : Value} {x : Double}
    (hv : v.toDouble = .ok x) : ∃ m, (c.kept a b e).apply v = .ok (number (.float (step l u x)) m) := by
  obtain ⟨h, rfl⟩ := ofBounds_float.mp hc
  obtain ⟨i', j', k', hkept⟩ := kept_number (.float l) (.float u) (.float (u - l)) i j 0 a b e
  rw [ofNumber, hkept, ← stepBetween_float]
  exact apply_of_isReal i' j' k' rfl rfl rfl rfl rfl (ne_true_of_eq_false h.ne_zero) hv

end Cumulative

namespace UniformDistribution

/-- A domain is accepted if the doubles of its bounds span one. -/
theorem ofRange_of_spans {domain : Range} {l u : Double} {i j : Nat}
    (hl : domain.min.toFloat = .ok (number (.float l) i)) (hu : domain.max.toFloat = .ok (number (.float u) j))
    (h : Spans l u) :
    ofRange domain = .ok ⟨domain,
      ⟨number (.float l) i, number (.float u) j, ofNumber (.float (1 / (u - l)))⟩,
      ⟨number (.float l) i, number (.float u) j, ofNumber (.float (u - l))⟩⟩ := by
  have hp := (Density.ofBounds_float (i := i) (j := j)).mpr ⟨h, rfl⟩
  have hc := (Cumulative.ofBounds_float (i := i) (j := j)).mpr ⟨h, rfl⟩
  simp only [ofRange, onDomain, hl, hu, hp, hc, bind, Except.bind]
  rfl

/-- Whatever the kinds of the bounds that a distribution has been made of, its cumulative
function is a distribution function on their doubles, at points of every kind. -/
theorem cdf_distributes {domain : Range} {d : UniformDistribution} (h : ofRange domain = .ok d) (mark : Nat) :
    ∃ l u F, domain.min.toDouble = .ok l ∧ domain.max.toDouble = .ok u ∧
      (∀ v x, v.toDouble = .ok x → ∃ i, (d.stamp mark).cdf.apply v = .ok (number (.float (F x)) i)) ∧
      Distributes F l u := by
  obtain ⟨lower, hlower, h⟩ := bind_ok h
  obtain ⟨upper, hupper, h⟩ := bind_ok h
  obtain ⟨_, hc⟩ := onDomain_eq h
  obtain ⟨l, i, hl, rfl⟩ := toFloat_eq hlower
  obtain ⟨u, j, hu, rfl⟩ := toFloat_eq hupper
  exact ⟨l, u, Cumulative.step l u, hl, hu,
    fun v x hv => Cumulative.apply_kept hc mark (mark + 1) (mark + 3) hv,
    Cumulative.distributes_step (Cumulative.ofBounds_float.mp hc).1⟩

def fromThird : Range := ⟨ofNumber (.fraction (1 / 3)), ofInt 1, rfl, rfl⟩

theorem cdf_distributes_of_fromThird :
    ∃ d, ofRange fromThird = .ok d ∧
      ∃ l u F, fromThird.min.toDouble = .ok l ∧ fromThird.max.toDouble = .ok u ∧
        (∀ v x, v.toDouble = .ok x → ∃ i, (d.stamp 2).cdf.apply v = .ok (number (.float (F x)) i)) ∧
        Distributes F l u := by
  have hspans : Spans (.ofRat (1 / 3)) (.ofInt 1) := ⟨by decide +kernel, by decide +kernel, by decide +kernel⟩
  have hl : fromThird.min.toFloat = .ok (ofNumber (.float (.ofRat (1 / 3)))) := by
    show ((number (.fraction (1 / 3)) 0).toDouble.map fun x => ofNumber (.float x)) = _
    rw [toDouble_fraction (by decide +kernel)]
    rfl
  have hu : fromThird.max.toFloat = .ok (ofNumber (.float (.ofInt 1))) := by
    show ((number (.int 1) 0).toDouble.map fun x => ofNumber (.float x)) = _
    rw [toDouble_int (by decide +kernel)]
    rfl
  have hd := ofRange_of_spans hl hu hspans
  exact ⟨_, hd, cdf_distributes hd 2⟩

end UniformDistribution

end StreamStat
