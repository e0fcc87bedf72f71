import StreamStat.Proofs.DomainValidation
import StreamStat.Proofs.Equality

/-!
# The support of the density is the domain

Three tests tell whether a point lies in the domain of a distribution: two on the bounds as they
are given, and the one of the density on the doubles that it keeps. They agree on numbers of all
kinds, and rounding takes no point out of the domain: a point that is not in it is beyond one of
the bounds exactly, and there the cumulative function is zero or one.
-/

namespace StreamStat

open Double Value

/-! ## The tests of a range -/

namespace Range

theorem between_iff {l u x : Double} (hl : l.isNaN = false) (hu : u.isNaN = false) (hx : x.isNaN = false) :
    between l u x = true ↔ l.level ≤ x.level ∧ x.level ≤ u.level := by
  rw [← le_iff hl hx, ← le_iff hx hu]
  simp [between, LE.le]

variable {r : Range} {l u x : Double} {n : Number} (hl : r.min.toDouble = .ok l) (hu : r.max.toDouble = .ok u)
  (hx : n.toDouble = .ok x) (k : Nat)
include hl hu hx

theorem contains_number : r.contains (number n k) = .ok ⟨[], [between l u x]⟩ := by
  have hpoints : (number n k).toPoints = .ok ⟨[], [x]⟩ := by
    have hcell : (number n k).cellDouble = .ok x := hx
    show (List.mapM cellDouble [number n k] >>= fun cells => pure (Points.mk [] cells)) = _
    simp only [List.mapM_cons, List.mapM_nil, hcell]
    rfl
  simp only [contains, hpoints, hl, hu, bind, Except.bind]
  rfl

theorem member_number : r.member (number n k) = .ok (between l u x) := by
  have hshape : (number n k).shape = .ok [] := rfl
  simp [member, hshape, contains_number hl hu hx, bind, Except.bind, pure, Except.pure]

end Range

/-! ## The test of the density -/

namespace Density

theorem isInside_eq (l u x : Double) : isInside l u x = Range.between l u x := by
  unfold isInside Range.between
  rw [Number.related_le_float, Number.related_le_float]
  by_cases hl : l.le x = true <;> by_cases hu : x.le u = true <;> simp [LE.le, hl, hu]

theorem apply_kept {l u : Double} {i j : Nat} {p : Density Value}
    (hp : ofBounds (number (.float l) i) (number (.float u) j) = .ok p) (a b e : Nat) {v : Value} {x : Double}
    (hv : v.toDouble = .ok x) :
    ∃ m, (p.kept a b e).apply v = .ok (number (.float (if Range.between l u x then 1 / (u - l) else 0)) m) := by
  obtain ⟨h, rfl⟩ := ofBounds_float.mp hp
  obtain ⟨i', j', k', hkept⟩ := kept_number (.float l) (.float u) (.float (1 / (u - l))) i j 0 a b e
  rw [ofNumber, hkept, ← isInside_eq]
  exact apply_of_isReal (a := .float l) (b := .float u) (1 / (u - l)) i' j' k' rfl rfl hv

end Density

/-- A finite double is unequal to the number zero unless it is at the level of zero. -/
theorem compare_ne_zero (o : ObjectView) {y : Double} (hy : y.isFinite = true) (i : Nat) :
    (compare o .ne (number (.float y) i) (ofInt 0) >>= truth) = .ok (decide (y.level ≠ 0)) := by
  have hzero : (Double.ofInt 0).isFinite = true := by decide +kernel
  have hne := (Number.related_of_level hzero (isNaN_of_isFinite hy) .ne).1
  rw [Number.exactLevel, Int.zero_mul] at hne
  exact (compare_of_isReal o rfl rfl i 0 .ne).trans (congrArg Except.ok hne)

/-- A height is either the density or zero, and both comparisons tell which. -/
theorem height_tests (o : ObjectView) {e : Double} (he : e.isFinite = true) (hpos : 0 < e.level) (inside : Bool)
    (m k : Nat) :
    Value.equal o (number (.float (if inside then e else 0)) m) (number (.float e) k) = .ok inside ∧
      (compare o .ne (number (.float (if inside then e else 0)) m) (Value.ofInt 0) >>= truth) = .ok inside := by
  have hn := isNaN_of_isFinite he
  have hzero : (0 : Double).isFinite = true := isFinite_of_level_eq_zero isNaN_zero level_zero
  rw [equal_float]
  cases inside with
  | true =>
    rw [if_pos rfl, Double.eq_self, hn, compare_ne_zero o he, decide_eq_true (ne_of_gt hpos)]
    exact ⟨rfl, rfl⟩
  | false =>
    have hne : (0 : Double).eq e = false := by
      rw [← Bool.not_eq_true, eq_iff isNaN_zero hn, level_zero]
      omega
    rw [if_neg Bool.false_ne_true, hne, compare_ne_zero o hzero, level_zero]
    exact ⟨rfl, rfl⟩

theorem Cumulative.step_below {l u x : Double} (h : x.lt l = true) : step l u x = 0 := if_pos h

theorem Cumulative.step_above {l u x : Double} (hl : l.isNaN = false) (hu : u.isNaN = false) (hx : x.isNaN = false)
    (hlu : l.level ≤ u.level) (h : u.lt x = true) : step l u x = 1 := by
  have hlt := (lt_iff hu hx).mp h
  have hnot : ¬ x.lt l = true := by
    rw [lt_iff hx hl]
    omega
  unfold step
  rw [if_neg hnot, if_pos h]

namespace UniformDistribution

/-- For a point and bounds of any kinds: the two tests of the domain, equality with the density
and being different from zero have one answer. It is yes for every point that is between the
bounds exactly, and where it is no the point is beyond a bound exactly and the cumulative
function is constant there. -/
theorem support_is_domain {a b n : Number} {i j : Nat} {d : UniformDistribution}
    (hd : ofBounds (number a i) (number b j) = .ok d) {x : Double} (hx : n.toDouble = .ok x) (k mark : Nat)
    (o : ObjectView) :
    ∃ inside y,
      d.domain.contains (number n k) = .ok ⟨[], [inside]⟩ ∧ d.domain.member (number n k) = .ok inside ∧
      (d.stamp mark).pdf.apply (number n k) = .ok y ∧
      Value.equal o y (d.stamp mark).pdf.density = .ok inside ∧
      (Value.compare o .ne y (Value.ofInt 0) >>= truth) = .ok inside ∧
      (Number.related .le a n = true → Number.related .le n b = true → inside = true) ∧
      (inside = false → x.isNaN = false →
        (Number.related .lt n a = true ∧ ∃ m, (d.stamp mark).cdf.apply (number n k) = .ok (number (.float 0) m)) ∨
        (Number.related .lt b n = true ∧ ∃ m, (d.stamp mark).cdf.apply (number n k) = .ok (number (.float 1) m))) := by
  obtain ⟨l, u, i', j', hl, hu, hs, rfl⟩ := ofBounds_number_ok hd
  obtain ⟨hfu, hfl⟩ := isFinite_of_sub hs.isFinite
  have hnl := isNaN_of_isFinite hfl
  have hnu := isNaN_of_isFinite hfu
  have hlu := level_lt_of_spans hs
  have hp := (Density.ofBounds_float (i := i') (j := j')).mpr ⟨hs, rfl⟩
  have hc := (Cumulative.ofBounds_float (i := i') (j := j')).mpr ⟨hs, rfl⟩
  obtain ⟨m, hm⟩ := Density.apply_kept hp mark (mark + 1) (mark + 2) (v := number n k) hx
  obtain ⟨m', hm'⟩ := Cumulative.apply_kept hc mark (mark + 1) (mark + 3) (v := number n k) hx
  obtain ⟨k', hk⟩ := stamp_number (.float (1 / (u - l))) 0 (mark + 2)
  obtain ⟨hequal, hunequal⟩ := height_tests o hs.wide (reciprocal_pos hs.isFinite hs.pos) (Range.between l u x) m k'
  rw [← hk] at hequal
  let r : Range := ⟨number a i, number b j, rfl, rfl⟩
  refine ⟨Range.between l u x, _, Range.contains_number (r := r) hl hu hx k, Range.member_number (r := r) hl hu hx k,
    hm, hequal, hunequal, ?inside, ?outside⟩
  case inside =>
    intro han hnb
    obtain ⟨_, hnx, hlx⟩ := Number.toDouble_le hl hx han
    obtain ⟨_, _, hxu⟩ := Number.toDouble_le hx hu hnb
    exact (Range.between_iff hnl hnu hnx).mpr ⟨hlx, hxu⟩
  case outside =>
    intro hout hnx
    have hbeyond : x.level < l.level ∨ u.level < x.level := by
      by_contra hin
      have hbetween := (Range.between_iff hnl hnu hnx).mpr ⟨by omega, by omega⟩
      rw [hout] at hbetween
      cases hbetween
    rcases hbeyond with hlow | hhigh
    · rw [Cumulative.step_below ((lt_iff hnx hnl).mpr hlow)] at hm'
      exact .inl ⟨Number.related_lt_of_toDouble hx hl hnx hnl hlow, m', hm'⟩
    · rw [Cumulative.step_above hnl hnu hnx hlu.le ((lt_iff hnu hnx).mpr hhigh)] at hm'
      exact .inr ⟨Number.related_lt_of_toDouble hu hx hnu hnx hhigh, m', hm'⟩

/-- A bound that rounds down is in the domain as it is given. -/
theorem support_of_thirdToHalf :
    ∃ d y, ofBounds (number thirdToHalf.1 2) (number thirdToHalf.2 3) = .ok d ∧
      d.domain.contains (number thirdToHalf.1 4) = .ok ⟨[], [true]⟩ ∧
      (d.stamp 5).pdf.apply (number thirdToHalf.1 4) = .ok y ∧
      Value.equal .none y (d.stamp 5).pdf.density = .ok true := by
  obtain ⟨d, hd⟩ := ofBounds_thirdToHalf
  have hx : thirdToHalf.1.toDouble = .ok (.ofRat (1 / 3)) := by decide +kernel
  obtain ⟨inside, y, hcontains, _, happly, hequal, _, hinside, _⟩ := support_is_domain hd hx 4 5 .none
  have hin := hinside (by decide +kernel) (by decide +kernel)
  rw [hin] at hcontains hequal
  exact ⟨d, y, hd, hcontains, happly, hequal⟩

end UniformDistribution

end StreamStat
