import StreamStat.Proofs.DoubleSums
import StreamStat.Proofs.FloatNumbers

/-!
# The doubles of numbers

The double of a number depends on the exact value of the number only, whatever its kind, and
never reverses two exact values: exact values have levels too (`Extended.level`), the double is
at the level of the value that it is made of, and levels keep the order. Beside doubles integers
are compared by the levels that they would have if they were not rounded.
-/

namespace StreamStat

/-! ## Rounding exact values -/

namespace Double

theorem nearest_bounds (q : ℚ) : -(limit : Int) ≤ nearest q ∧ nearest q ≤ limit := by
  have h : magnitude q.num.natAbs q.den ≤ limit := Nat.min_le_right _ _
  unfold nearest
  split <;> omega

theorem level_ofRatio_eq (negative : Bool) (num : Nat) {den : Nat} (hd : 0 < den) :
    (ofRatio negative num den).level = nearest (if negative then -((num : ℚ) / den) else (num : ℚ) / den) := by
  rw [level_ofRatio, ← nearest_div num hd]
  cases negative with
  | false => rfl
  | true => simp only [if_true, nearest_neg]

theorem nearest_limit : nearest limit = limit := by
  have hq := nearest_int (limit : Int)
  have hround : BinaryFormat.double.round limit 1 = limit := BinaryFormat.double.round_limit (by decide) (by decide)
  rwa [if_neg (by omega), Int.natAbs_natCast, magnitude, hround, Nat.min_self, Int.cast_natCast] at hq

theorem isNaN_ofRat (r : ℚ) : (ofRat r).isNaN = false := isNaN_ofRatio _ _ _

theorem level_ofRat (r : ℚ) : (ofRat r).level = nearest (r * unitsPerOne) := by
  unfold ofRat
  rw [level_ofRatio_eq _ _ r.den_pos]
  congr 1
  generalize unitsPerOne = k
  have hd : (r.den : ℚ) ≠ 0 := Nat.cast_ne_zero.mpr r.den_nz
  by_cases h : r < 0
  · have hn := cast_natAbs_num (q := -r) (by linarith)
    rw [Rat.neg_num, Rat.neg_den, Int.natAbs_neg] at hn
    simp only [h, decide_true, if_true, Nat.cast_mul, hn]
    field_simp
  · simp only [h, decide_false, Bool.false_eq_true, if_false, Nat.cast_mul, cast_natAbs_num (not_lt.mp h)]
    field_simp

theorem ofInt_eq (i : Int) : ofInt i = ofRat i := by
  simp only [ofInt, ofRat, Rat.num_intCast, Rat.den_intCast, Int.cast_lt_zero]

end Double

/-! ## Levels of exact values -/

namespace Extended

def level : Extended → Int
  | negInf => -Double.limit
  | finite r => Double.nearest (r * Double.unitsPerOne)
  | posInf => Double.limit

theorem level_mono {x y : Extended} (h : x.le y = true) : x.level ≤ y.level := by
  have hpos := Double.limit_pos
  unfold le at h
  cases x with
  | negInf =>
    cases y with
    | negInf => exact Int.le_refl _
    | finite r => exact (Double.nearest_bounds _).1
    | posInf => simp only [level]; omega
  | finite r =>
    cases y with
    | negInf => cases h
    | finite q =>
      simp only [lt, Bool.not_eq_true', decide_eq_false_iff_not, not_lt] at h
      exact Double.nearest_mono (mul_le_mul_of_nonneg_right h (Nat.cast_nonneg _))
    | posInf => exact (Double.nearest_bounds _).2
  | posInf =>
    cases y with
    | posInf => exact Int.le_refl _
    | _ => cases h

end Extended

theorem Double.level_of_extended? {x : Double} {e : Extended} (h : x.extended? = some e) :
    x.isNaN = false ∧ x.level = e.level := by
  cases x with
  | nan => cases h
  | inf negative =>
    cases h
    cases negative <;> exact ⟨rfl, rfl⟩
  | finite negative m =>
    rw [extended?_finite] at h
    cases h
    have hu : (unitsPerOne : ℚ) ≠ 0 := Nat.cast_ne_zero.mpr (ne_of_gt unitsPerOne_pos)
    simp only [Extended.level, div_mul_cancel₀ _ hu]
    exact ⟨rfl, (nearest_level (x := finite negative m) rfl).symm⟩

theorem Decimal.level_of_extended? {d : Decimal} {e : Extended} (h : d.extended? = some e) :
    d.toDouble.isNaN = false ∧ d.toDouble.level = e.level := by
  cases d with
  | nan negative => cases h
  | inf negative =>
    cases h
    cases negative <;> exact ⟨rfl, rfl⟩
  | finite negative digits exponent =>
    cases h
    refine ⟨Double.isNaN_ofRatio _ _ _, ?_⟩
    unfold toDouble
    rw [Double.level_ofRatio_eq _ _ (Nat.pow_pos (by decide))]
    simp only [Extended.level]
    congr 1
    unfold scale Text.Scientific.toRat
    dsimp only
    generalize Double.unitsPerOne = k
    by_cases he : 0 ≤ exponent
    · have hzero : (-exponent).toNat = 0 := by omega
      rw [if_pos he, hzero]
      cases negative <;> simp
    · have hzero : exponent.toNat = 0 := by omega
      rw [if_neg he, hzero, Rat.mkRat_eq_div]
      cases negative <;> simp [div_mul_eq_mul_div]

/-! ## Numbers as doubles -/

namespace Number

theorem related_le {m n : Number} :
    related .le m n = true ↔ ∃ x y, m.extended? = some x ∧ n.extended? = some y ∧ x.le y = true := by
  unfold related
  cases m.extended? with
  | none => simp
  | some x => cases n.extended? <;> simp [Relation.ofExtended]

theorem related_le_of_lt {m n : Number} (h : related .lt m n = true) : related .le m n = true := by
  obtain ⟨x, y, hx, hy, hlt⟩ := related_lt.mp h
  refine related_le.mpr ⟨x, y, hx, hy, ?_⟩
  rw [Extended.le, Extended.lt_asymm hlt]
  rfl

theorem bounded_eq_ok {x y : Double} (h : x.bounded = .ok y) : y = x := by
  unfold Double.bounded at h
  split at h
  · cases h
  · exact (Except.ok.inj h).symm

variable {n : Number} {x : Double}

theorem level_toDouble (h : n.toDouble = .ok x) {e : Extended} (he : n.extended? = some e) :
    x.isNaN = false ∧ x.level = e.level := by
  have ofRat (r : ℚ) : (Double.ofRat r).isNaN = false ∧ (Double.ofRat r).level = (Extended.finite r).level :=
    ⟨Double.isNaN_ofRat r, Double.level_ofRat r⟩
  have ofInt (i : Int) : (Double.ofInt i).isNaN = false ∧ (Double.ofInt i).level = (Extended.finite i).level := by
    rw [Double.ofInt_eq]
    exact ofRat i
  cases n with
  | bool b | machineBool b =>
    rw [← Except.ok.inj h, ← Option.some.inj he]
    exact ofInt _
  | int i =>
    rw [bounded_eq_ok h, ← Option.some.inj he]
    exact ofInt i
  | machineInt w i =>
    rw [← Except.ok.inj h, ← Option.some.inj he]
    exact ofInt i
  | fraction r | machineFraction w num den =>
    rw [bounded_eq_ok h, ← Option.some.inj he]
    exact ofRat _
  | float y | machineFloat p y =>
    rw [← Except.ok.inj h]
    exact Double.level_of_extended? he
  | decimal d =>
    rw [← Except.ok.inj h]
    exact Decimal.level_of_extended? he

theorem isNaN_toDouble (h : n.toDouble = .ok x) (he : n.extended? = none) : x.isNaN = true := by
  cases n with
  | float y | machineFloat p y =>
    rw [← Except.ok.inj h]
    cases y <;> first | rfl | cases he
  | decimal d =>
    rw [← Except.ok.inj h]
    cases d with
    | nan negative => rfl
    | _ => cases he
  | _ => cases he

/-- Only what is too large has no double. -/
theorem toDouble_error {e : Fault} (h : n.toDouble = .error e) : e = .overflow := by
  have bounded (y : Double) (h : y.bounded = .error e) : e = .overflow := by
    unfold Double.bounded at h
    split at h
    · exact (Except.error.inj h).symm
    · cases h
  cases n with
  | int _ | fraction _ | machineFraction _ _ _ => exact bounded _ h
  | _ => cases h

theorem extended?_of_toDouble (h : n.toDouble = .ok x) (hx : x.isNaN = false) : ∃ e, n.extended? = some e := by
  cases he : n.extended? with
  | none => rw [isNaN_toDouble h he] at hx; cases hx
  | some e => exact ⟨e, rfl⟩

section
variable {m : Number} {y : Double} (hn : n.toDouble = .ok x) (hm : m.toDouble = .ok y)
include hn hm

theorem toDouble_le (h : related .le n m = true) : x.isNaN = false ∧ y.isNaN = false ∧ x.level ≤ y.level := by
  obtain ⟨e, f, he, hf, hef⟩ := related_le.mp h
  obtain ⟨hx, hlx⟩ := level_toDouble hn he
  obtain ⟨hy, hly⟩ := level_toDouble hm hf
  refine ⟨hx, hy, ?_⟩
  rw [hlx, hly]
  exact Extended.level_mono hef

/-- What is less as a double is less exactly. -/
theorem related_lt_of_toDouble (hx : x.isNaN = false) (hy : y.isNaN = false) (h : x.level < y.level) :
    related .lt n m = true := by
  obtain ⟨e, he⟩ := extended?_of_toDouble hn hx
  obtain ⟨f, hf⟩ := extended?_of_toDouble hm hy
  refine related_lt.mpr ⟨e, f, he, hf, ?_⟩
  by_contra hlt
  have hfe : f.le e = true := by rw [Extended.le, Bool.not_eq_true']; exact Bool.not_eq_true _ |>.mp hlt
  have := toDouble_le hm hn (related_le.mpr ⟨f, e, hf, he, hfe⟩)
  omega

end

end Number

/-! ## Doubles beside integers -/

open Double

namespace Number

def exactLevel (m : Int) : Int := m * unitsPerOne

theorem level_ofInt (m : Int) : (Double.ofInt m).level = nearest (exactLevel m) := by
  rw [Double.ofInt_eq, level_ofRat, exactLevel]
  push_cast
  rfl

theorem exactLevel_sub (m M : Int) : exactLevel (M - m) = exactLevel M - exactLevel m := Int.sub_mul _ _ _

theorem extended?_int (m : Int) : (int m).extended? = some (.finite (exactLevel m / unitsPerOne)) := by
  have hu : (unitsPerOne : ℚ) ≠ 0 := Nat.cast_ne_zero.mpr unitsPerOne_pos.ne'
  rw [exactLevel, Int.cast_mul, Int.cast_natCast, mul_div_cancel_right₀ _ hu]
  rfl

section
variable {m : Int} {x : Double} (hm : (Double.ofInt m).isFinite = true)
include hm

theorem exactLevel_bounds : -(limit : Int) < exactLevel m ∧ exactLevel m < limit := by
  have hn : (Double.ofInt m).isNaN = false := isNaN_of_isFinite hm
  have hlevel := (isFinite_iff hn).mp hm
  rw [level_ofInt] at hlevel
  have hlimit : nearest ((limit : Int) : ℚ) = limit := by
    rw [Int.cast_natCast]
    exact nearest_limit
  constructor
  · by_contra h
    have hle := nearest_mono_int (not_lt.mp h)
    rw [Int.cast_neg, nearest_neg, hlimit] at hle
    omega
  · by_contra h
    have hge := nearest_mono_int (not_lt.mp h)
    rw [hlimit] at hge
    omega

/-- Doubles and integers are compared by their levels. -/
theorem related_of_level (hx : x.isNaN = false) (rel : Relation) :
    related rel (float x) (int m) = rel.ofInt x.level (exactLevel m) ∧
      related rel (int m) (float x) = rel.ofInt (exactLevel m) x.level := by
  have hbounds := exactLevel_bounds hm
  cases x with
  | nan => cases hx
  | inf a =>
    cases a <;> cases rel <;>
      simp [related, extended?, Double.extended?, Relation.ofExtended, Relation.ofInt, Extended.lt, Extended.le,
        level] <;>
      omega
  | finite a k =>
    have hfinite := Double.extended?_finite a k
    rw [related, related, extended?_int, extended?, hfinite]
    exact ⟨rel.ofExtended_level _ _, rel.ofExtended_level _ _⟩

end

theorem related_nan (n : Number) {rel : Relation} (h : rel ≠ .ne) :
    related rel (float .nan) n = false ∧ related rel n (float .nan) = false := by
  have hnan : (float .nan).extended? = .none := rfl
  constructor
  · simp [related, hnan, h]
  · rw [related, hnan]
    cases n.extended? <;> simp [h]

/-- Rounding an integer does not take it past a double. -/
theorem level_ofInt_of_level {m : Int} {x : Double} (hm : (Double.ofInt m).isFinite = true) (hx : x.isNaN = false) :
    (x.level ≤ exactLevel m → x.level ≤ (Double.ofInt m).level) ∧
      (exactLevel m ≤ x.level → (Double.ofInt m).level ≤ x.level) := by
  have hdouble : (int m).toDouble = .ok (Double.ofInt m) := bounded_of_isFinite hm
  have hpoint : (float x).toDouble = .ok x := rfl
  constructor
  · intro h
    refine (toDouble_le hpoint hdouble ?_).2.2
    rw [(related_of_level hm hx .le).1]
    exact decide_eq_true h
  · intro h
    refine (toDouble_le hdouble hpoint ?_).2.2
    rw [(related_of_level hm hx .le).2]
    exact decide_eq_true h

end Number

end StreamStat
