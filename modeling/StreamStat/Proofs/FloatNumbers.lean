import StreamStat.Proofs.DoubleLevel
import StreamStat.Proofs.ValueOrder
import StreamStat.Number.Arithmetic

/-!
# Doubles among numbers

Doubles that are compared or combined as numbers or as values are compared by their levels
and combined as doubles.
-/

namespace StreamStat

/-! ## Exact values -/

theorem Double.extended?_finite (negative : Bool) (m : Magnitude) :
    (Double.finite negative m).extended? = some (.finite (Double.signed negative m / Double.unitsPerOne)) := by
  have h : mkRat m.units Double.unitsPerOne = (m.units : ℚ) / Double.unitsPerOne := by
    rw [Rat.mkRat_eq_div, Int.cast_natCast]
  show some (Extended.finite (if negative then -mkRat m.units Double.unitsPerOne
    else mkRat m.units Double.unitsPerOne)) = _
  rw [h]
  cases negative with
  | false => simp only [Double.signed, Bool.false_eq_true, if_false, Int.cast_natCast]
  | true => simp only [Double.signed, if_true, Int.cast_neg, Int.cast_natCast, neg_div]

theorem Double.extended?_of_not_isNaN {x : Double} (h : x.isNaN = false) : ∃ e, x.extended? = some e := by
  cases x with
  | nan => cases h
  | inf negative => exact ⟨_, rfl⟩
  | finite negative m => exact ⟨_, Double.extended?_finite negative m⟩

/-- Exact values are related as their levels are. -/
theorem Relation.ofExtended_level (rel : Relation) (s t : Int) :
    rel.ofExtended (.finite (s / Double.unitsPerOne)) (.finite (t / Double.unitsPerOne)) = rel.ofInt s t := by
  have hu : (0 : ℚ) < Double.unitsPerOne := Nat.cast_pos.mpr Double.unitsPerOne_pos
  generalize (Double.unitsPerOne : ℚ) = k at hu ⊢
  have hlt (s t : Int) : Extended.lt (.finite (s / k)) (.finite (t / k)) = decide (s < t) := by
    simp only [Extended.lt, div_lt_div_iff_of_pos_right hu, Int.cast_lt]
  cases rel with
  | eq | ne => simp [ofExtended, ofInt, div_left_inj' hu.ne']
  | lt => exact hlt s t
  | le =>
    show (!Extended.lt _ _) = decide (s ≤ t)
    rw [hlt, ← decide_not, decide_eq_decide]
    exact not_lt

namespace Number

/-- Doubles are in order as numbers if they are as doubles. -/
theorem related_lt_float (x y : Double) : related .lt (float x) (float y) = x.lt y := by
  cases x with
  | nan => rfl
  | inf a =>
    cases y with
    | nan => rfl
    | inf b => cases a <;> cases b <;> rfl
    | finite b n =>
      simp only [related, extended?, Double.extended?_finite]
      cases a <;> rfl
  | finite a m =>
    cases y with
    | nan => simp only [related, extended?, Double.extended?_finite]; rfl
    | inf b =>
      simp only [related, extended?, Double.extended?_finite]
      cases b <;> rfl
    | finite b n =>
      rw [related, extended?, extended?, Double.extended?_finite, Double.extended?_finite]
      exact Relation.lt.ofExtended_level _ _

theorem related_eq_float (x y : Double) : related .eq (float x) (float y) = x.eq y := by
  cases x with
  | nan => rfl
  | inf a =>
    cases y with
    | nan => cases a <;> rfl
    | inf b => cases a <;> cases b <;> rfl
    | finite b n =>
      simp only [related, extended?, Double.extended?_finite]
      cases a <;> rfl
  | finite a m =>
    cases y with
    | nan => simp only [related, extended?, Double.extended?_finite]; rfl
    | inf b =>
      simp only [related, extended?, Double.extended?_finite]
      cases b <;> rfl
    | finite b n =>
      rw [related, extended?, extended?, Double.extended?_finite, Double.extended?_finite]
      refine (Relation.eq.ofExtended_level _ _).trans ?_
      rw [Bool.eq_iff_iff, Double.eq_iff rfl rfl]
      exact decide_eq_true_iff

theorem related_le_float (x y : Double) : related .le (float x) (float y) = x.le y := by
  by_cases hx : x.isNaN = true
  · cases x with
    | nan => rfl
    | _ => cases hx
  by_cases hy : y.isNaN = true
  · cases y with
    | nan => cases x <;> simp [related, extended?, Double.extended?, Double.le]
    | _ => cases hy
  rw [Bool.not_eq_true] at hx hy
  obtain ⟨e, he⟩ := Double.extended?_of_not_isNaN hx
  obtain ⟨f, hf⟩ := Double.extended?_of_not_isNaN hy
  have hle : related .le (float x) (float y) = !related .lt (float y) (float x) := by
    simp only [related, extended?, he, hf, Relation.ofExtended, Extended.le]
  rw [hle, related_lt_float, Bool.eq_iff_iff, Double.le_iff hx hy, Bool.not_eq_true', ← Bool.not_eq_true,
    Double.lt_iff hy hx, not_lt]

/-! ## Numbers beside doubles -/

/-- The numbers that neither arrays nor decimals have a part in. -/
def isReal : Number → Bool
  | bool _ | int _ | float _ | fraction _ => true
  | decimal _ | machineBool _ | machineInt _ _ | machineFloat _ _ | machineFraction _ _ _ => false

section
variable {a b n : Number}

theorem compare_of_isReal (ha : a.isReal = true) (hb : b.isReal = true) (rel : Relation) :
    compare rel a b = .ok (bool (related rel a b)) := by
  have hplain {n : Number} (h : n.isReal = true) : n.isPlain = true ∧ n.isDecimal = false := by
    cases n <;> first | exact ⟨rfl, rfl⟩ | cases h
  rw [compare_of_isPlain (hplain ha).1 (hplain hb).1, unordered, (hplain ha).2, (hplain hb).2]
  simp

theorem le_of_isReal (ha : a.isReal = true) (hb : b.isReal = true) : le a b = .ok (related .le a b) := by
  rw [le, compare_of_isReal ha hb]
  cases related .le a b <;> rfl

/-- A double is combined with the double of a number. -/
theorem combine_float (op : NumberOperation) (x : Double) (h : n.isReal = true) :
    combine op (float x) n = n.toDouble >>= fun y => op.doubles x y >>= fun z => .ok (float z) := by
  have ok_bind (r : Except Fault Double) :
      ((float x).toDouble >>= fun x => r >>= fun y => op.doubles x y >>= fun z => pure (float z)) =
        r >>= fun y => op.doubles x y >>= fun z => .ok (float z) := rfl
  cases n with
  | bool _ | int _ | float _ | fraction _ =>
    rw [← ok_bind]
    simp only [combine, isMachine, combinePlain, Bool.false_eq_true, if_false]
  | _ => cases h

theorem float_sub (x : Double) (h : n.isReal = true) :
    sub (float x) n = n.toDouble >>= fun y => .ok (float (x - y)) :=
  combine_float .subtraction x h

theorem float_div (x : Double) (h : n.isReal = true) :
    div (float x) n = n.toDouble >>= fun y => if y.eq 0 then .error .divisionByZero else .ok (float (x / y)) := by
  rw [div, combine_float .division x h]
  congr 1
  funext y
  simp only [NumberOperation.division]
  split <;> rfl

end

end Number

/-! ## Values as doubles -/

theorem Double.bounded_of_isFinite {x : Double} (h : x.isFinite = true) : x.bounded = .ok x := by
  cases x with
  | finite negative m => rfl
  | _ => cases h

namespace Value

theorem toDouble_int {k : Int} (h : (Double.ofInt k).isFinite = true) (i : Nat) :
    (number (.int k) i).toDouble = .ok (.ofInt k) := by
  rw [toDouble, Number.toDouble, Double.bounded_of_isFinite h]

theorem toDouble_fraction {r : ℚ} (h : (Double.ofRat r).isFinite = true) (i : Nat) :
    (number (.fraction r) i).toDouble = .ok (.ofRat r) := by
  rw [toDouble, Number.toDouble, Double.bounded_of_isFinite h]

end Value

/-! ## Doubles as values -/

namespace Value

section
variable (o : ObjectView) {a b : Number} (ha : a.isReal = true) (hb : b.isReal = true) (i j : Nat)
include ha hb

theorem compare_of_isReal (rel : Relation) :
    (compare o rel (number a i) (number b j) >>= truth) = .ok (Number.related rel a b) := by
  rw [compare_number, Number.compare_of_isReal ha hb]
  exact truth_ofBool _

theorem lt_of_isReal : lt o (number a i) (number b j) = .ok (Number.related .lt a b) :=
  compare_of_isReal o ha hb i j .lt

theorem le_of_isReal : le o (number a i) (number b j) = .ok (Number.related .le a b) :=
  compare_of_isReal o ha hb i j .le

end

section
variable (o : ObjectView) (x y : Double) (i j : Nat)

theorem equal_float : equal o (number (.float x) i) (number (.float y) j) = .ok (x.eq y) := by
  rw [← Number.related_eq_float]
  exact compare_of_isReal o rfl rfl i j .eq

theorem div_float (h : y.eq 0 = false) :
    div (number (.float x) i) (number (.float y) j) = .ok (ofNumber (.float (x / y))) := by
  have hdiv : NumberOperation.division.doubles x y = .ok (x / y) := if_neg (by rw [h]; exact Bool.false_ne_true)
  show ((NumberOperation.division.doubles x y >>= fun z => pure (Number.float z)).map ofNumber) = _
  rw [hdiv]
  rfl

end

end Value

end StreamStat
