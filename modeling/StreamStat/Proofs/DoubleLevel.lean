import Mathlib.Algebra.Order.Field.Rat
import Mathlib.Tactic.FieldSimp
import Mathlib.Tactic.Linarith
import StreamStat.Double.Basic
import StreamStat.Proofs.RoundingOrder

/-!
# Levels of doubles

The level of a double is its value in units, with the infinities at the two ends, so that
doubles are in order if their levels are. An operation on finite doubles gives the level
nearest to the exact result: `nearest` is monotone and fixes the levels of doubles.
-/

namespace StreamStat.Double

/-! ## Levels -/

def limit : Nat := BinaryFormat.double.limit

def level : Double → Int
  | nan => 0
  | inf negative => if negative then -limit else limit
  | finite negative m => signed negative m

theorem limit_pos : 0 < limit := BinaryFormat.double.limit_pos

theorem lt_limit {q : Nat} (h : BinaryFormat.double.Holds q) : q < limit := BinaryFormat.double.lt_limit h

theorem abs_signed_lt (negative : Bool) (m : Magnitude) :
    -(limit : Int) < signed negative m ∧ signed negative m < limit := by
  have := lt_limit m.holds
  unfold signed
  split <;> omega

theorem level_bounds (x : Double) : -(limit : Int) ≤ x.level ∧ x.level ≤ limit := by
  have := limit_pos
  cases x with
  | nan => simp only [level]; omega
  | inf negative => cases negative <;> simp only [level] <;> simp
  | finite negative m =>
    have := abs_signed_lt negative m
    simp only [level]
    omega

theorem isFinite_iff {x : Double} (h : x.isNaN = false) :
    x.isFinite = true ↔ -(limit : Int) < x.level ∧ x.level < limit := by
  cases x with
  | nan => cases h
  | inf negative => cases negative <;> simp [level, isFinite]
  | finite negative m => exact ⟨fun _ => abs_signed_lt negative m, fun _ => rfl⟩

theorem le_iff {x y : Double} (hx : x.isNaN = false) (hy : y.isNaN = false) :
    le x y = true ↔ x.level ≤ y.level := by
  have := limit_pos
  cases x with
  | nan => cases hx
  | inf a =>
    cases y with
    | nan => cases hy
    | inf b => cases a <;> cases b <;> simp [le, level]; omega
    | finite b n =>
      have := abs_signed_lt b n
      cases a <;> simp [le, level] <;> omega
  | finite a m =>
    have := abs_signed_lt a m
    cases y with
    | nan => cases hy
    | inf b => cases b <;> simp [le, level] <;> omega
    | finite b n => simp [le, level]

theorem lt_iff {x y : Double} (hx : x.isNaN = false) (hy : y.isNaN = false) :
    lt x y = true ↔ x.level < y.level := by
  have := limit_pos
  cases x with
  | nan => cases hx
  | inf a =>
    cases y with
    | nan => cases hy
    | inf b => cases a <;> cases b <;> simp [lt, level]; omega
    | finite b n =>
      have := abs_signed_lt b n
      cases a <;> simp [lt, level] <;> omega
  | finite a m =>
    have := abs_signed_lt a m
    cases y with
    | nan => cases hy
    | inf b => cases b <;> simp [lt, level] <;> omega
    | finite b n => simp [lt, level]

theorem nan_lt (x : Double) : lt nan x = false := by cases x <;> rfl

theorem lt_nan (x : Double) : lt x nan = false := by cases x <;> rfl

theorem eq_iff {x y : Double} (hx : x.isNaN = false) (hy : y.isNaN = false) :
    eq x y = true ↔ x.level = y.level := by
  rw [eq, Bool.and_eq_true, le_iff hx hy, le_iff hy hx]
  omega

theorem isNaN_of_le {x y : Double} (h : x ≤ y) : x.isNaN = false ∧ y.isNaN = false := by
  have h : le x y = true := h
  cases x <;> cases y <;> first | exact ⟨rfl, rfl⟩ | cases h

theorem level_of_eq {x y : Double} (h : x.eq y = true) :
    x.isNaN = false ∧ y.isNaN = false ∧ x.level = y.level := by
  obtain ⟨hx, hy⟩ := isNaN_of_le (Bool.and_eq_true_iff.mp h).1
  exact ⟨hx, hy, (eq_iff hx hy).mp h⟩

/-! ## The nearest level -/

def magnitude (num den : Nat) : Nat := min (BinaryFormat.double.round num den) limit

theorem magnitude_mono {a b c d : Nat} (hb : 0 < b) (hd : 0 < d) (h : a * d ≤ c * b) :
    magnitude a b ≤ magnitude c d := by
  have := BinaryFormat.double.round_mono (by decide) hb hd h
  unfold magnitude
  omega

theorem magnitude_eq {a b c d : Nat} (hb : 0 < b) (hd : 0 < d) (h : a * d = c * b) :
    magnitude a b = magnitude c d := by
  rw [magnitude, magnitude, BinaryFormat.double.round_eq (by decide) hb hd h]

theorem magnitude_of_holds {q : Nat} (h : BinaryFormat.double.Holds q) : magnitude q 1 = q := by
  rw [magnitude, BinaryFormat.double.round_of_holds h]
  exact Nat.min_eq_left (Nat.le_of_lt (lt_limit h))

theorem magnitude_zero (den : Nat) : magnitude 0 den = 0 := by
  simp [magnitude, BinaryFormat.round, divNearest]

theorem isNaN_ofRatio (negative : Bool) (num den : Nat) : (ofRatio negative num den).isNaN = false := by
  unfold ofRatio
  split <;> rfl

theorem level_ofRatio (negative : Bool) (num den : Nat) :
    (ofRatio negative num den).level = if negative then -(magnitude num den : Int) else magnitude num den := by
  unfold ofRatio
  split
  · rename_i h
    rw [← BinaryFormat.limit_eq, ← limit] at h
    rw [magnitude, Nat.min_eq_left (Nat.le_of_lt h)]
    rfl
  · rename_i h
    rw [← BinaryFormat.limit_eq, ← limit] at h
    rw [magnitude, Nat.min_eq_right (Nat.le_of_not_lt h)]
    rfl

def nearest (q : ℚ) : Int :=
  if q < 0 then -(magnitude q.num.natAbs q.den : Int) else magnitude q.num.natAbs q.den

theorem cast_natAbs_num {q : ℚ} (h : 0 ≤ q) : (q.num.natAbs : ℚ) = q * q.den := by
  have hn : (q.num.natAbs : Int) = q.num := Int.natAbs_of_nonneg (Rat.num_nonneg.mpr h)
  rw [Rat.mul_den_eq_num, ← hn]
  rfl

theorem nearest_of_nonneg {q : ℚ} (h : 0 ≤ q) : nearest q = magnitude q.num.natAbs q.den :=
  if_neg (not_lt_of_ge h)

theorem nearest_zero : nearest 0 = 0 := by
  rw [nearest_of_nonneg (le_refl 0), Rat.num_zero, Int.natAbs_zero, magnitude_zero]
  rfl

theorem nearest_neg (q : ℚ) : nearest (-q) = -nearest q := by
  rcases lt_trichotomy q 0 with h | rfl | h
  · rw [nearest_of_nonneg (by linarith), nearest, if_pos h, Rat.neg_num, Rat.neg_den, Int.natAbs_neg, Int.neg_neg]
  · rw [neg_zero, nearest_zero, Int.neg_zero]
  · rw [nearest_of_nonneg h.le, nearest, if_pos (by linarith), Rat.neg_num, Rat.neg_den, Int.natAbs_neg]

theorem nearest_div (num : Nat) {den : Nat} (hd : 0 < den) : nearest ((num : ℚ) / den) = magnitude num den := by
  have hq : (0 : ℚ) ≤ (num : ℚ) / den := div_nonneg (Nat.cast_nonneg _) (Nat.cast_nonneg _)
  rw [nearest_of_nonneg hq]
  congr 1
  refine magnitude_eq (Rat.pos _) hd ?_
  have h : (((num : ℚ) / den).num.natAbs : ℚ) * den = num * ((num : ℚ) / den).den := by
    rw [cast_natAbs_num hq, mul_right_comm, div_mul_cancel₀ _ (by positivity)]
  exact_mod_cast h

theorem nearest_mono {p q : ℚ} (h : p ≤ q) : nearest p ≤ nearest q := by
  have pos {p q : ℚ} (hp : 0 ≤ p) (h : p ≤ q) : nearest p ≤ nearest q := by
    rw [nearest_of_nonneg hp, nearest_of_nonneg (hp.trans h)]
    refine Int.ofNat_le.mpr (magnitude_mono (Rat.pos _) (Rat.pos _) ?_)
    have h : (p.num.natAbs : ℚ) * q.den ≤ q.num.natAbs * p.den := by
      rw [cast_natAbs_num hp, cast_natAbs_num (hp.trans h), mul_right_comm q]
      exact mul_le_mul_of_nonneg_right (mul_le_mul_of_nonneg_right h (Nat.cast_nonneg _)) (Nat.cast_nonneg _)
    exact_mod_cast h
  rcases le_total 0 p with hp | hp
  · exact pos hp h
  · rcases le_total 0 q with hq | hq
    · have h₁ := pos (le_refl 0) (neg_nonneg.mpr hp)
      have h₂ := pos (le_refl 0) hq
      rw [nearest_zero, nearest_neg] at h₁
      rw [nearest_zero] at h₂
      omega
    · have := pos (neg_nonneg.mpr hq) (neg_le_neg h)
      rw [nearest_neg, nearest_neg] at this
      omega

theorem nearest_int (i : Int) :
    nearest i = if i < 0 then -(magnitude i.natAbs 1 : Int) else magnitude i.natAbs 1 := by
  simp only [nearest, Int.cast_lt_zero, Rat.num_intCast, Rat.den_intCast]

theorem nearest_of_holds {q : Nat} (h : BinaryFormat.double.Holds q) : nearest q = q := by
  have hq := nearest_int q
  rwa [if_neg (Int.not_lt.mpr (Int.natCast_nonneg _)), Int.natAbs_natCast, magnitude_of_holds h] at hq

/-- The levels of doubles are not rounded. -/
theorem nearest_level {x : Double} (hx : x.isFinite = true) : nearest x.level = x.level := by
  cases x with
  | nan => cases hx
  | inf negative => cases hx
  | finite negative m =>
    have h := nearest_of_holds m.holds
    cases negative with
    | false => exact h
    | true =>
      show nearest ((-(m.units : Int) : Int) : ℚ) = -(m.units : Int)
      rw [Int.cast_neg, Int.cast_natCast, nearest_neg, h]

/-! ## Operations -/

theorem isNaN_of_isFinite {x : Double} (hx : x.isFinite = true) : x.isNaN = false := by
  cases x <;> first | rfl | cases hx

theorem sub_of_isFinite {x y : Double} (hx : x.isFinite = true) (hy : y.isFinite = true) :
    (x - y).isNaN = false ∧ (x - y).level = nearest (x.level - y.level) := by
  cases x with
  | nan => cases hx
  | inf a => cases hx
  | finite a m =>
    cases y with
    | nan => cases hy
    | inf b => cases hy
    | finite b n =>
      have hs : signed (!b) n = -signed b n := by cases b <;> simp [signed]
      have hsub : finite a m - finite b n =
          ofRatio (if signed a m + signed (!b) n = 0 then a && !b else signed a m + signed (!b) n < 0)
            (signed a m + signed (!b) n).natAbs 1 := by
        show sub _ _ = _
        unfold sub neg add
        simp only
      rw [hsub, hs, ← Int.sub_eq_add_neg]
      refine ⟨isNaN_ofRatio _ _ _, ?_⟩
      rw [level_ofRatio, level, level, ← Int.cast_sub, nearest_int]
      generalize signed a m - signed b n = i
      by_cases hi : i = 0
      · subst hi
        simp [magnitude_zero]
      · simp [hi]

theorem div_of_isFinite {x y : Double} (hx : x.isFinite = true) (hy : y.isFinite = true) (h : y.level ≠ 0) :
    (x / y).isNaN = false ∧ (x / y).level = nearest (x.level * unitsPerOne / y.level) := by
  cases x with
  | nan => cases hx
  | inf a => cases hx
  | finite a m =>
    cases y with
    | nan => cases hy
    | inf b => cases hy
    | finite b n =>
      have hn : n.units ≠ 0 := by
        intro hn
        apply h
        cases b <;> simp [level, signed, hn]
      have hdiv : finite a m / finite b n = ofRatio (a != b) (m.units * unitsPerOne) n.units := if_neg hn
      rw [hdiv]
      refine ⟨isNaN_ofRatio _ _ _, ?_⟩
      have hq := nearest_div (m.units * unitsPerOne) (Nat.pos_of_ne_zero hn)
      have hneg := nearest_neg ((m.units * unitsPerOne : Nat) / n.units)
      rw [hq] at hneg
      rw [level_ofRatio, level, level]
      push_cast at hq hneg
      cases a <;> cases b <;>
        simp only [signed, Bool.false_eq_true, if_true, if_false, Int.cast_neg, Int.cast_natCast, neg_mul, neg_div,
          div_neg, neg_neg, hq, hneg, bne_self_eq_false, Bool.bne_true, Bool.bne_false, Bool.not_false]

theorem isNaN_ofNat (n : Nat) : (ofNat n).isNaN = false := isNaN_ofRatio false _ _

theorem level_ofNat (n : Nat) : (ofNat n).level = magnitude (n * unitsPerOne) 1 := level_ofRatio false _ _

theorem unitsPerOne_pos : 0 < unitsPerOne := by
  rw [unitsPerOne]
  positivity

theorem holds_unitsPerOne : BinaryFormat.double.Holds unitsPerOne := by
  have h := BinaryFormat.double.holds_two_pow (e := 1074) (by decide) (by decide) (by decide)
  rw [unitsPerOne]
  exact h

theorem isNaN_zero : (0 : Double).isNaN = false := isNaN_ofNat 0

theorem isNaN_one : (1 : Double).isNaN = false := isNaN_ofNat 1

theorem level_zero : (0 : Double).level = 0 := by
  have h := level_ofNat 0
  rwa [Nat.zero_mul, magnitude_zero] at h

theorem eq_zero_iff {x : Double} (hx : x.isNaN = false) : x.eq 0 = true ↔ x.level = 0 := by
  rw [eq_iff hx isNaN_zero, level_zero]

theorem lt_zero_iff {x : Double} (hx : x.isNaN = false) : x.lt 0 = true ↔ x.level < 0 := by
  rw [lt_iff hx isNaN_zero, level_zero]

theorem pos_iff {x : Double} (hx : x.isNaN = false) : 0 < x ↔ 0 < x.level := by
  have h := lt_iff isNaN_zero hx
  rwa [level_zero] at h

theorem level_one : (1 : Double).level = unitsPerOne := by
  have h := level_ofNat 1
  rwa [Nat.one_mul, magnitude_of_holds holds_unitsPerOne] at h

/-! ## Order of differences and quotients -/

theorem isFinite_of_sub {x y : Double} (h : (x - y).isFinite = true) : x.isFinite = true ∧ y.isFinite = true := by
  cases x with
  | nan => cases h
  | inf a =>
    cases y with
    | nan => cases h
    | inf b => cases a <;> cases b <;> cases h
    | finite b n => cases h
  | finite a m =>
    cases y with
    | nan => cases h
    | inf b => cases h
    | finite b n => exact ⟨rfl, rfl⟩

theorem inf_sub {a : Bool} {y : Double} (hy : y.isFinite = true) : inf a - y = inf a := by
  cases y with
  | finite b n => rfl
  | _ => cases hy

/-- What keeps the infinities and the order of the finite doubles keeps the order. -/
theorem mono_of_inf {f : Double → Double} (hinf : ∀ a, f (inf a) = inf a)
    (hfin : ∀ a m b n, level (finite a m) ≤ level (finite b n) → (f (finite a m)).level ≤ (f (finite b n)).level)
    {x y : Double} (hx : x.isNaN = false) (hy : y.isNaN = false) (h : x.level ≤ y.level) :
    (f x).level ≤ (f y).level := by
  have hbx := level_bounds (f x)
  have hby := level_bounds (f y)
  cases x with
  | nan => cases hx
  | inf a =>
    cases a with
    | true => rw [hinf]; exact hby.1
    | false =>
      cases y with
      | nan => cases hy
      | inf b => rw [hinf, hinf]; exact h
      | finite b n =>
        have := abs_signed_lt b n
        simp only [level, Bool.false_eq_true, if_false] at h
        omega
  | finite a m =>
    cases y with
    | nan => cases hy
    | inf b =>
      cases b with
      | false => rw [hinf]; exact hbx.2
      | true =>
        have := abs_signed_lt a m
        simp only [level, if_true] at h
        omega
    | finite b n => exact hfin a m b n h

theorem isNaN_sub {x d : Double} (hx : x.isNaN = false) (hd : d.isFinite = true) : (x - d).isNaN = false := by
  cases x with
  | nan => cases hx
  | inf a => rw [inf_sub hd]; rfl
  | finite a m => exact (sub_of_isFinite rfl hd).1

theorem sub_mono {x y d : Double} (hx : x.isNaN = false) (hy : y.isNaN = false) (hd : d.isFinite = true)
    (h : x.level ≤ y.level) : (x - d).level ≤ (y - d).level := by
  refine mono_of_inf (f := fun x => x - d) (fun a => inf_sub hd) ?_ hx hy h
  intro a m b n h
  rw [(sub_of_isFinite rfl hd).2, (sub_of_isFinite rfl hd).2]
  refine nearest_mono (sub_le_sub_right ?_ _)
  exact_mod_cast h

theorem level_sub_self {d : Double} (hd : d.isFinite = true) : (d - d).level = 0 := by
  rw [(sub_of_isFinite hd hd).2, sub_self, nearest_zero]

theorem inf_div {a : Bool} {y : Double} (hy : y.isFinite = true) (hpos : 0 < y.level) : inf a / y = inf a := by
  cases y with
  | finite b n =>
    cases b with
    | false => cases a <;> rfl
    | true => simp only [level, signed, if_true] at hpos; omega
  | _ => cases hy

theorem div_mono {x y d : Double} (hx : x.isNaN = false) (hy : y.isNaN = false) (hd : d.isFinite = true)
    (hpos : 0 < d.level) (h : x.level ≤ y.level) : (x / d).level ≤ (y / d).level := by
  refine mono_of_inf (f := fun x => x / d) (fun a => inf_div hd hpos) ?_ hx hy h
  intro a m b n h
  rw [(div_of_isFinite rfl hd (ne_of_gt hpos)).2, (div_of_isFinite rfl hd (ne_of_gt hpos)).2]
  refine nearest_mono (div_le_div_of_nonneg_right (mul_le_mul_of_nonneg_right ?_ (Nat.cast_nonneg _)) ?_)
  · exact_mod_cast h
  · exact_mod_cast hpos.le

theorem isNaN_div {x d : Double} (hx : x.isNaN = false) (hd : d.isFinite = true) (hpos : 0 < d.level) :
    (x / d).isNaN = false := by
  cases x with
  | nan => cases hx
  | inf a => rw [inf_div hd hpos]; rfl
  | finite a m => exact (div_of_isFinite rfl hd (ne_of_gt hpos)).1

theorem level_zero_div {d : Double} (hd : d.isFinite = true) (hpos : 0 < d.level) :
    ((0 : Double) / d).level = 0 := by
  have hz : (0 : Double).isFinite = true := by
    rw [isFinite_iff isNaN_zero, level_zero]
    have := limit_pos
    omega
  rw [(div_of_isFinite hz hd (ne_of_gt hpos)).2, level_zero, Int.cast_zero, zero_mul, zero_div, nearest_zero]

/-- A double divided by itself is one. -/
theorem level_div_self {d : Double} (hd : d.isFinite = true) (hpos : 0 < d.level) :
    (d / d).level = unitsPerOne := by
  have hne : (d.level : ℚ) ≠ 0 := by exact_mod_cast ne_of_gt hpos
  rw [(div_of_isFinite hd hd (ne_of_gt hpos)).2, mul_div_right_comm, div_self hne, one_mul]
  exact nearest_of_holds holds_unitsPerOne

end StreamStat.Double
