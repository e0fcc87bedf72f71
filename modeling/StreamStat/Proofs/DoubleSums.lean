import Mathlib.Algebra.Order.Ring.Cast
import Mathlib.Tactic.Positivity
import StreamStat.Proofs.DoubleLevel

/-!
# Sums, products and shares of doubles

The levels of sums and products of finite doubles, and of a double that is divided by a whole
number. An exact difference that is rounded, divided by two or more and rounded again has not
grown, since a power of two lies between its half and itself (`nearest_share_le`).
-/

namespace StreamStat.Double

theorem isFinite_of_level_eq_zero {x : Double} (hx : x.isNaN = false) (h : x.level = 0) : x.isFinite = true := by
  have := limit_pos
  rw [isFinite_iff hx, h]
  omega

theorem nearest_mono_int {a b : Int} (h : a ≤ b) : nearest a ≤ nearest b :=
  nearest_mono (Int.cast_le.mpr h)

/-! ## Sums -/

theorem sub_of_level_eq {x y : Double} (hx : x.isFinite = true) (hy : y.isFinite = true) (h : x.level = y.level) :
    (x - y).isFinite = true ∧ (x - y).level = 0 := by
  obtain ⟨hnan, hlevel⟩ := sub_of_isFinite hx hy
  rw [h, sub_self, nearest_zero] at hlevel
  exact ⟨isFinite_of_level_eq_zero hnan hlevel, hlevel⟩

theorem neg_neg_eq (x : Double) : x.neg.neg = x := by
  cases x <;> simp [neg]

theorem isFinite_neg (x : Double) : x.neg.isFinite = x.isFinite := by
  cases x <;> rfl

theorem level_neg (x : Double) : x.neg.level = -x.level := by
  cases x with
  | nan => rfl
  | inf a => cases a <;> simp [neg, level]
  | finite a m => cases a <;> simp [neg, level, signed]

theorem add_eq_sub (x y : Double) : x + y = x - y.neg := by
  show add x y = add x y.neg.neg
  rw [neg_neg_eq]

theorem add_of_isFinite {x y : Double} (hx : x.isFinite = true) (hy : y.isFinite = true) :
    (x + y).isNaN = false ∧ (x + y).level = nearest (x.level + y.level) := by
  have h := sub_of_isFinite hx ((isFinite_neg y).trans hy)
  rwa [← add_eq_sub, level_neg, Int.cast_neg, sub_neg_eq_add] at h

theorem isFinite_of_add {x y : Double} (h : (x + y).isFinite = true) : x.isFinite = true ∧ y.isFinite = true := by
  rw [add_eq_sub] at h
  obtain ⟨hx, hy⟩ := isFinite_of_sub h
  exact ⟨hx, (isFinite_neg y).symm.trans hy⟩

/-- A term that is not negative does not make a sum less. Both may be infinite. -/
theorem le_add_of_nonneg {x y : Double} (hx : x.isNaN = false) (hy : y.isNaN = false) (hx₀ : 0 ≤ x.level)
    (hy₀ : 0 ≤ y.level) : (x + y).isNaN = false ∧ x.level ≤ (x + y).level := by
  have hpos := limit_pos
  cases x with
  | nan => cases hx
  | inf a =>
    cases a with
    | true => simp only [level, if_true] at hx₀; omega
    | false =>
      have hsum : inf false + y = inf false := by
        cases y with
        | nan => cases hy
        | inf b =>
          cases b with
          | true => simp only [level, if_true] at hy₀; omega
          | false => rfl
        | finite b n => rfl
      rw [hsum]
      exact ⟨rfl, le_refl _⟩
  | finite a m =>
    cases y with
    | nan => cases hy
    | inf b =>
      cases b with
      | true => simp only [level, if_true] at hy₀; omega
      | false => exact ⟨rfl, (level_bounds (finite a m)).2⟩
    | finite b n =>
      obtain ⟨hn, hl⟩ := add_of_isFinite (x := finite a m) (y := finite b n) rfl rfl
      refine ⟨hn, ?_⟩
      have hy₀ : (0 : ℚ) ≤ level (finite b n) := by exact_mod_cast hy₀
      rw [hl, ← nearest_level (x := finite a m) rfl]
      exact nearest_mono (by rw [nearest_level rfl]; linarith)

/-! ## Products -/

theorem mul_of_isFinite {x y : Double} (hx : x.isFinite = true) (hy : y.isFinite = true) :
    (x * y).isNaN = false ∧ (x * y).level = nearest (x.level * y.level / unitsPerOne) := by
  cases x with
  | nan => cases hx
  | inf a => cases hx
  | finite a m =>
    cases y with
    | nan => cases hy
    | inf b => cases hy
    | finite b n =>
      have hmul : finite a m * finite b n = ofRatio (a != b) (m.units * n.units) unitsPerOne := by
        show mul _ _ = _
        unfold mul
        simp only
      rw [hmul]
      refine ⟨isNaN_ofRatio _ _ _, ?_⟩
      have hq := nearest_div (m.units * n.units) unitsPerOne_pos
      have hneg := nearest_neg ((m.units * n.units : Nat) / unitsPerOne)
      rw [hq] at hneg
      rw [level_ofRatio, level, level]
      push_cast at hq hneg
      cases a <;> cases b <;>
        simp only [signed, Bool.false_eq_true, if_true, if_false, Int.cast_neg, Int.cast_natCast, neg_mul, mul_neg,
          neg_div, neg_neg, hq, hneg, bne_self_eq_false, Bool.bne_true, Bool.bne_false, Bool.not_false]

/-! ## Whole numbers -/

theorem holds_whole {n : Nat} (h : n < 2 ^ 53) : BinaryFormat.double.Holds (n * unitsPerOne) := by
  rw [unitsPerOne]
  exact BinaryFormat.double.holds_mul_two_pow (by decide) h (Nat.zero_le _) (by decide)

/-- The conversion of a whole number, which is not to be computed. -/
theorem cast_eq (n : Nat) : (n : Double) = ofNat n :=
  have mk {α : Type} (f : Nat → α) (n : Nat) : @Nat.cast α ⟨f⟩ n = f n := rfl
  mk ofNat n

theorem level_whole {n : Nat} (h : n < 2 ^ 53) : (n : Double).level = (n * unitsPerOne : Nat) := by
  rw [cast_eq, level_ofNat, magnitude_of_holds (holds_whole h)]

theorem isFinite_whole {n : Nat} (h : n < 2 ^ 53) : (n : Double).isFinite = true := by
  have hlt := lt_limit (holds_whole h)
  have hnan : (n : Double).isNaN = false := by rw [cast_eq, isNaN_ofNat]
  rw [isFinite_iff hnan, level_whole h]
  generalize n * unitsPerOne = k at hlt
  omega

/-! ## Shares -/

theorem share_of_isFinite {d : Double} (hd : d.isFinite = true) {n : Nat} (h₀ : 0 < n) (hn : n < 2 ^ 53) :
    (d / (n : Double)).isFinite = true ∧ (d / (n : Double)).level = nearest (d.level / n) := by
  have hlevel := level_whole hn
  have hu : (unitsPerOne : ℚ) ≠ 0 := Nat.cast_ne_zero.mpr (ne_of_gt unitsPerOne_pos)
  have hne : (n : Double).level ≠ 0 := by
    rw [hlevel]
    exact_mod_cast ne_of_gt (Nat.mul_pos h₀ unitsPerOne_pos)
  obtain ⟨hnan, hq⟩ := div_of_isFinite hd (isFinite_whole hn) hne
  rw [hlevel, Int.cast_natCast, Nat.cast_mul, mul_div_mul_right _ _ hu] at hq
  refine ⟨(isFinite_iff hnan).mpr ?_, hq⟩
  -- a share is not farther from zero than the whole
  have hone : (1 : ℚ) ≤ n := by exact_mod_cast h₀
  have hb := (isFinite_iff (isNaN_of_isFinite hd)).mp hd
  have hself := nearest_level hd
  have hzero := nearest_zero
  rw [hq]
  rcases le_total 0 d.level with hs | hs
  · have hs : (0 : ℚ) ≤ d.level := by exact_mod_cast hs
    have h₁ := nearest_mono (div_nonneg hs (Nat.cast_nonneg n))
    have h₂ := nearest_mono (div_le_self hs hone)
    omega
  · have hs : (0 : ℚ) ≤ -d.level := by exact_mod_cast neg_nonneg.mpr hs
    have h₁ := nearest_mono (div_nonneg hs (Nat.cast_nonneg n))
    have h₂ := nearest_mono (div_le_self hs hone)
    rw [neg_div, nearest_neg] at h₁ h₂
    rw [nearest_neg] at h₂
    omega

theorem nearest_two_pow_le (e : Nat) : nearest ((2 ^ e : Nat) : ℚ) ≤ (2 ^ e : Nat) := by
  by_cases he : e < BinaryFormat.double.ceiling
  · rw [nearest_of_holds (BinaryFormat.double.holds_two_pow (by decide) (Nat.zero_le e) he)]
  · have h := nearest_div (2 ^ e) Nat.one_pos
    rw [Nat.cast_one, div_one] at h
    rw [h]
    refine Int.ofNat_le.mpr (le_trans (Nat.min_le_right _ _) ?_)
    rw [limit, BinaryFormat.limit_eq]
    exact Nat.pow_le_pow_right (by decide) (not_lt.mp he)

/-- A whole number of units that is rounded, divided by two or more and rounded again has not
grown. -/
theorem nearest_share_le {i : Int} (hi : 0 ≤ i) {n : Nat} (hn : 1 < n) :
    0 ≤ nearest (nearest i / n) ∧ nearest (nearest i / n) ≤ i := by
  have hzero := nearest_zero
  have hnonneg : 0 ≤ nearest i := by
    have := nearest_mono (p := 0) (q := i) (by exact_mod_cast hi)
    omega
  have hcast : (0 : ℚ) ≤ nearest i := by exact_mod_cast hnonneg
  constructor
  · have := nearest_mono (div_nonneg hcast (Nat.cast_nonneg n))
    omega
  · obtain ⟨k, rfl⟩ := Int.eq_ofNat_of_zero_le hi
    rcases Nat.eq_zero_or_pos k with rfl | hk
    · simp [hzero]
    · have hlow : 2 ^ k.log2 ≤ k := Nat.log2_self_le (ne_of_gt hk)
      have hhigh : nearest (k : Int) ≤ (2 ^ (k.log2 + 1) : Nat) := by
        refine le_trans (nearest_mono ?_) (nearest_two_pow_le _)
        exact_mod_cast le_of_lt Nat.lt_log2_self
      have hshare : (nearest (k : Int) : ℚ) / n ≤ (2 ^ k.log2 : Nat) := by
        have hn : (2 : ℚ) ≤ n := by exact_mod_cast hn
        have hhigh : (nearest (k : Int) : ℚ) ≤ (2 ^ (k.log2 + 1) : Nat) := by exact_mod_cast hhigh
        rw [Nat.pow_succ, Nat.cast_mul, Nat.cast_ofNat] at hhigh
        rw [div_le_iff₀ (by linarith)]
        exact hhigh.trans (mul_le_mul_of_nonneg_left hn (Nat.cast_nonneg _))
      calc nearest (nearest (k : Int) / n) ≤ nearest ((2 ^ k.log2 : Nat) : ℚ) := nearest_mono hshare
        _ ≤ (2 ^ k.log2 : Nat) := nearest_two_pow_le _
        _ ≤ k := by exact_mod_cast hlow

end StreamStat.Double
