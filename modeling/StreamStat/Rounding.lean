/-!
# Rounding to a binary grid

A binary format keeps a fixed number of significant bits, above a least step.
Magnitudes are counted in a fixed unit, so that rounding is a function on
natural numbers: the exact quotient in, the nearest grid point out.
-/

namespace StreamStat

/-- Powers are those of the core library, whatever else is imported. -/
scoped instance (priority := high) powNat {M : Type} [NatPow M] : Pow M Nat := instPowNat

/-! ## The nearest integer -/

/-- The natural number nearest to `num / den`; a half goes to the even neighbour. -/
def divNearest (num den : Nat) : Nat :=
  let q := num / den
  let r := num % den
  if 2 * r < den then q
  else if den < 2 * r then q + 1
  else q + q % 2

theorem div_le_divNearest (num den : Nat) : num / den ≤ divNearest num den := by
  unfold divNearest
  dsimp only
  split
  · exact Nat.le_refl _
  · split <;> omega

theorem divNearest_le_succ (num den : Nat) : divNearest num den ≤ num / den + 1 := by
  unfold divNearest
  dsimp only
  split
  · omega
  · split <;> omega

/-! ## Grids -/

/-- A binary floating format over a unit: how many significant bits it keeps, the
exponent of its least step, and the exponent at which it overflows. -/
structure BinaryFormat where
  bits : Nat
  finest : Nat
  ceiling : Nat
  deriving DecidableEq

namespace BinaryFormat

/-- Double precision, in units of `2 ^ -1074`. -/
def double : BinaryFormat := ⟨53, 0, 2098⟩

/-- Single precision, in the same units. -/
def single : BinaryFormat := ⟨24, 925, 1202⟩

/-- The exponent of the step between neighbours at the magnitude `q`. -/
def step (f : BinaryFormat) (q : Nat) : Nat := max f.finest (q.log2 + 1 - f.bits)

/-- The grid point nearest to `num / den`; a half goes to the even one. -/
def round (f : BinaryFormat) (num den : Nat) : Nat :=
  let s := f.step (num / den)
  divNearest num (den * 2 ^ s) * 2 ^ s

/-- The magnitudes a format holds: whole steps, below the ceiling. -/
def Holds (f : BinaryFormat) (q : Nat) : Prop := 2 ^ f.step q ∣ q ∧ q < 2 ^ f.ceiling

instance (f : BinaryFormat) (q : Nat) : Decidable (f.Holds q) :=
  inferInstanceAs (Decidable (_ ∧ _))

/-! ## Rounding lands on the grid -/

theorem lt_two_pow_step (f : BinaryFormat) (q : Nat) : q < 2 ^ f.bits * 2 ^ f.step q := by
  rw [← Nat.pow_add]
  refine Nat.lt_of_lt_of_le Nat.lt_log2_self (Nat.pow_le_pow_right (by decide) ?_)
  unfold step
  omega

theorem divNearest_step_le (f : BinaryFormat) (num den : Nat) :
    divNearest num (den * 2 ^ f.step (num / den)) ≤ 2 ^ f.bits := by
  refine Nat.le_trans (divNearest_le_succ _ _) ?_
  rw [← Nat.div_div_eq_div_mul]
  have h := (Nat.div_lt_iff_lt_mul (Nat.two_pow_pos (f.step (num / den)))).mpr
    (f.lt_two_pow_step (num / den))
  omega

theorem step_mul_two_pow {f : BinaryFormat} (hb : 0 < f.bits) {m s : Nat} (hs : f.finest ≤ s)
    (hm : m < 2 ^ f.bits) : f.step (m * 2 ^ s) ≤ s := by
  unfold step
  rcases Nat.eq_zero_or_pos m with rfl | hp
  · simp only [Nat.zero_mul, Nat.log2_zero]
    omega
  · have h : (m * 2 ^ s).log2 < f.bits + s := by
      rw [Nat.log2_lt (by have := Nat.two_pow_pos s; exact Nat.mul_ne_zero (by omega) (by omega)), Nat.pow_add]
      exact Nat.mul_lt_mul_of_pos_right hm (Nat.two_pow_pos s)
    omega

theorem two_pow_step_dvd_round {f : BinaryFormat} (hb : 0 < f.bits) (num den : Nat) :
    2 ^ f.step (f.round num den) ∣ f.round num den := by
  have hs : f.finest ≤ f.step (num / den) := Nat.le_max_left _ _
  have hm := f.divNearest_step_le num den
  simp only [round]
  generalize divNearest num (den * 2 ^ f.step (num / den)) = m at hm ⊢
  generalize f.step (num / den) = s at hs ⊢
  rcases Nat.lt_or_eq_of_le hm with h | rfl
  · exact Nat.dvd_trans (Nat.pow_dvd_pow 2 (step_mul_two_pow hb hs h)) (Nat.dvd_mul_left _ _)
  · rw [← Nat.pow_add]
    refine Nat.pow_dvd_pow 2 ?_
    simp only [step, Nat.log2_two_pow]
    omega

theorem holds_round {f : BinaryFormat} (hb : 0 < f.bits) {num den : Nat}
    (h : f.round num den < 2 ^ f.ceiling) : f.Holds (f.round num den) :=
  ⟨two_pow_step_dvd_round hb num den, h⟩

end BinaryFormat

end StreamStat
