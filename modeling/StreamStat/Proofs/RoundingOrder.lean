import StreamStat.Rounding

/-!
# Rounding is monotone

Rounding to a grid depends on the exact quotient only, keeps the order of quotients and
leaves what the format holds as it is. Where two quotients have steps of different size, a
power of two lies between their roundings.
-/

namespace StreamStat

/-! ## The nearest integer -/

/-- The nearest integer is the quotient rounded down or the one after it, whichever the
remainder is closer to. -/
theorem divNearest_mul (num den : Nat) :
    (divNearest num den * den + num % den = num ∧ 2 * (num % den) ≤ den) ∨
      (divNearest num den * den + num % den = num + den ∧ den ≤ 2 * (num % den)) := by
  have hdiv := Nat.div_add_mod num den
  rw [Nat.mul_comm] at hdiv
  have down : num / den * den + num % den = num := hdiv
  have up : (num / den + 1) * den + num % den = num + den := by rw [Nat.add_mul, Nat.one_mul]; omega
  unfold divNearest
  dsimp only
  split
  · exact .inl ⟨down, by omega⟩
  · split
    · exact .inr ⟨up, by omega⟩
    · rcases Nat.mod_two_eq_zero_or_one (num / den) with h | h
      · rw [h]; exact .inl ⟨down, by omega⟩
      · rw [h]; exact .inr ⟨up, by omega⟩

theorem le_divNearest (num : Nat) {den : Nat} (hd : 0 < den) : 2 * num ≤ (2 * divNearest num den + 1) * den := by
  have := Nat.mod_lt num hd
  rw [Nat.add_mul, Nat.one_mul, Nat.mul_assoc]
  rcases divNearest_mul num den with ⟨h, hr⟩ | ⟨h, hr⟩ <;> omega

theorem divNearest_le (num den : Nat) : 2 * divNearest num den * den ≤ 2 * num + den := by
  rw [Nat.mul_assoc]
  rcases divNearest_mul num den with ⟨h, hr⟩ | ⟨h, hr⟩ <;> omega

/-- A half goes to the even neighbour. -/
theorem divNearest_half {num den k : Nat} (hd : 0 < den) (h : 2 * num = (2 * k + 1) * den) :
    divNearest num den = k + k % 2 := by
  rw [Nat.add_mul, Nat.one_mul, Nat.mul_assoc] at h
  have hq : num / den = k := Nat.div_eq_of_lt_le (by omega) (by rw [Nat.add_mul, Nat.one_mul]; omega)
  have hr : 2 * (num % den) = den := by
    have := Nat.div_add_mod num den
    rw [hq, Nat.mul_comm] at this
    omega
  unfold divNearest
  dsimp only
  rw [hq, if_neg (by omega), if_neg (by omega)]

theorem divNearest_mono {a b c d : Nat} (hb : 0 < b) (hd : 0 < d) (h : a * d ≤ c * b) :
    divNearest a b ≤ divNearest c d := by
  apply Nat.le_of_not_lt
  intro hlt
  -- both quotients would be the half above the lesser integer, and go to the same neighbour
  have hc := le_divNearest c hd
  have ha : (2 * divNearest c d + 1) * b ≤ 2 * a := by
    have := Nat.le_trans (Nat.mul_le_mul_right b (by omega : 2 * (divNearest c d + 1) ≤ 2 * divNearest a b))
      (divNearest_le a b)
    rw [Nat.mul_add, Nat.add_mul] at this
    rw [Nat.add_mul]
    omega
  generalize hm : divNearest c d = m at hc ha hlt
  have hac : 2 * a * d ≤ 2 * c * b := by simpa only [Nat.mul_assoc] using Nat.mul_le_mul_left 2 h
  have ha' : 2 * a = (2 * m + 1) * b := by
    refine Nat.le_antisymm (Nat.le_of_mul_le_mul_right ?_ hd) ha
    calc 2 * a * d ≤ 2 * c * b := hac
      _ ≤ (2 * m + 1) * d * b := Nat.mul_le_mul_right b hc
      _ = (2 * m + 1) * b * d := Nat.mul_right_comm _ _ _
  have hc' : 2 * c = (2 * m + 1) * d := by
    refine Nat.le_antisymm hc (Nat.le_of_mul_le_mul_right ?_ hb)
    calc (2 * m + 1) * d * b = (2 * m + 1) * b * d := Nat.mul_right_comm _ _ _
      _ ≤ 2 * a * d := Nat.mul_le_mul_right d ha
      _ ≤ 2 * c * b := hac
  rw [divNearest_half hb ha'] at hlt
  rw [divNearest_half hd hc'] at hm
  omega

/-- Whole quotients are their own nearest integers. -/
theorem divNearest_mul_self (q : Nat) {den : Nat} (hd : 0 < den) : divNearest (q * den) den = q := by
  simp [divNearest, Nat.mul_div_cancel q hd, Nat.mul_mod_left, hd]

namespace BinaryFormat
variable (f : BinaryFormat)

/-! ## Rounding to a grid -/

theorem step_mono {p q : Nat} (h : p ≤ q) : f.step p ≤ f.step q := by
  unfold step
  rcases Nat.eq_zero_or_pos p with rfl | hp
  · rw [Nat.log2_zero]; omega
  · have := (Nat.le_log2 (by omega)).mpr (Nat.le_trans (Nat.log2_self_le (Nat.ne_of_gt hp)) h)
    omega

/-- A quotient with a step that is not the finest has all the significant bits. -/
theorem two_pow_le_of_finest_lt (hb : 0 < f.bits) {q : Nat} (h : f.finest < f.step q) :
    2 ^ (f.bits - 1) * 2 ^ f.step q ≤ q := by
  rw [← Nat.pow_add]
  unfold step at h ⊢
  rcases Nat.eq_zero_or_pos q with rfl | hq
  · rw [Nat.log2_zero] at h
    omega
  · refine Nat.le_trans (Nat.pow_le_pow_right (by decide) ?_) (Nat.log2_self_le (Nat.ne_of_gt hq))
    omega

theorem two_pow_le_round (hb : 0 < f.bits) {num den : Nat} (h : f.finest < f.step (num / den)) :
    2 ^ (f.bits - 1) * 2 ^ f.step (num / den) ≤ f.round num den := by
  refine Nat.mul_le_mul_right _ (Nat.le_trans ?_ (div_le_divNearest _ _))
  rw [← Nat.div_div_eq_div_mul, Nat.le_div_iff_mul_le (Nat.two_pow_pos _)]
  exact f.two_pow_le_of_finest_lt hb h

theorem round_le_two_pow (num den : Nat) : f.round num den ≤ 2 ^ f.bits * 2 ^ f.step (num / den) :=
  Nat.mul_le_mul_right _ (f.divNearest_step_le num den)

theorem round_mono (hf : 0 < f.bits) {a b c d : Nat} (hb : 0 < b) (hd : 0 < d) (h : a * d ≤ c * b) :
    f.round a b ≤ f.round c d := by
  have hq : a / b ≤ c / d := by
    refine (Nat.le_div_iff_mul_le hd).mpr (Nat.le_of_mul_le_mul_right ?_ hb)
    calc a / b * d * b = a / b * b * d := Nat.mul_right_comm _ _ _
      _ ≤ a * d := Nat.mul_le_mul_right d (Nat.div_mul_le_self a b)
      _ ≤ c * b := h
  rcases Nat.lt_or_eq_of_le (f.step_mono hq) with hs | hs
  · -- the power of two between them
    calc f.round a b ≤ 2 ^ f.bits * 2 ^ f.step (a / b) := f.round_le_two_pow a b
      _ = 2 ^ (f.bits + f.step (a / b)) := (Nat.pow_add ..).symm
      _ ≤ 2 ^ (f.bits - 1 + f.step (c / d)) := Nat.pow_le_pow_right (by decide) (by omega)
      _ = 2 ^ (f.bits - 1) * 2 ^ f.step (c / d) := Nat.pow_add ..
      _ ≤ f.round c d := f.two_pow_le_round hf (Nat.lt_of_le_of_lt (Nat.le_max_left _ _) hs)
  · unfold round
    dsimp only
    rw [hs]
    have hp := Nat.two_pow_pos (f.step (c / d))
    refine Nat.mul_le_mul_right _ (divNearest_mono (Nat.mul_pos hb hp) (Nat.mul_pos hd hp) ?_)
    rw [← Nat.mul_assoc, ← Nat.mul_assoc]
    exact Nat.mul_le_mul_right _ h

/-- Rounding depends on the quotient only. -/
theorem round_eq (hf : 0 < f.bits) {a b c d : Nat} (hb : 0 < b) (hd : 0 < d) (h : a * d = c * b) :
    f.round a b = f.round c d :=
  Nat.le_antisymm (f.round_mono hf hb hd (Nat.le_of_eq h)) (f.round_mono hf hd hb (Nat.le_of_eq h.symm))

/-- What lies on the grid is not rounded. -/
theorem round_of_dvd {q : Nat} (h : 2 ^ f.step q ∣ q) : f.round q 1 = q := by
  obtain ⟨m, hm⟩ := h
  have hp := Nat.two_pow_pos (f.step q)
  simp only [round, Nat.div_one, Nat.one_mul]
  generalize 2 ^ f.step q = t at hm hp ⊢
  rw [hm, Nat.mul_comm t m, divNearest_mul_self m hp]

theorem round_of_holds {q : Nat} (h : f.Holds q) : f.round q 1 = q := f.round_of_dvd h.1

/-- Powers of two lie on the grid, from the least step up. -/
theorem two_pow_step_dvd (hb : 0 < f.bits) {e : Nat} (hf : f.finest ≤ e) : 2 ^ f.step (2 ^ e) ∣ 2 ^ e := by
  apply Nat.pow_dvd_pow
  unfold step
  rw [Nat.log2_two_pow]
  omega

theorem holds_two_pow (hb : 0 < f.bits) {e : Nat} (hf : f.finest ≤ e) (hc : e < f.ceiling) : f.Holds (2 ^ e) :=
  ⟨f.two_pow_step_dvd hb hf, Nat.pow_lt_pow_right (by decide) hc⟩

/-- Few enough significant bits are held, wherever they stand. -/
theorem holds_mul_two_pow (hb : 0 < f.bits) {m s : Nat} (hm : m < 2 ^ f.bits) (hf : f.finest ≤ s)
    (hc : f.bits + s ≤ f.ceiling) : f.Holds (m * 2 ^ s) := by
  refine ⟨Nat.dvd_trans (Nat.pow_dvd_pow 2 (step_mul_two_pow hb hf hm)) (Nat.dvd_mul_left _ _), ?_⟩
  calc m * 2 ^ s < 2 ^ f.bits * 2 ^ s := Nat.mul_lt_mul_of_pos_right hm (Nat.two_pow_pos s)
    _ = 2 ^ (f.bits + s) := (Nat.pow_add ..).symm
    _ ≤ 2 ^ f.ceiling := Nat.pow_le_pow_right (by decide) hc

/-! ## The ceiling -/

/-- The magnitude at which a format overflows. It is not to be computed. -/
@[irreducible]
def limit : Nat := 2 ^ f.ceiling

theorem limit_eq : f.limit = 2 ^ f.ceiling := by rw [limit]

theorem round_limit (hb : 0 < f.bits) (hf : f.finest ≤ f.ceiling) : f.round f.limit 1 = f.limit := by
  rw [limit]
  exact f.round_of_dvd (f.two_pow_step_dvd hb hf)

theorem limit_pos : 0 < f.limit := by
  rw [limit]
  exact Nat.two_pow_pos _

theorem lt_limit {q : Nat} (h : f.Holds q) : q < f.limit := by
  rw [limit]
  exact h.2

end BinaryFormat

end StreamStat
