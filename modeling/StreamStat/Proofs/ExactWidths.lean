import StreamStat.Proofs.NumberDoubles
import StreamStat.Proofs.UniformArrays

/-!
# Widths of bounds as they are given

The two functions may be built on bounds that are no doubles. The width of integers and fractions
is their exact difference, reduced or not; beside a double both bounds are doubles.
-/

namespace StreamStat

open Double Value

namespace Number

/-- The value of a number with which arithmetic is exact. -/
def rational? : Number → Option ℚ
  | bool b => some (boolInt b)
  | int i => some i
  | fraction r => some r
  | _ => none

variable {a b n w : Number} {p q r : ℚ}

theorem isReal_cases (h : n.isReal = true) : (∃ r, n.rational? = some r) ∨ ∃ x, n = float x := by
  cases n with
  | bool _ | int _ | fraction _ => exact .inl ⟨_, rfl⟩
  | float x => exact .inr ⟨x, rfl⟩
  | _ => cases h

theorem isReal_pair (ha : a.isReal = true) (hb : b.isReal = true) :
    (∃ p q, a.rational? = some p ∧ b.rational? = some q) ∨ ((∃ x, a = float x) ∨ ∃ y, b = float y) := by
  rcases isReal_cases ha with ⟨p, hp⟩ | hx
  · rcases isReal_cases hb with ⟨q, hq⟩ | hy
    · exact .inl ⟨p, q, hp, hq⟩
    · exact .inr (.inr hy)
  · exact .inr (.inl hx)

theorem isReal_of_rational? (h : n.rational? = some r) : n.isReal = true := by
  cases n <;> first | rfl | cases h

theorem extended?_of_rational? (h : n.rational? = some r) : n.extended? = some (.finite r) := by
  cases n with
  | bool b | int i | fraction q => rw [← Option.some.inj h]; rfl
  | _ => cases h

theorem toDouble_of_rational? (h : n.rational? = some r) : n.toDouble = (ofRat r).bounded := by
  cases n with
  | bool b =>
    rw [← Option.some.inj h, ← Double.ofInt_eq]
    cases b <;> exact (bounded_of_isFinite (by decide +kernel)).symm
  | int i => rw [← Option.some.inj h, ← Double.ofInt_eq]; rfl
  | fraction q => rw [← Option.some.inj h]; rfl
  | _ => cases h

end Number

/-! ## Differences -/

namespace Quotient

/-- The difference of two quotients without bound terms, in the form in which it is computed. -/
theorem combine_sub_eq (i j : Int) (d e : Nat) :
    let g := Nat.gcd d e
    let t := i * (e / g : Nat) - j * (d / g : Nat)
    let h := Nat.gcd t.natAbs g
    combine Term.sub ⟨.plain i, d⟩ ⟨.plain j, e⟩ =
      .ok (if h = 1 then ⟨.plain t, d / g * e⟩ else ⟨.plain (t.fdiv h), d / g * (e / h)⟩) := by
  intro g t h
  show (if h = 1 then _ else _) = _
  split <;> rfl

/-- Cancelling a common divisor does not change a quotient. -/
theorem mkRat_cancel {t : Int} {h e : Nat} (hh : 0 < h) (ht : (h : Int) ∣ t) (he : h ∣ e) (s : Nat) :
    mkRat (t.fdiv h) (s * (e / h)) = (t : ℚ) / (s * e : Nat) := by
  obtain ⟨c, rfl⟩ := ht
  obtain ⟨m, rfl⟩ := he
  have hne : (h : ℚ) ≠ 0 := Nat.cast_ne_zero.mpr hh.ne'
  rw [Int.mul_fdiv_cancel_left _ (by omega), Nat.mul_div_cancel_left _ hh, Rat.mkRat_eq_div, Nat.mul_left_comm]
  push_cast
  rw [mul_div_mul_left _ _ hne]

theorem combine_sub (i j : Int) {d e : Nat} (hd : 0 < d) (he : 0 < e) :
    (combine Term.sub ⟨.plain i, d⟩ ⟨.plain j, e⟩).map toNumber = .ok (.fraction ((i : ℚ) / d - j / e)) := by
  have hg : 0 < Nat.gcd d e := Nat.gcd_pos_of_pos_left e hd
  have hexact : ((i * (e / Nat.gcd d e : Nat) - j * (d / Nat.gcd d e : Nat) : Int) : ℚ) / (d / Nat.gcd d e * e : Nat) =
      (i : ℚ) / d - j / e := by
    obtain ⟨s, hs⟩ := Nat.gcd_dvd_left d e
    obtain ⟨k, hk⟩ := Nat.gcd_dvd_right d e
    generalize Nat.gcd d e = g at *
    subst hs hk
    rw [Nat.mul_div_cancel_left s hg, Nat.mul_div_cancel_left k hg]
    have hs : (s : ℚ) ≠ 0 := Nat.cast_ne_zero.mpr (Nat.pos_of_mul_pos_left hd).ne'
    have hk : (k : ℚ) ≠ 0 := Nat.cast_ne_zero.mpr (Nat.pos_of_mul_pos_left he).ne'
    have hg : (g : ℚ) ≠ 0 := Nat.cast_ne_zero.mpr hg.ne'
    push_cast
    field_simp
  rw [combine_sub_eq, ← hexact, Except.map]
  split
  · exact congrArg (Except.ok ∘ Number.fraction) (Rat.mkRat_eq_div _ _)
  · refine congrArg (Except.ok ∘ Number.fraction) (mkRat_cancel (Nat.gcd_pos_of_pos_right _ hg) ?_ ?_ _)
    · exact Int.natCast_dvd.mpr (Nat.gcd_dvd_left _ _)
    · exact (Nat.gcd_dvd_right _ _).trans (Nat.gcd_dvd_right d e)

end Quotient

namespace Number

variable {a b n w : Number} {p q r : ℚ}

theorem sub_of_rational? (ha : a.rational? = some p) (hb : b.rational? = some q) :
    ∃ w, sub b a = .ok w ∧ w.rational? = some (q - p) := by
  have whole {j i : Int} (h : sub b a = .ok (int (j - i))) (hj : (j : ℚ) = q) (hi : (i : ℚ) = p) :
      ∃ w, sub b a = .ok w ∧ w.rational? = some (q - p) := by
    refine ⟨_, h, ?_⟩
    rw [← hj, ← hi, ← Int.cast_sub]
    rfl
  have quotient {j i : Int} {e d : Nat} (he : 0 < e) (hd : 0 < d) (hj : (j : ℚ) / e = q) (hi : (i : ℚ) / d = p)
      (h : sub b a = (Quotient.combine Term.sub ⟨.plain j, e⟩ ⟨.plain i, d⟩).map Quotient.toNumber) :
      ∃ w, sub b a = .ok w ∧ w.rational? = some (q - p) := by
    rw [Quotient.combine_sub j i he hd, hj, hi] at h
    exact ⟨_, h, rfl⟩
  have one (i : Int) : (i : ℚ) / (1 : Nat) = i := by rw [Nat.cast_one, div_one]
  cases a with
  | bool i | int i =>
    have hi := Option.some.inj ha
    cases b with
    | bool j | int j => exact whole rfl (Option.some.inj hb) hi
    | fraction y =>
      have hy := (Rat.num_div_den y).trans (Option.some.inj hb)
      exact quotient y.den_pos Nat.one_pos hy ((one _).trans hi) rfl
    | _ => cases hb
  | fraction x =>
    have hx := (Rat.num_div_den x).trans (Option.some.inj ha)
    cases b with
    | bool j | int j => exact quotient Nat.one_pos x.den_pos ((one _).trans (Option.some.inj hb)) hx rfl
    | fraction y => exact quotient y.den_pos x.den_pos ((Rat.num_div_den y).trans (Option.some.inj hb)) hx rfl
    | _ => cases hb
  | _ => cases ha

theorem sub_float (ha : a.isReal = true) (hb : b.isReal = true) (h : (∃ x, a = float x) ∨ ∃ y, b = float y) :
    sub b a = b.toDouble >>= fun y => a.toDouble >>= fun x => .ok (float (y - x)) := by
  rcases h with ⟨x, rfl⟩ | ⟨y, rfl⟩
  · cases b <;> first | rfl | cases hb
  · exact float_sub y ha

/-- A difference is exact, or it is a double. -/
theorem sub_cases (ha : a.isReal = true) (hb : b.isReal = true) (h : sub b a = .ok w) :
    (∃ p q, a.rational? = some p ∧ b.rational? = some q ∧ w.rational? = some (q - p)) ∨
      (((∃ x, a = float x) ∨ ∃ y, b = float y) ∧ ∃ z, w = float z) := by
  rcases isReal_pair ha hb with ⟨p, q, hp, hq⟩ | hf
  · obtain ⟨v, hv, hvr⟩ := sub_of_rational? hp hq
    rw [h] at hv
    rw [← Except.ok.inj hv] at hvr
    exact .inl ⟨p, q, hp, hq, hvr⟩
  · rw [sub_float ha hb hf] at h
    obtain ⟨y, _, h⟩ := bind_ok h
    obtain ⟨x, _, h⟩ := bind_ok h
    exact .inr ⟨hf, _, (Except.ok.inj h).symm⟩

theorem isReal_of_sub (ha : a.isReal = true) (hb : b.isReal = true) (h : sub b a = .ok w) : w.isReal = true := by
  rcases sub_cases ha hb h with ⟨p, q, _, _, hw⟩ | ⟨_, z, rfl⟩
  · exact isReal_of_rational? hw
  · rfl

end Number

end StreamStat
