import StreamStat.Proofs.DistributionFunction
import StreamStat.Proofs.DoubleSums
import StreamStat.Proofs.NumberDoubles

/-!
# Which domains are accepted

Doubles span a domain if their rounded difference is finite and more than `2 ^ -1024`; from
there down its reciprocal overflows. Every other difference has one of the two faults, and which
one depends on the difference only. Bounds of other kinds are taken as doubles, so that what is
accepted is in order exactly, and what is in order exactly is not taken to be reversed.
-/

namespace StreamStat

open Double Value

namespace Double

/-! ## Reciprocals -/

/-- The widest width whose reciprocal overflows. -/
def narrow : Double := ofRat (mkRat 1 (2 ^ 1024))

theorem isNaN_narrow : narrow.isNaN = false := isNaN_ofRat _

theorem level_narrow : narrow.level = (2 ^ 50 : Nat) := by decide +kernel

theorem units_sq : unitsPerOne * unitsPerOne = 2 ^ 50 * limit := by
  have h (e k : Nat) (hk : e + e = 50 + k) : 2 ^ e * 2 ^ e = 2 ^ 50 * 2 ^ k := by
    rw [← Nat.pow_add, ← Nat.pow_add, hk]
  rw [unitsPerOne, limit, BinaryFormat.limit_eq]
  exact h _ _ rfl

/-- The magnitude of the greatest double is as near to the limit as that. -/
theorem exists_greatest : ∃ g, BinaryFormat.double.Holds g ∧ 2 ^ 50 * limit ≤ g * (2 ^ 50 + 1) := by
  have h (k : Nat) (hk : 53 + k = BinaryFormat.double.ceiling) :
      BinaryFormat.double.Holds ((2 ^ 53 - 1) * 2 ^ k) ∧ 2 ^ 50 * limit ≤ (2 ^ 53 - 1) * 2 ^ k * (2 ^ 50 + 1) := by
    refine ⟨BinaryFormat.double.holds_mul_two_pow (by decide) (by decide) (Nat.zero_le k) (Nat.le_of_eq hk), ?_⟩
    rw [limit, BinaryFormat.limit_eq, ← hk, Nat.pow_add, ← Nat.mul_assoc, Nat.mul_right_comm _ (2 ^ k)]
    exact Nat.mul_le_mul_right _ (by decide)
  exact ⟨_, h 2045 rfl⟩

section
variable {w : Double} (hf : w.isFinite = true) (hpos : 0 < w.level)
include hf hpos

theorem level_reciprocal :
    (1 / w).isNaN = false ∧ (1 / w).level = nearest ((2 ^ 50 * limit : Nat) / (w.level.toNat : ℚ)) := by
  have h := div_of_isFinite (isFinite_whole (n := 1) (by decide)) hf (ne_of_gt hpos)
  refine ⟨h.1, h.2.trans ?_⟩
  have hl : (w.level : ℚ) = (w.level.toNat : ℚ) := by
    rw [← Int.cast_natCast, Int.toNat_of_nonneg hpos.le]
  rw [level_whole (n := 1) (by decide), ← units_sq, hl]
  push_cast
  rw [one_mul]

theorem reciprocal_pos : 0 < (1 / w).level := by
  have hlt := (level_bounds w).2
  have h : nearest ((1 : Int) : ℚ) ≤ (1 / w).level := by
    rw [(level_reciprocal hf hpos).2]
    apply nearest_mono
    rw [le_div_iff₀ (by exact_mod_cast (by omega : 0 < w.level.toNat))]
    have : w.level.toNat ≤ 2 ^ 50 * limit := by omega
    rw [Int.cast_one, one_mul]
    exact_mod_cast this
  have hone : nearest ((1 : Nat) : ℚ) = (1 : Nat) := nearest_of_holds (by decide +kernel)
  push_cast at h hone
  omega

/-- Reciprocals overflow up to `2 ^ -1024`, and not beyond. -/
theorem isFinite_reciprocal : (1 / w).isFinite = true ↔ (2 ^ 50 : Nat) < w.level := by
  obtain ⟨hn, hlevel⟩ := level_reciprocal hf hpos
  have hp := reciprocal_pos hf hpos
  have hw : (0 : ℚ) < w.level.toNat := by exact_mod_cast (by omega : 0 < w.level.toNat)
  rw [isFinite_iff hn]
  constructor
  · intro h
    by_contra hle
    have hge : nearest limit ≤ (1 / w).level := by
      rw [hlevel]
      apply nearest_mono
      rw [le_div_iff₀ hw]
      have : limit * w.level.toNat ≤ 2 ^ 50 * limit := by
        rw [Nat.mul_comm]
        exact Nat.mul_le_mul_right _ (by omega)
      exact_mod_cast this
    rw [nearest_limit] at hge
    omega
  · intro h
    obtain ⟨g, hg, hlimit⟩ := exists_greatest
    have hle : (1 / w).level ≤ nearest g := by
      rw [hlevel]
      apply nearest_mono
      rw [div_le_iff₀ hw]
      have : 2 ^ 50 * limit ≤ g * w.level.toNat := hlimit.trans (Nat.mul_le_mul_left _ (by omega))
      exact_mod_cast this
    rw [nearest_of_holds hg] at hle
    have := lt_limit hg
    omega

end

end Double

/-! ## What a width is taken for -/

structure SortedByWidth {α : Type} (r : Except Fault α) (w : Double) : Prop where
  accepted : (∃ a, r = .ok a) ↔ narrow < w ∧ w < inf false
  degenerate : (∃ c, r = .error (.degenerate c)) ↔ 0 ≤ w ∧ w ≤ narrow
  refused : (∃ c, r = .error (.argument c)) ↔ ¬ (0 ≤ w ∧ w < inf false)

theorem SortedByWidth.map {α β : Type} {r : Except Fault α} {w : Double} (h : SortedByWidth r w) (f : α → β) :
    SortedByWidth (r.map f) w := by
  refine ⟨Iff.trans ?_ h.accepted, Iff.trans ?_ h.degenerate, Iff.trans ?_ h.refused⟩ <;>
    cases r <;> simp [Except.map]

theorem SortedByWidth.of_level {α : Type} {r : Except Fault α} {w : Double} (hn : w.isNaN = false)
    (haccepted : (∃ a, r = .ok a) ↔ (2 ^ 50 : Nat) < w.level ∧ w.level < limit)
    (hdegenerate : (∃ c, r = .error (.degenerate c)) ↔ 0 ≤ w.level ∧ w.level ≤ (2 ^ 50 : Nat))
    (hrefused : (∃ c, r = .error (.argument c)) ↔ ¬ (0 ≤ w.level ∧ w.level < limit)) : SortedByWidth r w := by
  have hzero : 0 ≤ w ↔ 0 ≤ w.level := by
    rw [← level_zero]
    exact le_iff isNaN_zero hn
  have hinf : w < inf false ↔ w.level < limit := lt_iff hn rfl
  have hwide : narrow < w ↔ (2 ^ 50 : Nat) < w.level := by
    rw [← level_narrow]
    exact lt_iff isNaN_narrow hn
  have hthin : w ≤ narrow ↔ w.level ≤ (2 ^ 50 : Nat) := by
    rw [← level_narrow]
    exact le_iff hn isNaN_narrow
  refine ⟨?_, ?_, ?_⟩
  · rwa [hwide, hinf]
  · rwa [hzero, hthin]
  · rwa [hzero, hinf]

section
variable (l u : Double) (i j : Nat)

/-- The exits are taken in this order, and each leaves a smaller range of widths. -/
theorem checkedWidth_sorted :
    SortedByWidth (checkedWidth (number (.float l) i) (number (.float u) j)) (u - l) := by
  rw [checkedWidth_float]
  generalize u - l = w
  by_cases hnan : w.isNaN = true
  · cases w with
    | nan =>
      refine ⟨iff_of_false (by simp [isFinite]) ?_, iff_of_false (by simp [isFinite]) ?_, iff_of_true ⟨_, rfl⟩ ?_⟩
      · intro h
        cases h.2
      · intro h
        cases h.2
      · intro h
        cases h.2
    | _ => cases hnan
  · have hn : w.isNaN = false := by simpa using hnan
    have hpos := limit_pos
    have hnarrow : ((2 ^ 50 : Nat) : Int) < limit := by
      rw [← level_narrow]
      exact ((isFinite_iff isNaN_narrow).mp (by decide +kernel)).2
    by_cases hf : w.isFinite = true
    · have hlevel := (isFinite_iff hn).mp hf
      rw [hf, Bool.not_true, if_neg Bool.false_ne_true]
      by_cases hz : w.level = 0
      · rw [if_pos ((eq_zero_iff hn).mpr hz)]
        refine .of_level hn ?_ ?_ ?_ <;> simp <;> omega
      · rw [if_neg (mt (eq_zero_iff hn).mp hz)]
        by_cases hneg : w.level < 0
        · rw [if_pos ((lt_zero_iff hn).mpr hneg)]
          refine .of_level hn ?_ ?_ ?_ <;> simp <;> omega
        · rw [if_neg (mt (lt_zero_iff hn).mp hneg)]
          have hrec := isFinite_reciprocal hf (by omega)
          by_cases hover : (1 / w).isFinite = true
          · have := hrec.mp hover
            rw [hover, Bool.not_true, if_neg Bool.false_ne_true]
            refine .of_level hn ?_ ?_ ?_ <;> simp <;> omega
          · have := mt hrec.mpr hover
            rw [Bool.not_eq_true] at hover
            rw [hover, Bool.not_false, if_pos rfl]
            refine .of_level hn ?_ ?_ ?_ <;> simp <;> omega
    · have hlevel := mt (isFinite_iff hn).mpr hf
      rw [Bool.not_eq_true] at hf
      rw [hf, Bool.not_false, if_pos rfl]
      refine .of_level hn ?_ ?_ ?_ <;> simp <;> omega

theorem Density.ofBounds_eq_map :
    Density.ofBounds (number (.float l) i) (number (.float u) j) =
      (checkedWidth (number (.float l) i) (number (.float u) j)).map fun _ =>
        ⟨number (.float l) i, number (.float u) j, ofNumber (.float (1 / (u - l)))⟩ := by
  cases h : checkedWidth (number (.float l) i) (number (.float u) j) with
  | error e => simp only [ofBounds, h, bind, Except.bind, Except.map]
  | ok w => exact Density.ofBounds_float.mpr ⟨(checkedWidth_iff.mp h).1, rfl⟩

theorem UniformDistribution.onDomain_eq_map (domain : Range) :
    onDomain domain (number (.float l) i) (number (.float u) j) =
      (checkedWidth (number (.float l) i) (number (.float u) j)).map fun w =>
        ⟨domain, ⟨number (.float l) i, number (.float u) j, ofNumber (.float (1 / (u - l)))⟩,
          ⟨number (.float l) i, number (.float u) j, w⟩⟩ := by
  unfold onDomain Cumulative.ofBounds
  rw [Density.ofBounds_eq_map]
  cases checkedWidth (number (.float l) i) (number (.float u) j) <;> rfl

end

/-! ## Bounds of all kinds -/

namespace UniformDistribution

variable (a b : Number) (i j : Nat)

theorem toFloat_number (n : Number) (i : Nat) :
    ∃ k, (number n i).toFloat = n.toDouble.map fun x => number (.float x) k := by
  cases n with
  | float x => exact ⟨i, rfl⟩
  | _ => exact ⟨0, rfl⟩

/-- Bounds are taken as doubles, the lower one first. -/
theorem ofBounds_number :
    ∃ k m, ofBounds (number a i) (number b j) =
      a.toDouble >>= fun l => b.toDouble >>= fun u =>
        onDomain ⟨number a i, number b j, rfl, rfl⟩ (number (.float l) k) (number (.float u) m) := by
  obtain ⟨k, hk⟩ := toFloat_number a i
  obtain ⟨m, hm⟩ := toFloat_number b j
  refine ⟨k, m, ?_⟩
  show ofRange ⟨number a i, number b j, rfl, rfl⟩ = _
  simp only [ofRange, hk, hm]
  cases a.toDouble with
  | error e => rfl
  | ok l => cases b.toDouble <;> rfl

variable {a b i j}

theorem ofBounds_number_ok {d : UniformDistribution} (h : ofBounds (number a i) (number b j) = .ok d) :
    ∃ l u k m, a.toDouble = .ok l ∧ b.toDouble = .ok u ∧ Spans l u ∧
      d = ⟨⟨number a i, number b j, rfl, rfl⟩,
        ⟨number (.float l) k, number (.float u) m, ofNumber (.float (1 / (u - l)))⟩,
        ⟨number (.float l) k, number (.float u) m, ofNumber (.float (u - l))⟩⟩ := by
  obtain ⟨k, m, heq⟩ := ofBounds_number a b i j
  rw [heq] at h
  obtain ⟨l, hl, h⟩ := bind_ok h
  obtain ⟨u, hu, h⟩ := bind_ok h
  rw [onDomain_eq_map] at h
  cases hw : checkedWidth (number (.float l) k) (number (.float u) m) with
  | error e => rw [hw] at h; cases h
  | ok w =>
    obtain ⟨hs, rfl⟩ := checkedWidth_iff.mp hw
    rw [hw] at h
    exact ⟨l, u, k, m, hl, hu, hs, (Except.ok.inj h).symm⟩

/-- Bounds fail because they have no doubles, or as their doubles do. -/
theorem ofBounds_number_error {e : Fault} (h : ofBounds (number a i) (number b j) = .error e) :
    ((a.toDouble = .error .overflow ∨ b.toDouble = .error .overflow) ∧ e = .overflow) ∨
      ∃ l u k m, a.toDouble = .ok l ∧ b.toDouble = .ok u ∧
        checkedWidth (number (.float l) k) (number (.float u) m) = .error e := by
  obtain ⟨k, m, heq⟩ := ofBounds_number a b i j
  rw [heq] at h
  cases hl : a.toDouble with
  | error f =>
    rw [hl] at h
    rw [← Except.error.inj h, Number.toDouble_error hl]
    exact .inl ⟨.inl rfl, rfl⟩
  | ok l =>
    cases hu : b.toDouble with
    | error f =>
      rw [hl, hu] at h
      rw [← Except.error.inj h, Number.toDouble_error hu]
      exact .inl ⟨.inr rfl, rfl⟩
    | ok u =>
      rw [hl, hu] at h
      have hmap : onDomain _ (number (.float l) k) (number (.float u) m) = .error e := h
      rw [onDomain_eq_map] at hmap
      cases hw : checkedWidth (number (.float l) k) (number (.float u) m) with
      | ok w => rw [hw] at hmap; cases hmap
      | error f =>
        rw [hw] at hmap
        rw [← Except.error.inj hmap]
        exact .inr ⟨l, u, k, m, rfl, rfl, hw⟩

theorem ofBounds_number_of_spans {l u : Double} (hl : a.toDouble = .ok l) (hu : b.toDouble = .ok u) (h : Spans l u) :
    ∃ d, ofBounds (number a i) (number b j) = .ok d := by
  obtain ⟨k, m, heq⟩ := ofBounds_number a b i j
  have hd := onDomain_eq_map l u k m ⟨number a i, number b j, rfl, rfl⟩
  rw [checkedWidth_iff.mpr ⟨h, rfl⟩] at hd
  rw [heq, hl, hu]
  exact ⟨_, hd⟩

theorem level_lt_of_spans {l u : Double} (h : Spans l u) : l.level < u.level := by
  obtain ⟨hu, hl⟩ := isFinite_of_sub h.isFinite
  by_contra hle
  have hpos := h.pos
  rw [(sub_of_isFinite hu hl).2] at hpos
  have hneg : (u.level : ℚ) - l.level ≤ 0 := by
    rw [sub_nonpos]
    exact_mod_cast not_lt.mp hle
  have := nearest_mono hneg
  rw [nearest_zero] at this
  omega

theorem related_lt_of_accepted {d : UniformDistribution} (h : ofBounds (number a i) (number b j) = .ok d) :
    Number.related .lt a b = true := by
  obtain ⟨l, u, k, m, hl, hu, hs, rfl⟩ := ofBounds_number_ok h
  obtain ⟨hfu, hfl⟩ := isFinite_of_sub hs.isFinite
  exact Number.related_lt_of_toDouble hl hu (isNaN_of_isFinite hfl) (isNaN_of_isFinite hfu) (level_lt_of_spans hs)

theorem width_of_reversed {l u : Double} {k m : Nat} {s t : String}
    (h : checkedWidth (number (.float l) k) (number (.float u) m) = .error (.argument (.reversedBounds s t))) :
    (u - l).isFinite = true ∧ (u - l).lt 0 = true := by
  rw [checkedWidth_float] at h
  split at h
  · cases h
  · rename_i hf
    rw [Bool.not_eq_true', Bool.not_eq_false] at hf
    split at h
    · cases h
    · split at h
      · rename_i hneg
        exact ⟨hf, hneg⟩
      · split at h <;> cases h

theorem not_reversed_of_related_lt (h : Number.related .lt a b = true) (s t : String) :
    ofBounds (number a i) (number b j) ≠ .error (.argument (.reversedBounds s t)) := by
  intro hrev
  rcases ofBounds_number_error hrev with ⟨_, hoverflow⟩ | ⟨l, u, k, m, hl, hu, hw⟩
  · cases hoverflow
  · obtain ⟨hf, hneg⟩ := width_of_reversed hw
    obtain ⟨hfu, hfl⟩ := isFinite_of_sub hf
    have hle := (Number.toDouble_le hl hu (Number.related_le_of_lt h)).2.2
    have hge : nearest 0 ≤ (u - l).level := by
      rw [(sub_of_isFinite hfu hfl).2]
      apply nearest_mono
      rw [sub_nonneg]
      exact_mod_cast hle
    rw [nearest_zero] at hge
    have := (lt_zero_iff (isNaN_of_isFinite hf)).mp hneg
    omega

/-- Doubles are accepted as bounds of the two functions if and only if their difference is finite
and more than `2 ^ -1024`; they are degenerate from zero up to there, and refused otherwise. A
distribution on bounds of any kinds has them in order exactly, and bounds that are in order
exactly are never refused as reversed. -/
theorem validation_exact (l u : Double) (a b : Number) (i j : Nat) :
    SortedByWidth (Density.ofBounds (number (.float l) i) (number (.float u) j)) (u - l) ∧
      SortedByWidth (Cumulative.ofBounds (number (.float l) i) (number (.float u) j)) (u - l) ∧
      (∀ p, Density.ofBounds (number (.float l) i) (number (.float u) j) = .ok p →
        ∃ y, p.density = ofNumber (.float y) ∧ y.isFinite = true ∧ 0 < y) ∧
      (∀ c, Cumulative.ofBounds (number (.float l) i) (number (.float u) j) = .ok c →
        c.divisor = ofNumber (.float (u - l))) ∧
      (∀ d, ofBounds (number a i) (number b j) = .ok d → Number.related .lt a b = true) ∧
      (Number.related .lt a b = true →
        ∀ s t, ofBounds (number a i) (number b j) ≠ .error (.argument (.reversedBounds s t))) := by
  have hcheck := checkedWidth_sorted l u i j
  refine ⟨?density, hcheck.map _, ?height, ?divisor, fun d hd => related_lt_of_accepted hd,
    not_reversed_of_related_lt⟩
  case density =>
    rw [Density.ofBounds_eq_map]
    exact hcheck.map _
  case height =>
    intro p hp
    obtain ⟨hs, rfl⟩ := Density.ofBounds_float.mp hp
    exact ⟨_, rfl, hs.wide, (Double.pos_iff (isNaN_of_isFinite hs.wide)).mpr (reciprocal_pos hs.isFinite hs.pos)⟩
  case divisor =>
    intro c hc
    obtain ⟨_, rfl⟩ := Cumulative.ofBounds_float.mp hc
    rfl

def thirdToHalf : Number × Number := (.fraction (1 / 3), .decimal (.finite false 5 (-1)))

theorem ofBounds_thirdToHalf : ∃ d, ofBounds (number thirdToHalf.1 2) (number thirdToHalf.2 3) = .ok d := by
  have hs : Spans (.ofRat (1 / 3)) (.ofRat (1 / 2)) := ⟨by decide +kernel, by decide +kernel, by decide +kernel⟩
  exact ofBounds_number_of_spans (by decide +kernel) (by decide +kernel) hs

theorem validation_exact_of_narrowest :
    (∃ c, Density.ofBounds (number (.float 0) 2) (number (.float narrow) 3) = .error (.degenerate c)) ∧
      (∃ c, Cumulative.ofBounds (number (.float 0) 2) (number (.float narrow) 3) = .error (.degenerate c)) ∧
      Number.related .lt thirdToHalf.1 thirdToHalf.2 = true ∧
      ∀ s t, ofBounds (number thirdToHalf.1 2) (number thirdToHalf.2 3) ≠ .error (.argument (.reversedBounds s t)) := by
  obtain ⟨hp, hc, _, _, haccepted, hreversed⟩ := validation_exact 0 narrow thirdToHalf.1 thirdToHalf.2 2 3
  have hwidth : 0 ≤ narrow - 0 ∧ narrow - 0 ≤ narrow := ⟨by decide +kernel, by decide +kernel⟩
  obtain ⟨d, hd⟩ := ofBounds_thirdToHalf
  have hlt := haccepted d hd
  exact ⟨hp.degenerate.mpr hwidth, hc.degenerate.mpr hwidth, hlt, hreversed hlt⟩

end UniformDistribution

end StreamStat
