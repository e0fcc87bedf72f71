import StreamStat.Proofs.ConstructorFaults

/-!
# The two functions on integers

Integers that are bounds of the two functions stay integers: a single point is compared with them
exactly, while arrays, and the ramp at every point, take them as doubles. An integer that is no
double lies on one side of its double, and which side decides what remains of the laws.
-/

namespace StreamStat

open Double Value Number

/-- Integers whose doubles, and the double of whose difference, are finite, in order. -/
structure WholeSpan (m M : Int) : Prop where
  lower : (Double.ofInt m).isFinite = true
  upper : (Double.ofInt M).isFinite = true
  divisor : (Double.ofInt (M - m)).isFinite = true
  pos : 0 < (Double.ofInt (M - m)).level

namespace WholeSpan

variable {m M : Int} (h : WholeSpan m M)
include h

theorem rises : Rises (Double.ofInt m) (Double.ofInt (M - m)) := ⟨h.lower, h.divisor, h.pos⟩

theorem exactLevel_lt : exactLevel m < exactLevel M := by
  by_contra hle
  have hpos := h.pos
  rw [level_ofInt, exactLevel_sub] at hpos
  have := nearest_mono_int (by omega : exactLevel M - exactLevel m ≤ 0)
  rw [Int.cast_zero, nearest_zero] at this
  omega

end WholeSpan

/-! ## The density -/

def Value.IsPoints (v : Value) : Prop :=
  ∃ shape, v.shape = .ok shape ∧ shape ≠ [] ∧ ∀ w ∈ v.leaves, ∃ x, w.toDouble = .ok x

namespace Density

theorem alike_height {e : Double} (he : e.isFinite = true) (hpos : 0 < e) (b c : Bool)
    (h : (if b then e else 0).alike (if c then e else 0) = true) : b = c := by
  have hn := isNaN_of_isFinite he
  have hlevel := (Double.pos_iff hn).mp hpos
  cases b <;> cases c <;> first | rfl | skip
  · have := (level_of_alike (x := 0) (y := e) h hn).2
    rw [level_zero] at this
    omega
  · have := (level_of_alike (x := e) (y := 0) h isNaN_zero).2
    rw [level_zero] at this
    omega

section
variable {a b : Number} {l u e : Double} (ha : a.isReal = true) (hb : b.isReal = true)
  (hl : a.gridBound = .ok (.float l)) (hu : b.gridBound = .ok (.float u)) (i j k : Nat)
include ha hb hl hu

/-- Arrays agree with single points if and only if it makes no difference to round the bounds. -/
theorem itemwise_iff (he : e.isFinite = true) (hpos : 0 < e) :
    (∀ v : Value, v.IsPoints → Itemwise (apply ⟨number a i, number b j, number (.float e) k⟩) v) ↔
      ∀ x, isWithin a b x = isInside l u x := by
  constructor
  · intro h x
    let v := list [number (.float x) 0] 0
    have hs : v.shape = .ok [1] := rfl
    have hleaves : v.leaves = [number (.float x) 0] := by simp [v, leaves, leavesAll]
    have hpoint : (number (.float x) 0).toDouble = .ok x := rfl
    obtain ⟨g, hg, _, _, hcells⟩ := h v ⟨[1], hs, by simp, by simp [hleaves, hpoint]⟩
    have hv : v.toPoints = .ok ⟨[1], [x]⟩ := rfl
    rw [apply_of_toPoints e i j k hl hu hs (by simp) hv] at hg
    rw [← (Value.array.inj (Except.ok.inj hg)).1, hleaves] at hcells
    obtain ⟨⟨y, z, k', hy, hz, halike⟩, _⟩ := List.forall₂_cons.mp hcells
    obtain ⟨k'', hm⟩ := apply_of_isReal e i j k ha hb hpoint
    rw [hm] at hy
    rw [← Number.float.inj (Value.number.inj (Except.ok.inj hy)).1, ← (Number.machineFloat.inj hz).2] at halike
    exact alike_height he hpos _ _ halike
  · rintro hagree v ⟨shape, hs, hne, hv⟩
    exact itemwise_of_isReal e i j k hl hu ha hb hagree hs hne hv

end

section
variable {m M : Int} (h : WholeSpan m M)
include h

theorem isWithin_int {x : Double} (hx : x.isNaN = false) :
    isWithin (.int m) (.int M) x = true ↔ exactLevel m ≤ x.level ∧ x.level ≤ exactLevel M := by
  rw [isWithin, (related_of_level h.lower hx .le).2, (related_of_level h.upper hx .le).1]
  simp [Relation.ofInt]

/-- The rounded bounds are no other bounds if they are not outside of the integers. -/
theorem isWithin_eq_isInside_iff :
    (∀ x, isWithin (.int m) (.int M) x = isInside (Double.ofInt m) (Double.ofInt M) x) ↔
      related .le (.int m) (.float (Double.ofInt m)) = true ∧
        related .le (.float (Double.ofInt M)) (.int M) = true := by
  have hnm := isNaN_of_isFinite h.lower
  have hnM := isNaN_of_isFinite h.upper
  constructor
  · intro hagree
    have hle : (Double.ofInt m).level ≤ (Double.ofInt M).level := by
      rw [level_ofInt, level_ofInt]
      exact nearest_mono_int h.exactLevel_lt.le
    have hlow := hagree (Double.ofInt m)
    have hhigh := hagree (Double.ofInt M)
    rw [(isInside_iff hnm hnM hnm).mpr ⟨le_refl _, hle⟩, isWithin, Bool.and_eq_true] at hlow
    rw [(isInside_iff hnm hnM hnM).mpr ⟨hle, le_refl _⟩, isWithin, Bool.and_eq_true] at hhigh
    exact ⟨hlow.1, hhigh.2⟩
  · rw [(related_of_level h.lower hnm .le).2, (related_of_level h.upper hnM .le).1]
    simp only [Relation.ofInt, decide_eq_true_eq]
    rintro ⟨hlow, hhigh⟩ x
    by_cases hx : x.isNaN = true
    · cases x with
      | nan =>
        have hle : Relation.le ≠ .ne := by decide
        rw [isWithin, isInside, (related_nan _ hle).2, (related_nan _ hle).2, Bool.false_and, Bool.false_and]
      | _ => cases hx
    · rw [Bool.not_eq_true] at hx
      rw [Bool.eq_iff_iff, isWithin_int h hx, isInside_iff hnm hnM hx]
      constructor
      · rintro ⟨h1, h2⟩
        exact ⟨(level_ofInt_of_level h.lower hx).2 h1, (level_ofInt_of_level h.upper hx).1 h2⟩
      · rintro ⟨h1, h2⟩
        exact ⟨hlow.trans h1, h2.trans hhigh⟩

end

end Density

/-! ## The cumulative function -/

namespace Cumulative

section
variable {m M : Int} (h : WholeSpan m M) {x : Double} (hx : x.isNaN = false)
include h hx

theorem ramp_nonneg (hmx : exactLevel m ≤ x.level) : 0 ≤ (ramp (Double.ofInt m) (Double.ofInt (M - m)) x).level := by
  have := ramp_mono h.rises (isNaN_of_isFinite h.lower) hx ((level_ofInt_of_level h.lower hx).2 hmx)
  rwa [level_ramp_lower h.rises] at this

theorem ramp_nonpos (hxm : x.level ≤ exactLevel m) : (ramp (Double.ofInt m) (Double.ofInt (M - m)) x).level ≤ 0 := by
  have := ramp_mono h.rises hx (isNaN_of_isFinite h.lower) ((level_ofInt_of_level h.lower hx).1 hxm)
  rwa [level_ramp_lower h.rises] at this

/-- The ramp does not rise beyond one if the lower bound is not rounded down. -/
theorem ramp_le_one (hlow : exactLevel m ≤ (Double.ofInt m).level) (hmx : exactLevel m ≤ x.level)
    (hxM : x.level ≤ exactLevel M) : (ramp (Double.ofInt m) (Double.ofInt (M - m)) x).level ≤ unitsPerOne := by
  have hm := exactLevel_bounds h.lower
  have hM := exactLevel_bounds h.upper
  have hsub := sub_of_isFinite ((isFinite_iff hx).mpr (by omega)) h.lower
  have hle : (x - Double.ofInt m).level ≤ (Double.ofInt (M - m)).level := by
    rw [hsub.2, level_ofInt (M - m), exactLevel_sub]
    apply nearest_mono
    exact_mod_cast (by omega : x.level - (Double.ofInt m).level ≤ exactLevel M - exactLevel m)
  have := div_mono hsub.1 (isNaN_of_isFinite h.divisor) h.divisor h.pos hle
  rwa [level_div_self h.divisor h.pos] at this

/-- The ramp has risen to one at the upper bound if the lower bound is not rounded up. -/
theorem one_le_ramp (hlow : (Double.ofInt m).level ≤ exactLevel m) (hMx : exactLevel M ≤ x.level) :
    unitsPerOne ≤ (ramp (Double.ofInt m) (Double.ofInt (M - m)) x).level := by
  have hM := exactLevel_bounds h.upper
  by_cases hf : x.isFinite = true
  · have hsub := sub_of_isFinite hf h.lower
    have hle : (Double.ofInt (M - m)).level ≤ (x - Double.ofInt m).level := by
      rw [hsub.2, level_ofInt (M - m), exactLevel_sub]
      apply nearest_mono
      exact_mod_cast (by omega : exactLevel M - exactLevel m ≤ x.level - (Double.ofInt m).level)
    have := div_mono (isNaN_of_isFinite h.divisor) hsub.1 h.divisor h.pos hle
    rwa [level_div_self h.divisor h.pos] at this
  · cases x with
    | nan => cases hx
    | finite a k => exact absurd rfl hf
    | inf a =>
      rw [ramp, inf_sub h.lower, inf_div h.divisor h.pos]
      have := (level_bounds 1).2
      rw [level_one] at this
      cases a with
      | false => exact this
      | true =>
        simp only [level, if_true] at hMx
        omega

theorem stepBetween_int (l d : Double) :
    stepBetween (.int m) (.int M) l d x =
      if x.level < exactLevel m then 0 else if exactLevel M < x.level then 1 else ramp l d x := by
  rw [stepBetween, (related_of_level h.lower hx .lt).1, (related_of_level h.upper hx .lt).2]
  simp [Relation.ofInt]

theorem level_stepBetween :
    let y := stepBetween (.int m) (.int M) (Double.ofInt m) (Double.ofInt (M - m)) x
    y.isNaN = false ∧ 0 ≤ y.level ∧ (exactLevel m ≤ (Double.ofInt m).level → y.level ≤ unitsPerOne) := by
  intro y
  have hu : (0 : Int) < unitsPerOne := by exact_mod_cast unitsPerOne_pos
  have hy : y = _ := stepBetween_int h hx _ _
  rw [hy]
  split
  · rw [level_zero]
    exact ⟨isNaN_zero, le_refl _, fun _ => hu.le⟩
  · split
    · rw [level_one]
      exact ⟨isNaN_one, hu.le, fun _ => le_refl _⟩
    · exact ⟨isNaN_ramp h.rises hx, ramp_nonneg h hx (by omega), fun hlow => ramp_le_one h hx hlow (by omega) (by omega)⟩

end

structure IntegerLaws (m M : Int) (F : Double → Double) : Prop where
  below : ∀ x, related .lt (.float x) (.int m) = true → F x = 0
  above : ∀ x, related .lt (.int M) (.float x) = true → F x = 1
  nonneg : ∀ x, x.isNaN = false → 0 ≤ F x
  /-- The lower bound is not rounded down. -/
  le_one : related .le (.int m) (.float (Double.ofInt m)) = true → ∀ x, x.isNaN = false → F x ≤ 1
  /-- The lower bound is a double. -/
  eq_one : related .eq (.int m) (.float (Double.ofInt m)) = true →
    ∀ x, related .eq (.float x) (.int M) = true → (F x).eq 1 = true

theorem laws_stepBetween {m M : Int} (h : WholeSpan m M) :
    IntegerLaws m M (stepBetween (.int m) (.int M) (Double.ofInt m) (Double.ofInt (M - m))) := by
  have hnm := isNaN_of_isFinite h.lower
  have hlt := h.exactLevel_lt
  have hnan {x : Double} {rel : Relation} (hne : rel ≠ .ne) (n : Number) :
      related rel (.float x) n = true ∨ related rel n (.float x) = true → x.isNaN = false := by
    cases x with
    | nan => simp [(related_nan n hne).1, (related_nan n hne).2]
    | _ => exact fun _ => rfl
  refine ⟨?below, ?above, ?nonneg, ?le_one, ?eq_one⟩
  case below =>
    intro x hx
    exact if_pos hx
  case above =>
    intro x hx
    have hn := hnan (by decide) _ (.inr hx)
    rw [(related_of_level h.upper hn .lt).2] at hx
    simp only [Relation.ofInt, decide_eq_true_eq] at hx
    rw [stepBetween_int h hn, if_neg (by omega), if_pos hx]
  case nonneg =>
    intro x hx
    obtain ⟨hn, hnonneg, _⟩ := level_stepBetween h hx
    refine (le_iff isNaN_zero hn).mpr ?_
    rwa [level_zero]
  case le_one =>
    rw [(related_of_level h.lower hnm .le).2]
    simp only [Relation.ofInt, decide_eq_true_eq]
    intro hlow x hx
    obtain ⟨hn, _, hle⟩ := level_stepBetween h hx
    refine (le_iff hn isNaN_one).mpr ?_
    rw [level_one]
    exact hle hlow
  case eq_one =>
    rw [(related_of_level h.lower hnm .eq).2]
    simp only [Relation.ofInt, decide_eq_true_eq]
    intro hlow x hx
    have hn := hnan (by decide) _ (.inl hx)
    rw [(related_of_level h.upper hn .eq).1] at hx
    simp only [Relation.ofInt, decide_eq_true_eq] at hx
    rw [stepBetween_int h hn, if_neg (by omega), if_neg (by omega), eq_iff (isNaN_ramp h.rises hn) isNaN_one, level_one]
    have := ramp_le_one h hn hlow.le (by omega) hx.le
    have := one_le_ramp h hn hlow.ge hx.ge
    omega

/-- The ramp that is cut off agrees with the function on integers if the lower one is a double. -/
theorem alike_stepBetween {m M : Int} (h : WholeSpan m M)
    (hlow : related .eq (.int m) (.float (Double.ofInt m)) = true) (x : Double) :
    (stepBetween (.int m) (.int M) (Double.ofInt m) (Double.ofInt (M - m)) x).alike
      (clip (ramp (Double.ofInt m) (Double.ofInt (M - m)) x)) = true := by
  rw [(related_of_level h.lower (isNaN_of_isFinite h.lower) .eq).2] at hlow
  simp only [Relation.ofInt, decide_eq_true_eq] at hlow
  by_cases hx : x.isNaN = true
  · cases x with
    | nan =>
      have hlt : Relation.lt ≠ .ne := by decide
      have hramp : ramp (Double.ofInt m) (Double.ofInt (M - m)) nan = nan := rfl
      rw [stepBetween, (related_nan _ hlt).1, (related_nan _ hlt).2, hramp, clip_nan]
      rfl
    | _ => cases hx
  · rw [Bool.not_eq_true] at hx
    refine alike_cut (isNaN_ramp h.rises hx) ?_ ?_ ?_
    · rw [(related_of_level h.lower hx .lt).1]
      simp only [Relation.ofInt, decide_eq_true_eq]
      intro hbelow
      exact ramp_nonpos h hx hbelow.le
    · rw [(related_of_level h.upper hx .lt).2]
      simp only [Relation.ofInt, decide_eq_true_eq]
      intro _ habove
      exact one_le_ramp h hx hlow.ge habove.le
    · rw [(related_of_level h.lower hx .lt).1, (related_of_level h.upper hx .lt).2]
      simp only [Relation.ofInt, decide_eq_false_iff_not, not_lt]
      intro hbelow habove
      exact ⟨ramp_nonneg h hx hbelow, ramp_le_one h hx hlow.le hbelow habove⟩

end Cumulative

/-! ## Both functions -/

section
variable {m M : Int} (hm : (Double.ofInt m).isFinite = true) (hM : (Double.ofInt M).isFinite = true) {i j : Nat}

theorem gridBound_int {m : Int} (hm : (Double.ofInt m).isFinite = true) :
    (Number.int m).gridBound = .ok (.float (Double.ofInt m)) := by
  show (Double.ofInt m).bounded.map float = _
  rw [bounded_of_isFinite hm]
  rfl

include hm hM in
theorem Cumulative.ofBounds_int {c : Cumulative Value}
    (hc : ofBounds (number (.int m) i) (number (.int M) j) = .ok c) :
    WholeSpan m M ∧ c = ⟨number (.int m) i, number (.int M) j, ofNumber (.int (M - m))⟩ := by
  obtain ⟨w, y, hsub, hy, hf, hpos, rfl⟩ := Cumulative.ofBounds_ok rfl rfl i j hc
  have hw : w = .int (M - m) := (Except.ok.inj hsub).symm
  subst hw
  have hlevel := (Double.pos_iff (isNaN_of_isFinite hf)).mp hpos
  rw [bounded_eq_ok hy] at hf hlevel
  exact ⟨⟨hm, hM, hf, hlevel⟩, rfl⟩

/-- Two integers as bounds. Arrays agree with single points for the density if and only if neither
bound is rounded away from the other one. The cumulative function is zero below, one above and
never negative; it is not more than one if the lower bound is not rounded down, and arrays agree
and the upper bound is at one if the lower bound is not rounded at all. -/
theorem laws_of_integer_bounds (hm : (Double.ofInt m).isFinite = true) (hM : (Double.ofInt M).isFinite = true)
    {p : Density Value} {c : Cumulative Value}
    (hp : Density.ofBounds (number (.int m) i) (number (.int M) j) = .ok p)
    (hc : Cumulative.ofBounds (number (.int m) i) (number (.int M) j) = .ok c) (a b e : Nat) :
    ((∀ v : Value, v.IsPoints → Itemwise (p.kept a b e).apply v) ↔
        related .le (.int m) (.float (Double.ofInt m)) = true ∧
          related .le (.float (Double.ofInt M)) (.int M) = true) ∧
      (∃ F, (∀ v x, v.toDouble = .ok x → ∃ k, (c.kept a b e).apply v = .ok (number (.float (F x)) k)) ∧
        Cumulative.IntegerLaws m M F) ∧
      (related .eq (.int m) (.float (Double.ofInt m)) = true →
        ∀ v : Value, v.IsPoints → Itemwise (c.kept a b e).apply v) := by
  obtain ⟨h, rfl⟩ := Cumulative.ofBounds_int hm hM hc
  obtain ⟨y, rfl, hf, hpos⟩ := Density.ofBounds_ok rfl rfl i j hp
  have hz : ¬ (Double.ofInt (M - m)).eq 0 = true := by
    rw [eq_zero_iff (isNaN_of_isFinite h.divisor)]
    exact h.pos.ne'
  refine ⟨?density, ?single, ?arrays⟩
  case density =>
    obtain ⟨i', j', k', hkept⟩ := Density.kept_number (.int m) (.int M) (.float y) i j 0 a b e
    rw [ofNumber, hkept, Density.itemwise_iff rfl rfl (gridBound_int hm) (gridBound_int hM) i' j' k' hf hpos]
    exact Density.isWithin_eq_isInside_iff h
  case single =>
    obtain ⟨i', j', k', hkept⟩ := Cumulative.kept_number (.int m) (.int M) (.int (M - m)) i j 0 a b e
    refine ⟨_, fun v x hv => ?_, Cumulative.laws_stepBetween h⟩
    rw [ofNumber, hkept]
    exact Cumulative.apply_of_isReal (a := .int m) (b := .int M) (n := .int (M - m)) i' j' k' rfl rfl rfl
      (bounded_of_isFinite hm) (bounded_of_isFinite h.divisor) hz hv
  case arrays =>
    obtain ⟨i', j', k', hkept⟩ := Cumulative.kept_number (.int m) (.int M) (.int (M - m)) i j 0 a b e
    rintro hlow v ⟨shape, hs, hne, hv⟩
    rw [ofNumber, hkept]
    exact Cumulative.itemwise_of_isReal i' j' k' (gridBound_int hm) (gridBound_int h.divisor) rfl rfl rfl
      (bounded_of_isFinite hm) (bounded_of_isFinite h.divisor) hz (Cumulative.alike_stepBetween h hlow) hs hne hv

end

def oddBound : Int := 2 ^ 53 + 1

theorem usable_int {m M : Int} (hf : (Double.ofInt (M - m)).isFinite = true) (hpos : 0 < Double.ofInt (M - m))
    (hrec : (1 / Double.ofInt (M - m)).isFinite = true) : Usable (.int m) (.int M) :=
  ⟨.int (M - m), _, rfl, bounded_of_isFinite hf, hf, hpos, hrec⟩

theorem laws_of_integer_bounds_of_oddBound :
    ∃ p c, Density.ofBounds (number (.int 0) 2) (number (.int oddBound) 3) = .ok p ∧
      Cumulative.ofBounds (number (.int 0) 2) (number (.int oddBound) 3) = .ok c ∧
      Itemwise (p.kept 2 3 4).apply unitPoints ∧ Itemwise (c.kept 2 3 5).apply unitPoints := by
  have hu : Usable (.int 0) (.int oddBound) := usable_int (by decide +kernel) (by decide +kernel) (by decide +kernel)
  obtain ⟨p, hp⟩ := (Density.answers (a := .int 0) (b := .int oddBound) rfl rfl 2 3).accepted.mpr hu
  obtain ⟨c, hc⟩ := (Cumulative.answers (a := .int 0) (b := .int oddBound) rfl rfl 2 3).accepted.mpr hu
  have hlaws := fun a b e => laws_of_integer_bounds (by decide +kernel) (by decide +kernel) hp hc a b e
  have hv : unitPoints.IsPoints := by
    refine ⟨[3], rfl, List.cons_ne_nil _ _, ?_⟩
    simp [unitPoints, leaves, leavesAll, Value.toDouble, Number.toDouble]
  exact ⟨p, c, hp, hc, (hlaws 2 3 4).1.mpr ⟨by decide +kernel, by decide +kernel⟩ _ hv,
    (hlaws 2 3 5).2.2 (by decide +kernel) _ hv⟩

/-- On a lower bound that is rounded down, the density and its arrays disagree at the double of the
bound, and the cumulative function is two at the upper bound. -/
theorem integer_bounds_break_laws :
    ∃ p c, Density.ofBounds (number (.int oddBound) 2) (number (.int (oddBound + 1)) 3) = .ok p ∧
      Cumulative.ofBounds (number (.int oddBound) 2) (number (.int (oddBound + 1)) 3) = .ok c ∧
      (∃ k, p.apply (number (.float (Double.ofInt oddBound)) 4) = .ok (number (.float 0) k)) ∧
      (∃ y, 0 < y ∧ p.apply (list [number (.float (Double.ofInt oddBound)) 4] 5) =
        .ok (.array ⟨.floating .double, [1], [.machineFloat .double y]⟩ 0)) ∧
      related .eq (.float (Double.ofInt (oddBound + 1))) (.int (oddBound + 1)) = true ∧
      ∃ k, c.apply (number (.float (Double.ofInt (oddBound + 1))) 4) = .ok (number (.float 2) k) := by
  have hu : Usable (.int oddBound) (.int (oddBound + 1)) :=
    usable_int (by decide +kernel) (by decide +kernel) (by decide +kernel)
  have hm : (Double.ofInt oddBound).isFinite = true := by decide +kernel
  have hM : (Double.ofInt (oddBound + 1)).isFinite = true := by decide +kernel
  obtain ⟨p, hp⟩ := (Density.answers (a := .int oddBound) (b := .int (oddBound + 1)) rfl rfl 2 3).accepted.mpr hu
  obtain ⟨c, hc⟩ := (Cumulative.answers (a := .int oddBound) (b := .int (oddBound + 1)) rfl rfl 2 3).accepted.mpr hu
  refine ⟨p, c, hp, hc, ?_⟩
  obtain ⟨y, rfl, _, hpos⟩ := Density.ofBounds_ok rfl rfl 2 3 hp
  obtain ⟨h, rfl⟩ := Cumulative.ofBounds_int hm hM hc
  refine ⟨?outside, ⟨y, hpos, ?inside⟩, by decide +kernel, ?two⟩
  case outside =>
    have hout : Density.isWithin (.int oddBound) (.int (oddBound + 1)) (Double.ofInt oddBound) = false := by
      decide +kernel
    obtain ⟨k, hk⟩ := Density.apply_of_isReal (a := .int oddBound) (b := .int (oddBound + 1)) y 2 3 0 rfl rfl
      (v := number (.float (Double.ofInt oddBound)) 4) rfl
    rw [hout] at hk
    exact ⟨k, hk⟩
  case inside =>
    have hin : Density.isInside (Double.ofInt oddBound) (Double.ofInt (oddBound + 1)) (Double.ofInt oddBound) = true := by
      decide +kernel
    have hpoints : (list [number (.float (Double.ofInt oddBound)) 4] 5).toPoints = .ok ⟨[1], [Double.ofInt oddBound]⟩ :=
      rfl
    have happly := Density.apply_of_toPoints y 2 3 0 (gridBound_int hm) (gridBound_int hM) rfl (List.cons_ne_nil 1 [])
      hpoints
    rw [List.map_cons, List.map_nil, hin] at happly
    exact happly
  case two =>
    have hstep : Cumulative.stepBetween (.int oddBound) (.int (oddBound + 1)) (Double.ofInt oddBound)
        (Double.ofInt (oddBound + 1 - oddBound)) (Double.ofInt (oddBound + 1)) = 2 := by decide +kernel
    rw [← hstep]
    exact Cumulative.apply_of_isReal (a := .int oddBound) (b := .int (oddBound + 1))
      (n := .int (oddBound + 1 - oddBound)) 2 3 0 rfl rfl rfl (bounded_of_isFinite hm) (bounded_of_isFinite h.divisor)
      (by decide +kernel) rfl

end StreamStat
