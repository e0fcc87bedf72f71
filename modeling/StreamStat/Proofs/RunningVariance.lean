import StreamStat.Proofs.RunningMean

/-!
# The running variance is not negative

A sample adds to the spread its deviation from the old mean times its deviation from the new
one. As the new mean is between the old one and the sample, rounded deviations have the same sign
(`deviations_nonneg`), and the spread never falls as long as the mean is finite.
-/

namespace StreamStat

open Double

namespace Double

variable {x d : Double}

/-! ## Quotients that are not negative -/

theorem div_nonneg_of_pos (hx : x.isNaN = false) (hd : d.isFinite = true) (hpos : 0 < d.level) (h : 0 ≤ x.level) :
    0 ≤ (x / d).level := by
  have hle := div_mono isNaN_zero hx hd hpos (by rwa [level_zero])
  rwa [level_zero_div hd hpos] at hle

theorem level_div_of_level_eq_zero (hx : x.isNaN = false) (hd : d.isFinite = true) (hpos : 0 < d.level)
    (h : x.level = 0) : (x / d).level = 0 := by
  have hle := div_mono hx isNaN_zero hd hpos (by rw [level_zero, h])
  rw [level_zero_div hd hpos] at hle
  exact le_antisymm hle (div_nonneg_of_pos hx hd hpos (ge_of_eq h))

end Double

/-! ## One step -/

section
variable {m k x : Double}

/-- Two deviations of a sample, from the old mean and from one that is between it and the
sample. -/
theorem deviations_finite (hm : m.isFinite = true) (hx : x.isFinite = true) (hd : (x - m).isFinite = true)
    (hk : k.isFinite = true) (hlow : Min.min m.level x.level ≤ k.level)
    (hhigh : k.level ≤ Max.max m.level x.level) :
    (x - k).isFinite = true ∧
      ((0 ≤ (x - m).level ∧ 0 ≤ (x - k).level) ∨ ((x - m).level ≤ 0 ∧ (x - k).level ≤ 0)) := by
  obtain ⟨_, hlm⟩ := sub_of_isFinite hx hm
  obtain ⟨hnan, hlk⟩ := sub_of_isFinite hx hk
  have hb := (isFinite_iff (isNaN_of_isFinite hd)).mp hd
  have hzero : nearest (0 : Int) = 0 := nearest_zero
  rw [hlm] at hb
  rw [isFinite_iff hnan, hlm, hlk]
  rw [← Int.cast_sub] at hb ⊢
  rw [← Int.cast_sub]
  rcases le_total m.level x.level with h | h
  · have h₁ := nearest_mono_int (by omega : 0 ≤ x.level - k.level)
    have h₂ := nearest_mono_int (by omega : x.level - k.level ≤ x.level - m.level)
    omega
  · have h₁ := nearest_mono_int (by omega : x.level - k.level ≤ 0)
    have h₂ := nearest_mono_int (by omega : x.level - m.level ≤ x.level - k.level)
    omega

theorem deviations_nonneg (hm : m.isFinite = true) (hx : x.isFinite = true) (hd : (x - m).isFinite = true)
    (hk : k.isFinite = true) (hlow : Min.min m.level x.level ≤ k.level)
    (hhigh : k.level ≤ Max.max m.level x.level) :
    ((x - m) * (x - k)).isNaN = false ∧ 0 ≤ ((x - m) * (x - k)).level := by
  obtain ⟨hdk, hsign⟩ := deviations_finite hm hx hd hk hlow hhigh
  obtain ⟨hnan, hlevel⟩ := mul_of_isFinite hd hdk
  have hu : (0 : ℚ) ≤ unitsPerOne := Nat.cast_nonneg _
  -- the deviations have the same sign, and rounding does not take their product below zero
  have hprod : (0 : ℚ) ≤ (x - m).level * (x - k).level := by
    rcases hsign with ⟨h₁, h₂⟩ | ⟨h₁, h₂⟩
    · exact mul_nonneg (by exact_mod_cast h₁) (by exact_mod_cast h₂)
    · exact mul_nonneg_of_nonpos_of_nonpos (by exact_mod_cast h₁) (by exact_mod_cast h₂)
  have := nearest_mono (div_nonneg hprod hu)
  rw [nearest_zero] at this
  exact ⟨hnan, by omega⟩

/-- A sample that equals the new mean adds nothing. -/
theorem level_deviations_of_eq (hx : x.isFinite = true) (hd : (x - m).isFinite = true)
    (hk : k.isFinite = true) (h : k.level = x.level) : ((x - m) * (x - k)).level = 0 := by
  obtain ⟨hdk, hlk⟩ := sub_of_level_eq hx hk h.symm
  rw [(mul_of_isFinite hd hdk).2, hlk, Int.cast_zero, mul_zero, zero_div, nearest_zero]

end

/-! ## The spread of a run -/

namespace Moments

variable {xs : List Double} {x : Double}

theorem spread_concat (xs : List Double) (x : Double) :
    (of (xs ++ [x])).spread = (of xs).spread + (x - (of xs).mean) * (x - (of (xs ++ [x])).mean) := by
  rw [of_concat]
  rfl

theorem le_spread_concat (hf : ∀ y ∈ xs, y.isFinite = true) (hx : x.isFinite = true)
    (hn : xs.length + 1 < 2 ^ 53) (hc : Close (xs ++ [x])) (hs : (of xs).spread.isNaN = false)
    (h₀ : 0 ≤ (of xs).spread.level) :
    (of (xs ++ [x])).spread.isNaN = false ∧ (of xs).spread.level ≤ (of (xs ++ [x])).spread.level := by
  obtain ⟨hc, hd⟩ := close_concat.mp hc
  have hm := (isFinite_mean_iff hf (Nat.lt_of_succ_lt hn)).mpr hc
  obtain ⟨hk, hlow, hhigh⟩ := mean_step hx hn hm hd
  obtain ⟨hnan, hnonneg⟩ := deviations_nonneg hm hx hd hk hlow hhigh
  rw [spread_concat]
  exact le_add_of_nonneg hs hnan h₀ hnonneg

section
variable (hf : ∀ x ∈ xs, x.isFinite = true) (hn : xs.length < 2 ^ 53)
include hf hn

theorem spread_nonneg (hc : Close xs) : (of xs).spread.isNaN = false ∧ 0 ≤ (of xs).spread.level := by
  induction xs, hf, hn using run_induction with
  | nil => exact ⟨isNaN_zero, ge_of_eq level_zero⟩
  | concat xs x hf hx hn ih =>
    obtain ⟨hs, h₀⟩ := ih (close_concat.mp hc).1
    obtain ⟨hnan, hle⟩ := le_spread_concat hf hx hn hc hs h₀
    exact ⟨hnan, h₀.trans hle⟩

/-- The spread has not been greater at any earlier time. -/
theorem spread_mono {ys : List Double} (hp : ys <+: xs) (hc : Close xs) :
    (of ys).spread.level ≤ (of xs).spread.level := by
  induction xs, hf, hn using run_induction with
  | nil => rw [List.prefix_nil.mp hp]
  | concat xs x hf hx hn ih =>
    rcases List.prefix_concat_iff.mp hp with rfl | hp
    · exact le_refl _
    · have hc' := (close_concat.mp hc).1
      obtain ⟨hs, h₀⟩ := spread_nonneg hf (Nat.lt_of_succ_lt hn) hc'
      exact (ih hp hc').trans (le_spread_concat hf hx hn hc hs h₀).2

/-! ## Equal samples -/

variable {c : Double} (he : ∀ x ∈ xs, x.level = c.level)
include he

theorem close_of_equal : Close xs := by
  refine close_of_differences hf hn fun x hx y hy => ?_
  exact (sub_of_level_eq (hf x hx) (hf y hy) ((he x hx).trans (he y hy).symm)).1

theorem level_mean_of_equal (hne : xs ≠ []) : (of xs).mean.level = c.level := by
  obtain ⟨⟨x, hx, hle⟩, y, hy, hge⟩ := mean_among hf hn hne (close_of_equal hf hn he)
  rw [he x hx] at hle
  rw [he y hy] at hge
  exact le_antisymm hge hle

theorem level_spread_of_equal : (of xs).spread.level = 0 := by
  have hc := close_of_equal hf hn he
  have hmean := level_mean_of_equal hf hn he
  induction xs, hf, hn using run_induction with
  | nil => exact level_zero
  | concat xs x hf hx hn ih =>
    obtain ⟨hc, hd⟩ := close_concat.mp hc
    obtain ⟨he, hex⟩ := List.forall_mem_append.mp he
    have hn' := Nat.lt_of_succ_lt hn
    have hm := (isFinite_mean_iff hf hn').mpr hc
    obtain ⟨hk, hlow, hhigh⟩ := mean_step hx hn hm hd
    have hspread := ih he hc (level_mean_of_equal hf hn' he)
    have hadded := level_deviations_of_eq hx hd hk ((hmean (by simp)).trans (hex x (by simp)).symm)
    have hs := isFinite_of_level_eq_zero (spread_nonneg hf hn' hc).1 hspread
    have ha := isFinite_of_level_eq_zero (deviations_nonneg hm hx hd hk hlow hhigh).1 hadded
    rw [spread_concat, (add_of_isFinite hs ha).2, hspread, hadded, Int.cast_zero, add_zero, nearest_zero]

end

/-! ## The variance -/

variable {n : Nat}

theorem divisor_pos (h₂ : 2 ≤ n) (hn : n < 2 ^ 53) :
    ((n - 1 : Nat) : Double).isFinite = true ∧ 0 < ((n - 1 : Nat) : Double).level := by
  have hlt : n - 1 < 2 ^ 53 := by omega
  refine ⟨isFinite_whole hlt, ?_⟩
  rw [level_whole hlt]
  exact_mod_cast Nat.mul_pos (by omega) unitsPerOne_pos

theorem variance_nonneg {m : Moments Double} (h₂ : 2 ≤ n) (hn : n < 2 ^ 53) (hs : m.spread.isNaN = false)
    (h₀ : 0 ≤ m.spread.level) : (m.variance n).isNaN = false ∧ 0 ≤ (m.variance n).level := by
  obtain ⟨hd, hpos⟩ := divisor_pos h₂ hn
  exact ⟨isNaN_div hs hd hpos, div_nonneg_of_pos hs hd hpos h₀⟩

theorem variance_eq_zero {m : Moments Double} (h₂ : 2 ≤ n) (hn : n < 2 ^ 53) (hs : m.spread.isNaN = false)
    (h₀ : m.spread.level = 0) : (m.variance n).level = 0 := by
  obtain ⟨hd, hpos⟩ := divisor_pos h₂ hn
  exact level_div_of_level_eq_zero hs hd hpos h₀

end Moments

/-! ## The variance that is told -/

theorem Account.field?_variance {a : Account} {m : Moments Double} (h : a.body = .variance m)
    (h₂ : 2 ≤ a.samples) :
    a.field? "variance" = some (.number (.float (m.variance a.samples)) 0) := by
  simp [field?, fields, statistics, h, varianceOf, Nat.not_lt.mpr h₂, List.lookup_cons, Value.ofNumber]

theorem Readings.of_prefix {ds es : List Delivery} {xs : List Double} (hr : Readings ds xs) (hp : es <+: ds) :
    ∃ ys, ys <+: xs ∧ Readings es ys := by
  rw [List.prefix_iff_eq_take.mp hp]
  exact ⟨xs.take es.length, List.take_prefix _ _, List.forall₂_take _ hr⟩

/-- As long as the mean of finite samples is finite, rounding makes no variance negative: the
spread is not a NaN, not negative and not less than at any earlier time, and so is the variance
of two samples or more. Samples that are all equal are their own mean, and their variance is
zero. -/
theorem variance_never_negative (logged : Bool) (tape : Nat) {ds : List Delivery} {xs : List Double}
    (hr : Readings ds xs) (hf : ∀ x ∈ xs, x.isFinite = true) (hn : xs.length < 2 ^ 53) :
    ∃ m : Moments Double, (Statistic.variance.fed logged tape ds).body = .variance m ∧
      (xs ≠ [] → ∃ i,
        (Statistic.variance.fed logged tape ds).field? "mean" = some (.number (.float m.mean) i)) ∧
      (2 ≤ xs.length →
        (Statistic.variance.fed logged tape ds).field? "variance" =
          some (.number (.float (m.variance xs.length)) 0)) ∧
      (m.mean.isFinite = true →
        m.spread.isNaN = false ∧ 0 ≤ m.spread ∧
        (∀ es, es <+: ds → ∃ e,
          (Statistic.variance.fed logged tape es).body = .variance e ∧ e.spread ≤ m.spread) ∧
        (2 ≤ xs.length → (m.variance xs.length).isNaN = false ∧ 0 ≤ m.variance xs.length)) ∧
      ∀ c, (∀ x ∈ xs, x.eq c = true) →
        (xs ≠ [] → m.mean.eq c = true) ∧ m.spread.eq 0 = true ∧
        (2 ≤ xs.length → (m.variance xs.length).eq 0 = true) := by
  obtain ⟨hk, hsamples⟩ := Statistic.keeps_fed (s := .variance) trivial logged tape hr
  have hclose := Moments.isFinite_mean_iff hf hn
  refine ⟨.of xs, hk, Statistic.field?_mean (s := .variance) trivial logged tape hr, ?variance, ?nonneg, ?equal⟩
  case variance =>
    intro h₂
    rw [← hsamples] at h₂ ⊢
    exact Account.field?_variance hk h₂
  case nonneg =>
    intro hm
    have hc := hclose.mp hm
    obtain ⟨hnan, h₀⟩ := Moments.spread_nonneg hf hn hc
    refine ⟨hnan, (le_iff isNaN_zero hnan).mpr (by rwa [level_zero]), ?_, ?_⟩
    · intro es hes
      obtain ⟨ys, hys, hr'⟩ := hr.of_prefix hes
      have hf' : ∀ y ∈ ys, y.isFinite = true := fun y hy => hf y (hys.subset hy)
      have hn' := lt_of_le_of_lt hys.length_le hn
      have hnan' := (Moments.spread_nonneg hf' hn' (hc.of_prefix hys)).1
      exact ⟨.of ys, (Statistic.keeps_fed (s := .variance) trivial logged tape hr').1,
        (le_iff hnan' hnan).mpr (Moments.spread_mono hf hn hys hc)⟩
    · intro h₂
      obtain ⟨hv, hv₀⟩ := Moments.variance_nonneg h₂ hn hnan h₀
      exact ⟨hv, (le_iff isNaN_zero hv).mpr (by rwa [level_zero])⟩
  case equal =>
    intro c he
    have he' : ∀ x ∈ xs, x.level = c.level := fun x hx => (level_of_eq (he x hx)).2.2
    have hc := Moments.close_of_equal hf hn he'
    have hnan := (Moments.spread_nonneg hf hn hc).1
    have hspread := Moments.level_spread_of_equal hf hn he'
    refine ⟨?_, (eq_zero_iff hnan).mpr hspread, ?_⟩
    · intro hne
      obtain ⟨x, hx⟩ := List.exists_mem_of_ne_nil xs hne
      have hmean := isNaN_of_isFinite (hclose.mpr hc)
      exact (eq_iff hmean (level_of_eq (he x hx)).2.1).mpr (Moments.level_mean_of_equal hf hn he' hne)
    · intro h₂
      have hv := (Moments.variance_nonneg h₂ hn hnan (ge_of_eq hspread)).1
      exact (eq_zero_iff hv).mpr (Moments.variance_eq_zero h₂ hn hnan hspread)

/-- Here the variance is infinite. -/
theorem variance_never_negative_of_mixedSamples :
    Readings mixedSamples mixedDoubles ∧ (∀ x ∈ mixedDoubles, x.isFinite = true) ∧
      ∃ m : Moments Double, (Statistic.variance.fed false 0 mixedSamples).body = .variance m ∧
        m.mean.isFinite = true ∧ m.variance 3 = .inf false ∧ m.spread.isNaN = false ∧ 0 ≤ m.spread ∧
        (m.variance 3).isNaN = false ∧ 0 ≤ m.variance 3 := by
  have hf : ∀ x ∈ mixedDoubles, x.isFinite = true := by decide +kernel
  have hk := (Statistic.keeps_fed (s := .variance) trivial false 0 readings_mixedSamples).1
  have hmean : (Moments.of mixedDoubles).mean.isFinite = true := by decide +kernel
  have hvariance : (Moments.of mixedDoubles).variance 3 = .inf false := by decide +kernel
  obtain ⟨m, hb, _, _, hm, _⟩ := variance_never_negative false 0 readings_mixedSamples hf (by decide)
  obtain rfl : m = .of mixedDoubles := Body.variance.inj (hb.symm.trans hk)
  obtain ⟨hnan, h₀, _, h₂⟩ := hm hmean
  exact ⟨readings_mixedSamples, hf, _, hb, hmean, hvariance, hnan, h₀, h₂ (by decide)⟩

end StreamStat
