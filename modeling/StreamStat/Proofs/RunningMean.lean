import Mathlib.Data.List.Induction
import StreamStat.Proofs.DoubleSums
import StreamStat.Proofs.FloatNumbers
import StreamStat.Proofs.Views

/-!
# The running mean stays among the samples

A step of the running mean adds a share of the difference between the sample and the mean. If
the difference is a finite double, rounding keeps the new mean between the old one and the sample
(`nextMean_between`), so that the mean stays among the samples. A difference that overflows takes
the mean with it, for good.
-/

namespace StreamStat

open Double

/-! ## Runs of samples -/

namespace Moments

section
variable {α : Type} [Add α] [Sub α] [Mul α] [Div α] [NatCast α]

def pushAll (m : Moments α) (n : Nat) : List α → Moments α
  | [] => m
  | x :: xs => (m.push (n + 1) x).pushAll (n + 1) xs

theorem pushAll_append (m : Moments α) (n : Nat) (xs ys : List α) :
    m.pushAll n (xs ++ ys) = (m.pushAll n xs).pushAll (n + xs.length) ys := by
  induction xs generalizing m n with
  | nil => rfl
  | cons x xs ih =>
    rw [List.cons_append, pushAll, ih, pushAll, List.length_cons, Nat.add_right_comm]
    rfl

end

def of (xs : List Double) : Moments Double := pushAll ⟨0, 0⟩ 0 xs

theorem of_concat (xs : List Double) (x : Double) : of (xs ++ [x]) = (of xs).push (xs.length + 1) x := by
  rw [of, pushAll_append, Nat.zero_add]
  rfl

theorem mean_concat (xs : List Double) (x : Double) :
    (of (xs ++ [x])).mean = nextMean (of xs).mean (xs.length + 1) x := by
  rw [of_concat]
  rfl

end Moments

def Readings (ds : List Delivery) (xs : List Double) : Prop :=
  List.Forall₂ (fun d x => d.sample.toDouble = .ok x) ds xs

def Statistic.Keeps : Statistic → Moments Double → Body → Prop
  | mean, m, b => b = .mean m.mean
  | variance, m, b => b = .variance m
  | _, _, _ => False

section
variable {s : Statistic} {a : Account} {m : Moments Double}

theorem Account.keeps_receive (h : s.Keeps m a.body) (o : ObjectView) (mark : Nat) {v : Value} {x : Double}
    (hx : v.toDouble = .ok x) :
    s.Keeps (m.push (a.samples + 1) x) (a.receive o mark v).1.body ∧
      (a.receive o mark v).1.samples = a.samples + 1 := by
  cases s with
  | mean =>
    have hb : a.body = .mean m.mean := h
    simp only [Account.receive, hb, hx]
    exact ⟨rfl, rfl⟩
  | variance =>
    have hb : a.body = .variance m := h
    simp only [Account.receive, hb, hx]
    exact ⟨rfl, rfl⟩
  | _ => exact h.elim

theorem Account.keeps_fed {ds : List Delivery} {xs : List Double} (hr : Readings ds xs) (h : s.Keeps m a.body) :
    s.Keeps (m.pushAll a.samples xs) (a.fed ds).body ∧ (a.fed ds).samples = a.samples + xs.length := by
  induction hr generalizing a m with
  | nil => exact ⟨h, rfl⟩
  | @cons d x ds xs hx _ ih =>
    obtain ⟨hk, hs⟩ := Account.keeps_receive h d.sight 0 hx
    obtain ⟨ih₁, ih₂⟩ := ih hk
    rw [hs] at ih₁ ih₂
    exact ⟨ih₁, ih₂.trans (by rw [List.length_cons]; omega)⟩

theorem Account.field?_mean (h : s.Keeps m a.body) (hn : a.samples ≠ 0) :
    a.field? "mean" = some (.number (.float m.mean) a.stamp) := by
  cases s with
  | mean =>
    have hb : a.body = .mean m.mean := h
    simp [field?, fields, statistics, hb, meanOf, hn, List.lookup_cons]
  | variance =>
    have hb : a.body = .variance m := h
    simp [field?, fields, statistics, hb, meanOf, hn, List.lookup_cons]
  | _ => exact h.elim

end

def Statistic.IsMoment : Statistic → Prop
  | mean | variance => True
  | min | max | minMax => False

def Statistic.fed (s : Statistic) (logged : Bool) (tape : Nat) (ds : List Delivery) : Account :=
  (Account.opened (.statistic s logged) tape).fed ds

theorem Statistic.keeps_fed {s : Statistic} (hs : s.IsMoment) (logged : Bool) (tape : Nat) {ds : List Delivery}
    {xs : List Double} (hr : Readings ds xs) :
    s.Keeps (.of xs) (s.fed logged tape ds).body ∧ (s.fed logged tape ds).samples = xs.length := by
  have h : s.Keeps ⟨0, 0⟩ (Account.opened (.statistic s logged) tape).body := by
    cases s with
    | mean => rfl
    | variance => rfl
    | _ => exact hs.elim
  obtain ⟨hk, hn⟩ := Account.keeps_fed hr h
  exact ⟨hk, hn.trans (Nat.zero_add _)⟩

/-! ## One step -/

section
variable {m x : Double} {n : Nat}

/-- The share of a difference is not farther from zero than the exact difference. For the first
sample, which is not divided, the mean has to be zero. -/
theorem share_between (hm : m.isFinite = true) (hx : x.isFinite = true) (hd : (x - m).isFinite = true)
    (h₀ : 0 < n) (hn : n < 2 ^ 53) (hfirst : n = 1 → m.level = 0) :
    ((x - m) / (n : Double)).isFinite = true ∧
      Min.min 0 (x.level - m.level) ≤ ((x - m) / (n : Double)).level ∧
      ((x - m) / (n : Double)).level ≤ Max.max 0 (x.level - m.level) := by
  obtain ⟨hfin, hq⟩ := share_of_isFinite hd h₀ hn
  refine ⟨hfin, ?_⟩
  have hsub := (sub_of_isFinite hx hm).2
  rw [← Int.cast_sub] at hsub
  rw [hq, hsub]
  -- what is divided by two or more does not grow, and the first sample needs no rounding
  rcases Nat.lt_or_eq_of_le (Nat.succ_le_of_lt h₀) with h | h
  · rcases le_total 0 (x.level - m.level) with hs | hs
    · have := nearest_share_le hs h
      omega
    · have := nearest_share_le (neg_nonneg.mpr hs) h
      rw [Int.cast_neg, nearest_neg, Int.cast_neg, neg_div, nearest_neg] at this
      omega
  · have hz := hfirst h.symm
    have hself := nearest_level hx
    rw [← h, hz, Int.sub_zero, hself, Nat.cast_one, div_one, hself]
    omega

theorem nextMean_between (hm : m.isFinite = true) (hx : x.isFinite = true) (hd : (x - m).isFinite = true)
    (h₀ : 0 < n) (hn : n < 2 ^ 53) (hfirst : n = 1 → m.level = 0) :
    (nextMean m n x).isFinite = true ∧ Min.min m.level x.level ≤ (nextMean m n x).level ∧
      (nextMean m n x).level ≤ Max.max m.level x.level := by
  obtain ⟨hq, hlow, hhigh⟩ := share_between hm hx hd h₀ hn hfirst
  obtain ⟨hnan, hsum⟩ := add_of_isFinite hm hq
  have hxb := (isFinite_iff (isNaN_of_isFinite hx)).mp hx
  have hmb := (isFinite_iff (isNaN_of_isFinite hm)).mp hm
  have hxs := nearest_level hx
  have hms := nearest_level hm
  unfold nextMean
  rw [isFinite_iff hnan, hsum, ← Int.cast_add]
  generalize ((x - m) / (n : Double)).level = q at hlow hhigh
  -- the exact sum is between the mean and the sample, and neither is rounded
  rcases le_total m.level x.level with h | h
  · have h₁ := nearest_mono_int (by omega : m.level ≤ m.level + q)
    have h₂ := nearest_mono_int (by omega : m.level + q ≤ x.level)
    omega
  · have h₁ := nearest_mono_int (by omega : x.level ≤ m.level + q)
    have h₂ := nearest_mono_int (by omega : m.level + q ≤ m.level)
    omega

theorem sub_of_level_eq_zero (hm : m.isFinite = true) (hz : m.level = 0) (hx : x.isFinite = true) :
    (x - m).isFinite = true ∧ (x - m).level = x.level := by
  obtain ⟨hnan, hlevel⟩ := sub_of_isFinite hx hm
  rw [hz, Int.cast_zero, sub_zero, nearest_level hx] at hlevel
  rw [isFinite_iff hnan, hlevel]
  exact ⟨(isFinite_iff (isNaN_of_isFinite hx)).mp hx, rfl⟩

/-- The first mean is the first sample. -/
theorem nextMean_one (hm : m.isFinite = true) (hz : m.level = 0) (hx : x.isFinite = true) :
    (nextMean m 1 x).isFinite = true ∧ (nextMean m 1 x).level = x.level := by
  obtain ⟨hd, hlevel⟩ := sub_of_level_eq_zero hm hz hx
  obtain ⟨hq, hshare⟩ := share_of_isFinite hd Nat.one_pos (by decide)
  rw [hlevel, Nat.cast_one, div_one, nearest_level hx] at hshare
  obtain ⟨hnan, hsum⟩ := add_of_isFinite hm hq
  rw [hz, hshare, Int.cast_zero, zero_add, nearest_level hx] at hsum
  unfold nextMean
  rw [isFinite_iff hnan, hsum]
  exact ⟨(isFinite_iff (isNaN_of_isFinite hx)).mp hx, rfl⟩

theorem isFinite_of_share {d : Double} (h₀ : 0 < n) (hn : n < 2 ^ 53) (h : (d / (n : Double)).isFinite = true) :
    d.isFinite = true := by
  cases d with
  | nan => cases h
  | inf a =>
    have hpos : 0 < (n : Double).level := by
      rw [level_whole hn]
      exact_mod_cast Nat.mul_pos h₀ unitsPerOne_pos
    rw [inf_div (isFinite_whole hn) hpos] at h
    cases h
  | finite a k => rfl

theorem isFinite_of_nextMean (h₀ : 0 < n) (hn : n < 2 ^ 53) (h : (nextMean m n x).isFinite = true) :
    m.isFinite = true ∧ (x - m).isFinite = true := by
  obtain ⟨hm, hq⟩ := isFinite_of_add h
  exact ⟨hm, isFinite_of_share h₀ hn hq⟩

end

/-! ## The mean of a run -/

namespace Moments

theorem isFinite_mean_nil : (of []).mean.isFinite = true := isFinite_whole (n := 0) (by decide)

theorem level_mean_nil : (of []).mean.level = 0 := level_zero

/-- No sample of a run has been too far from the mean before it. -/
def Close (xs : List Double) : Prop := ∀ ys x, ys ++ [x] <+: xs → (x - (of ys).mean).isFinite = true

theorem Close.of_prefix {xs ys : List Double} (h : Close xs) (hp : ys <+: xs) : Close ys :=
  fun zs z hz => h zs z (hz.trans hp)

theorem close_concat {xs : List Double} {x : Double} :
    Close (xs ++ [x]) ↔ Close xs ∧ (x - (of xs).mean).isFinite = true := by
  constructor
  · exact fun h => ⟨h.of_prefix (List.prefix_append ..), h xs x (List.prefix_refl _)⟩
  · rintro ⟨h, hx⟩ ys y hy
    rcases List.prefix_concat_iff.mp hy with he | hy
    · obtain ⟨rfl, rfl⟩ : ys = xs ∧ y = x := by simpa using he
      exact hx
    · exact h ys y hy

theorem mean_step {xs : List Double} {x : Double} (hx : x.isFinite = true) (hn : xs.length + 1 < 2 ^ 53)
    (hm : (of xs).mean.isFinite = true) (hd : (x - (of xs).mean).isFinite = true) :
    (of (xs ++ [x])).mean.isFinite = true ∧
      Min.min (of xs).mean.level x.level ≤ (of (xs ++ [x])).mean.level ∧
      (of (xs ++ [x])).mean.level ≤ Max.max (of xs).mean.level x.level := by
  rw [mean_concat]
  refine nextMean_between hm hx hd (Nat.succ_pos _) hn ?_
  intro h
  rw [List.length_eq_zero_iff.mp (Nat.succ.inj h)]
  exact level_mean_nil

/-- Induction on a run of finite samples, by its last one. -/
@[elab_as_elim]
theorem run_induction
    {motive : ∀ xs : List Double, (∀ x ∈ xs, x.isFinite = true) → xs.length < 2 ^ 53 → Prop}
    (nil : motive [] (List.forall_mem_nil _) (Nat.two_pow_pos 53))
    (concat : ∀ (xs : List Double) (x : Double) (hf : ∀ y ∈ xs, y.isFinite = true) (hx : x.isFinite = true)
      (hn : xs.length + 1 < 2 ^ 53), motive xs hf (Nat.lt_of_succ_lt hn) →
        motive (xs ++ [x]) (List.forall_mem_append.mpr ⟨hf, List.forall_mem_singleton.mpr hx⟩)
          (by rwa [List.length_append, List.length_singleton]))
    (xs : List Double) (hf : ∀ x ∈ xs, x.isFinite = true) (hn : xs.length < 2 ^ 53) : motive xs hf hn := by
  induction xs using List.reverseRecOn with
  | nil => exact nil
  | append_singleton xs x ih =>
    obtain ⟨hxs, hx⟩ := List.forall_mem_append.mp hf
    have hn' : xs.length + 1 < 2 ^ 53 := by rwa [List.length_append, List.length_singleton] at hn
    exact concat xs x hxs (hx x (List.mem_singleton_self x)) hn' (ih hxs (Nat.lt_of_succ_lt hn'))

section
variable {xs : List Double} (hf : ∀ x ∈ xs, x.isFinite = true) (hn : xs.length < 2 ^ 53)
include hf hn

theorem isFinite_mean_iff : (of xs).mean.isFinite = true ↔ Close xs := by
  induction xs, hf, hn using run_induction with
  | nil => exact ⟨fun _ ys y hy => by simp at hy, fun _ => isFinite_mean_nil⟩
  | concat xs x hf hx hn ih =>
    rw [close_concat, ← ih]
    constructor
    · intro h
      rw [mean_concat] at h
      exact isFinite_of_nextMean (Nat.succ_pos _) hn h
    · exact fun ⟨hm, hd⟩ => (mean_step hx hn hm hd).1

/-- A mean that is finite is not below all samples and not above all samples. -/
theorem mean_among (hne : xs ≠ []) (hc : Close xs) :
    (∃ x ∈ xs, x.level ≤ (of xs).mean.level) ∧ ∃ x ∈ xs, (of xs).mean.level ≤ x.level := by
  induction xs, hf, hn using run_induction with
  | nil => exact absurd rfl hne
  | concat xs x hf hx hn ih =>
    simp only [List.mem_append, List.mem_singleton]
    rcases xs.eq_nil_or_concat with rfl | hxs
    -- no sample has been there to compare with, so the first step is a case of its own
    · have h := (nextMean_one isFinite_mean_nil level_mean_nil hx).2
      rw [mean_concat]
      exact ⟨⟨x, .inr rfl, ge_of_eq h⟩, ⟨x, .inr rfl, le_of_eq h⟩⟩
    · obtain ⟨hc, hd⟩ := close_concat.mp hc
      have hm := (isFinite_mean_iff hf (Nat.lt_of_succ_lt hn)).mpr hc
      obtain ⟨⟨lo, hlo, hle⟩, hi, hhi, hge⟩ := ih (by rintro rfl; simp at hxs) hc
      obtain ⟨_, hlow, hhigh⟩ := mean_step hx hn hm hd
      constructor
      · rcases le_total (of xs).mean.level x.level with h | h
        · exact ⟨lo, .inl hlo, by omega⟩
        · exact ⟨x, .inr rfl, by omega⟩
      · rcases le_total (of xs).mean.level x.level with h | h
        · exact ⟨x, .inr rfl, by omega⟩
        · exact ⟨hi, .inl hhi, by omega⟩

/-- Samples that are not too far from each other are not too far from their mean. -/
theorem close_of_differences (hd : ∀ x ∈ xs, ∀ y ∈ xs, (x - y).isFinite = true) : Close xs := by
  induction xs, hf, hn using run_induction with
  | nil => intro ys y hy; simp at hy
  | concat xs x hf hx hn ih =>
    simp only [List.mem_append, List.mem_singleton] at hd
    have hc := ih fun y hy z hz => hd y (.inl hy) z (.inl hz)
    have hm := (isFinite_mean_iff hf (Nat.lt_of_succ_lt hn)).mpr hc
    refine close_concat.mpr ⟨hc, ?_⟩
    rcases xs.eq_nil_or_concat with rfl | hxs
    · exact (sub_of_level_eq_zero hm level_mean_nil hx).1
    · -- the difference from the mean is between those from two of the samples
      obtain ⟨⟨lo, hlo, hle⟩, hi, hhi, hge⟩ :=
        mean_among hf (Nat.lt_of_succ_lt hn) (by rintro rfl; simp at hxs) hc
      obtain ⟨hnan, hlevel⟩ := sub_of_isFinite hx hm
      have hxlo := hd x (.inr rfl) lo (.inl hlo)
      have hxhi := hd x (.inr rfl) hi (.inl hhi)
      have hblo := (isFinite_iff (isNaN_of_isFinite hxlo)).mp hxlo
      have hbhi := (isFinite_iff (isNaN_of_isFinite hxhi)).mp hxhi
      rw [(sub_of_isFinite hx (hf lo hlo)).2] at hblo
      rw [(sub_of_isFinite hx (hf hi hhi)).2] at hbhi
      have h₁ := nearest_mono (sub_le_sub_left (Int.cast_le.mpr hle) (x.level : ℚ))
      have h₂ := nearest_mono (sub_le_sub_left (Int.cast_le.mpr hge) (x.level : ℚ))
      rw [isFinite_iff hnan, hlevel]
      omega

end

end Moments

/-! ## The mean that is told -/

theorem Statistic.field?_mean {s : Statistic} (hs : s.IsMoment) (logged : Bool) (tape : Nat) {ds : List Delivery}
    {xs : List Double} (hr : Readings ds xs) (hne : xs ≠ []) :
    ∃ i, (s.fed logged tape ds).field? "mean" = some (.number (.float (Moments.of xs).mean) i) := by
  obtain ⟨hk, hsamples⟩ := keeps_fed hs logged tape hr
  refine ⟨_, Account.field?_mean hk ?_⟩
  rw [hsamples]
  exact fun h => hne (List.length_eq_zero_iff.mp h)

/-- The mean that an account tells is finite as long as no difference between a sample and the
mean before it has overflowed, which cannot be while the samples are not too far from each
other; and a finite mean lies between the least and the greatest sample. -/
theorem mean_among_samples {s : Statistic} (hs : s.IsMoment) (logged : Bool) (tape : Nat) {ds : List Delivery}
    {xs : List Double} (hr : Readings ds xs) (hf : ∀ x ∈ xs, x.isFinite = true) (hn : xs.length < 2 ^ 53)
    (hne : xs ≠ []) :
    (∃ i, (s.fed logged tape ds).field? "mean" = some (.number (.float (Moments.of xs).mean) i)) ∧
      ((Moments.of xs).mean.isFinite = true ↔ Moments.Close xs) ∧
      ((∀ x ∈ xs, ∀ y ∈ xs, (x - y).isFinite = true) → (Moments.of xs).mean.isFinite = true) ∧
      ((Moments.of xs).mean.isFinite = true →
        (∃ x ∈ xs, x ≤ (Moments.of xs).mean) ∧ ∃ x ∈ xs, (Moments.of xs).mean ≤ x) := by
  have hfin := Moments.isFinite_mean_iff hf hn
  refine ⟨Statistic.field?_mean hs logged tape hr hne, hfin, ?_, ?_⟩
  · exact fun hd => hfin.mpr (Moments.close_of_differences hf hn hd)
  · intro hm
    obtain ⟨⟨lo, hlo, hle⟩, hi, hhi, hge⟩ := Moments.mean_among hf hn hne (hfin.mp hm)
    have hnan := isNaN_of_isFinite hm
    exact ⟨⟨lo, hlo, (le_iff (isNaN_of_isFinite (hf lo hlo)) hnan).mpr hle⟩,
      hi, hhi, (le_iff hnan (isNaN_of_isFinite (hf hi hhi))).mpr hge⟩

def mixedSamples : List Delivery :=
  [⟨.none, .ofInt (-3)⟩, ⟨.none, .number (.float (ofNat (2 ^ 1023))) 2⟩,
    ⟨.none, .number (.fraction (1 / 100)) 3⟩]

def mixedDoubles : List Double := [.ofInt (-3), ofNat (2 ^ 1023), .ofRat (1 / 100)]

theorem readings_mixedSamples : Readings mixedSamples mixedDoubles :=
  .cons (Value.toDouble_int (by decide +kernel) 0)
    (.cons rfl (.cons (Value.toDouble_fraction (by decide +kernel) 3) .nil))

theorem mean_among_samples_of_mixedSamples :
    Readings mixedSamples mixedDoubles ∧ (∀ x ∈ mixedDoubles, x.isFinite = true) ∧
      (∃ i, (Statistic.variance.fed false 0 mixedSamples).field? "mean" =
        some (.number (.float (Moments.of mixedDoubles).mean) i)) ∧
      (∃ x ∈ mixedDoubles, x ≤ (Moments.of mixedDoubles).mean) ∧
      ∃ x ∈ mixedDoubles, (Moments.of mixedDoubles).mean ≤ x := by
  have hf : ∀ x ∈ mixedDoubles, x.isFinite = true := by decide +kernel
  have hd : ∀ x ∈ mixedDoubles, ∀ y ∈ mixedDoubles, (x - y).isFinite = true := by decide +kernel
  obtain ⟨hm, _, hclose, hamong⟩ :=
    mean_among_samples (s := .variance) trivial false 0 readings_mixedSamples hf (by decide) (List.cons_ne_nil _ _)
  exact ⟨readings_mixedSamples, hf, hm, hamong (hclose hd)⟩

def oppositeDoubles : List Double := [ofNat (2 ^ 1023), (ofNat (2 ^ 1023)).neg]

def oppositeSamples : List Delivery := oppositeDoubles.map fun x => ⟨.none, .number (.float x) 2⟩

/-- The mean of two finite doubles may be infinite. -/
theorem mean_of_opposites_overflows :
    Readings oppositeSamples oppositeDoubles ∧ (∀ x ∈ oppositeDoubles, x.isFinite = true) ∧
      ∃ i, (Statistic.mean.fed false 0 oppositeSamples).field? "mean" = some (.number (.float (.inf true)) i) := by
  have hr : Readings oppositeSamples oppositeDoubles := .cons rfl (.cons rfl .nil)
  have hm : (Moments.of oppositeDoubles).mean = .inf true := by decide +kernel
  obtain ⟨i, hi⟩ := Statistic.field?_mean (s := .mean) trivial false 0 hr (List.cons_ne_nil _ _)
  rw [hm] at hi
  exact ⟨hr, by decide +kernel, i, hi⟩

end StreamStat
