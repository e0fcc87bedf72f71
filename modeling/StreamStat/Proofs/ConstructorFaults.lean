import StreamStat.Proofs.DomainValidation
import StreamStat.Proofs.ExactWidths

/-!
# What the constructors answer

The constructors take bounds of any size. Almost always they give functions whose density and
divisor are finite and positive, or refuse the bounds with a fault of the library's own. Three
conditions let another fault through: a number that is past the largest double, a positive width
whose double is zero, and a bound that is too long to be told in the message.
-/

namespace StreamStat

open Double Value

def Fault.isRefusal : Fault → Bool
  | argument _ | degenerate _ => true
  | _ => false

/-! ## Three conditions -/

namespace Number

def TooLarge (a b : Number) : Prop :=
  match a.rational?, b.rational? with
  | some p, some q => (ofRat (q - p)).isInf = true
  | _, _ => a.toDouble = .error .overflow ∨ b.toDouble = .error .overflow

def Vanishing (a b : Number) : Prop :=
  ∃ p q, a.rational? = some p ∧ b.rational? = some q ∧ p < q ∧ (ofRat (q - p)).level = 0

def Silent (a b : Number) : Prop := a.inlineText = .error .badValue ∨ b.inlineText = .error .badValue

def Usable (a b : Number) : Prop :=
  ∃ w y, sub b a = .ok w ∧ w.toDouble = .ok y ∧ y.isFinite = true ∧ 0 < y ∧ (1 / y).isFinite = true

variable {a b n w : Number} {y : Double}

theorem extended?_zero : (float 0).extended? = some (.finite 0) := by decide +kernel

theorem inlineText_cases (h : n.isReal = true) : (∃ s, n.inlineText = .ok s) ∨ n.inlineText = .error .badValue := by
  have whole (i : Int) : (∃ s, wholeText i = .ok s) ∨ wholeText i = .error .badValue := by
    unfold wholeText
    split
    · exact .inl ⟨_, rfl⟩
    · exact .inr rfl
  cases n with
  | bool c => exact .inl ⟨_, rfl⟩
  | int i => exact whole i
  | float x => exact .inl ⟨_, rfl⟩
  | fraction r =>
    show (∃ s, quotientText r.num r.den = .ok s) ∨ quotientText r.num r.den = .error .badValue
    unfold quotientText
    split
    · exact whole _
    · rcases whole r.num with ⟨s, hs⟩ | hs
      · rcases whole r.den with ⟨t, ht⟩ | ht
        · exact .inl ⟨s ++ "/" ++ t, by simp only [hs, ht]; rfl⟩
        · exact .inr (by simp only [hs, ht]; rfl)
      · exact .inr (by simp only [hs]; rfl)
  | _ => cases h

/-! ## The sign of a width -/

/-- A number is positive unless it is zero or negative, or a NaN. -/
theorem pos_iff {e : Extended} (he : n.extended? = some e) :
    related .lt (float 0) n = true ↔ related .eq n (float 0) = false ∧ related .lt n (float 0) = false := by
  cases e with
  | finite r =>
    simp only [related, he, extended?_zero, Relation.ofExtended, Extended.lt, Extended.finite.injEq, decide_eq_true_eq,
      decide_eq_false_iff_not]
    rw [← ne_eq, not_lt, and_comm, ne_comm, lt_iff_le_and_ne]
  | _ => simp [related, he, extended?_zero, Relation.ofExtended, Extended.lt]

theorem level_of_pos (hy : n.toDouble = .ok y) (h : related .lt (float 0) n = true) :
    y.isNaN = false ∧ 0 ≤ y.level := by
  have hle := toDouble_le (n := float 0) rfl hy (related_le_of_lt h)
  rw [level_zero] at hle
  exact hle.2

theorem pos_of_level (hy : n.toDouble = .ok y) (hn : y.isNaN = false) (h : 0 < y.level) :
    related .lt (float 0) n = true := by
  apply related_lt_of_toDouble (n := float 0) rfl hy isNaN_zero hn
  rwa [level_zero]

/-- The double of a positive difference is zero only if the difference is exact. -/
theorem vanishing_iff (ha : a.isReal = true) (hb : b.isReal = true) (hsub : sub b a = .ok w) (hy : w.toDouble = .ok y) :
    Vanishing a b ↔ related .lt (float 0) w = true ∧ y.level = 0 := by
  rcases sub_cases ha hb hsub with ⟨p, q, hp, hq, hw⟩ | ⟨hf, z, rfl⟩
  · rw [toDouble_of_rational? hw] at hy
    have hpos : related .lt (float 0) w = true ↔ p < q := by
      simp [related, extended?_zero, extended?_of_rational? hw, Relation.ofExtended, Extended.lt]
    simp [Vanishing, hp, hq, hpos, bounded_eq_ok hy]
  · apply iff_of_false
    · rintro ⟨p, q, hp, hq, _⟩
      rcases hf with ⟨x, rfl⟩ | ⟨x, rfl⟩
      · cases hp
      · cases hq
    · rintro ⟨hpos, hlevel⟩
      have hn := (level_of_pos hy hpos).1
      rw [← Except.ok.inj hy] at hlevel hn
      rw [related_lt_float, lt_iff isNaN_zero hn, level_zero] at hpos
      omega

theorem usable_iff (hsub : sub b a = .ok w) (hy : w.toDouble = .ok y) :
    Usable a b ↔ y.isFinite = true ∧ 0 < y ∧ (1 / y).isFinite = true := by
  constructor
  · rintro ⟨w', y', hsub', hy', h⟩
    rw [hsub] at hsub'
    rw [← Except.ok.inj hsub', hy] at hy'
    rwa [Except.ok.inj hy']
  · intro h
    exact ⟨w, y, hsub, hy, h⟩

/-! ## Numbers that are too large -/

theorem bounded_eq_error {x : Double} : x.bounded = .error .overflow ↔ x.isInf = true := by
  unfold Double.bounded
  split <;> simp_all

theorem tooLarge_float (h : (∃ x, a = float x) ∨ ∃ x, b = float x) :
    TooLarge a b ↔ a.toDouble = .error .overflow ∨ b.toDouble = .error .overflow := by
  unfold TooLarge
  split
  · rename_i hp hq
    rcases h with ⟨x, rfl⟩ | ⟨x, rfl⟩
    · cases hp
    · cases hq
  · rfl

theorem not_vanishing_of_tooLarge (h : TooLarge a b) : ¬ Vanishing a b := by
  rintro ⟨p, q, hp, hq, _, hlevel⟩
  have hfinite := isFinite_of_level_eq_zero (isNaN_ofRat _) hlevel
  simp only [TooLarge, hp, hq] at h
  cases hd : ofRat (q - p) with
  | finite negative m => rw [hd] at h; cases h
  | _ => rw [hd] at hfinite; cases hfinite

/-- Bounds have a width with a double, unless they are too large. -/
theorem width_cases (ha : a.isReal = true) (hb : b.isReal = true) :
    (¬ TooLarge a b ∧ ∃ w y, sub b a = .ok w ∧ w.toDouble = .ok y) ∨
      (TooLarge a b ∧ (sub b a >>= fun w => w.toDouble) = .error .overflow) := by
  rcases isReal_pair ha hb with ⟨p, q, hp, hq⟩ | hf
  · obtain ⟨w, hw, hwr⟩ := sub_of_rational? hp hq
    have hiff : TooLarge a b ↔ w.toDouble = .error .overflow := by
      rw [toDouble_of_rational? hwr, bounded_eq_error]
      simp [TooLarge, hp, hq]
    rw [hiff, hw]
    cases hy : w.toDouble with
    | ok y => exact .inl ⟨by simp, w, y, rfl, hy⟩
    | error e =>
      have he := toDouble_error hy
      subst he
      exact .inr ⟨rfl, hy⟩
  · rw [tooLarge_float hf, sub_float ha hb hf]
    cases hb : b.toDouble with
    | error e => exact .inr ⟨.inr (by rw [toDouble_error hb]), by rw [toDouble_error hb]; rfl⟩
    | ok u =>
      cases ha : a.toDouble with
      | error e => exact .inr ⟨.inl (by rw [toDouble_error ha]), by rw [toDouble_error ha]; rfl⟩
      | ok l => exact .inl ⟨by simp, _, _, rfl, rfl⟩

end Number

open Number

/-! ## The checks of a width -/

section
variable {a b w : Number} {y : Double} (ha : a.isReal = true) (hb : b.isReal = true) (i j : Nat)
include ha hb

theorem checkedWidth_of_tooLarge (h : TooLarge a b) : checkedWidth (number a i) (number b j) = .error .overflow := by
  rcases width_cases ha hb with ⟨hnot, _⟩ | ⟨_, hover⟩
  · exact absurd h hnot
  · cases hsub : sub b a with
    | error e =>
      rw [hsub] at hover
      have he : e = .overflow := Except.error.inj hover
      subst he
      have hwidth : Arithmetic.sub (number b j) (number a i) = .error .overflow := congrArg (Except.map ofNumber) hsub
      simp only [checkedWidth, hwidth, bind, Except.bind]
    | ok w =>
      rw [hsub] at hover
      have hend : w.toDouble = .error .overflow := hover
      rw [checkedWidth_number hsub (isReal_of_sub ha hb hsub), hend]
      rfl

theorem report_cases (f : String → String → Fault) :
    (¬ Silent a b ∧ ∃ s t, report a b f = .error (f s t)) ∨ (Silent a b ∧ report a b f = .error .badValue) := by
  unfold Silent report
  rcases inlineText_cases ha with ⟨s, hs⟩ | hs <;> rcases inlineText_cases hb with ⟨t, ht⟩ | ht <;> rw [hs, ht]
  · exact .inl ⟨by simp, s, t, rfl⟩
  · exact .inr ⟨.inr rfl, rfl⟩
  · exact .inr ⟨.inl rfl, rfl⟩
  · exact .inr ⟨.inl rfl, rfl⟩

section
variable (hsub : sub b a = .ok w) (hy : w.toDouble = .ok y)
include hsub hy

theorem checkedWidth_of_pos (hf : y.isFinite = true) (hpos : related .lt (.float 0) w = true) :
    checkedWidth (number a i) (number b j) =
      if y.eq 0 then .error .divisionByZero
      else if !(1 / y).isFinite then report a b fun s t => .degenerate (.tooNarrow s t)
      else .ok (ofNumber w) := by
  obtain ⟨e, he⟩ := extended?_of_toDouble hy (isNaN_of_isFinite hf)
  obtain ⟨hzero, hneg⟩ := (pos_iff he).mp hpos
  rw [checkedWidth_number hsub (isReal_of_sub ha hb hsub), hy]
  simp only [bind, Except.bind, hf, hzero, hneg, Bool.not_true, Bool.false_eq_true, if_false]

theorem checkedWidth_of_not_pos (h : ¬ (y.isFinite = true ∧ related .lt (.float 0) w = true)) :
    ∃ f, (∀ s t, (f s t).isRefusal = true) ∧ checkedWidth (number a i) (number b j) = report a b f := by
  rw [checkedWidth_number hsub (isReal_of_sub ha hb hsub), hy]
  simp only [bind, Except.bind]
  by_cases hf : y.isFinite = true
  · obtain ⟨e, he⟩ := extended?_of_toDouble hy (isNaN_of_isFinite hf)
    rw [hf, Bool.not_true, if_neg Bool.false_ne_true]
    by_cases hzero : related .eq w (.float 0) = true
    · rw [if_pos hzero]
      exact ⟨_, fun s t => rfl, rfl⟩
    · have hneg : related .lt w (.float 0) = true := by
        by_contra hneg
        rw [Bool.not_eq_true] at hzero hneg
        exact h ⟨hf, (pos_iff he).mpr ⟨hzero, hneg⟩⟩
      rw [if_neg hzero, if_pos hneg]
      exact ⟨_, fun s t => rfl, rfl⟩
  · rw [if_pos (by simpa using hf)]
    exact ⟨_, fun s t => rfl, rfl⟩

/-- The checks accept a width, divide by zero, or refuse it. -/
theorem checkedWidth_cases :
    (Usable a b ∧ ¬ Vanishing a b ∧ checkedWidth (number a i) (number b j) = .ok (ofNumber w)) ∨
      (¬ Usable a b ∧ Vanishing a b ∧ checkedWidth (number a i) (number b j) = .error .divisionByZero) ∨
      (¬ Usable a b ∧ ¬ Vanishing a b ∧ ∃ f, (∀ s t, (f s t).isRefusal = true) ∧
        checkedWidth (number a i) (number b j) = report a b f) := by
  rw [usable_iff hsub hy, vanishing_iff ha hb hsub hy]
  by_cases h : y.isFinite = true ∧ related .lt (.float 0) w = true
  · obtain ⟨hf, hpos⟩ := h
    have hn := isNaN_of_isFinite hf
    have hlevel := Double.pos_iff hn
    have hnonneg := (level_of_pos hy hpos).2
    rw [checkedWidth_of_pos ha hb i j hsub hy hf hpos]
    by_cases hz : y.eq 0 = true
    · have hz' := (eq_zero_iff hn).mp hz
      have hnot : ¬ 0 < y := by rw [hlevel]; omega
      rw [if_pos hz]
      exact .inr (.inl ⟨fun hu => hnot hu.2.1, ⟨hpos, hz'⟩, rfl⟩)
    · have hz' := mt (eq_zero_iff hn).mpr hz
      rw [if_neg hz]
      by_cases hrec : (1 / y).isFinite = true
      · rw [hrec, Bool.not_true, if_neg Bool.false_ne_true]
        exact .inl ⟨⟨hf, hlevel.mpr (by omega), rfl⟩, fun hv => hz' hv.2, rfl⟩
      · rw [if_pos (by simpa using hrec)]
        exact .inr (.inr ⟨fun hu => hrec hu.2.2, fun hv => hz' hv.2, _, fun s t => rfl, rfl⟩)
  · have hu : ¬ (y.isFinite = true ∧ 0 < y ∧ (1 / y).isFinite = true) := by
      rintro ⟨hf, hpos, _⟩
      have hn := isNaN_of_isFinite hf
      exact h ⟨hf, pos_of_level hy hn ((Double.pos_iff hn).mp hpos)⟩
    have hv : ¬ (related .lt (.float 0) w = true ∧ y.level = 0) := by
      rintro ⟨hpos, hlevel⟩
      exact h ⟨isFinite_of_level_eq_zero (level_of_pos hy hpos).1 hlevel, hpos⟩
    exact .inr (.inr ⟨hu, hv, checkedWidth_of_not_pos ha hb i j hsub hy h⟩)

end

end

/-! ## Answers -/

structure Answers {α : Type} (r : Except Fault α) (a b : Number) : Prop where
  accepted : (∃ x, r = .ok x) ↔ Usable a b
  tooLarge : TooLarge a b → r = .error .overflow
  vanishing : Vanishing a b → r = .error .divisionByZero
  silent : Silent a b → ∀ e, r = .error e → e.isRefusal = false
  refused : ¬ TooLarge a b → ¬ Vanishing a b → ¬ Silent a b → ∀ e, r = .error e → e.isRefusal = true

theorem Answers.of_outcome {α β : Type} {r : Except Fault α} {s : Except Fault β} {a b : Number} (h : Answers r a b)
    (hok : ∀ x, r = .ok x → ∃ y, s = .ok y) (herror : ∀ e, r = .error e → s = .error e) : Answers s a b := by
  obtain ⟨haccepted, hlarge, hvanishing, hsilent, hrefused⟩ := h
  cases r with
  | ok x =>
    obtain ⟨y, rfl⟩ := hok x rfl
    constructor <;> simp_all
  | error e =>
    rw [herror e rfl]
    constructor <;> simp_all

section
variable {a b : Number} (ha : a.isReal = true) (hb : b.isReal = true) (i j : Nat)
include ha hb

theorem checkedWidth_answers : Answers (checkedWidth (number a i) (number b j)) a b := by
  rcases width_cases ha hb with ⟨hlarge, w, y, hsub, hy⟩ | ⟨hlarge, hover⟩
  · rcases checkedWidth_cases ha hb i j hsub hy with ⟨hu, hv, h⟩ | ⟨hu, hv, h⟩ | ⟨hu, hv, f, hf, h⟩
    · rw [h]
      constructor <;> simp [hu, hv, hlarge]
    · rw [h]
      constructor <;> simp [hu, hv, hlarge, Fault.isRefusal]
    · rw [h]
      rcases report_cases ha hb f with ⟨hs, s, t, h⟩ | ⟨hs, h⟩
      · rw [h]
        constructor <;> simp [hu, hv, hlarge, hs, hf]
      · rw [h]
        constructor <;> simp [hu, hv, hlarge, hs, Fault.isRefusal]
  · have hu : ¬ Usable a b := by
      rintro ⟨w, y, hsub, hy, _⟩
      rw [hsub] at hover
      have hover : w.toDouble = .error .overflow := hover
      rw [hy] at hover
      cases hover
    have hv := not_vanishing_of_tooLarge hlarge
    rw [checkedWidth_of_tooLarge ha hb i j hlarge]
    constructor <;> simp [hu, hv, hlarge, Fault.isRefusal]

theorem checkedWidth_ok {v : Value} (h : checkedWidth (number a i) (number b j) = .ok v) :
    ∃ w y, sub b a = .ok w ∧ w.toDouble = .ok y ∧ y.isFinite = true ∧ 0 < y ∧ (1 / y).isFinite = true ∧
      v = ofNumber w := by
  have hu := (checkedWidth_answers ha hb i j).accepted.mp ⟨v, h⟩
  have ⟨w, y, hsub, hy, hf, hpos, hrec⟩ := hu
  refine ⟨w, y, hsub, hy, hf, hpos, hrec, ?_⟩
  rcases checkedWidth_cases ha hb i j hsub hy with ⟨_, _, hw⟩ | ⟨hnot, _⟩ | ⟨hnot, _⟩
  · rw [h] at hw
    exact Except.ok.inj hw
  · exact absurd hu hnot
  · exact absurd hu hnot

end

/-! ## The two functions -/

def Value.IsPositive (v : Value) : Prop := ∃ y, v.toDouble = .ok y ∧ y.isFinite = true ∧ 0 < y

section
variable {a b : Number} (ha : a.isReal = true) (hb : b.isReal = true) (i j : Nat)
include ha hb

theorem Density.ofBounds_of_width {v : Value} (h : checkedWidth (number a i) (number b j) = .ok v) :
    ∃ y, Density.ofBounds (number a i) (number b j) = .ok ⟨number a i, number b j, ofNumber (.float y)⟩ ∧
      y.isFinite = true ∧ 0 < y := by
  obtain ⟨w, y, hsub, hy, hf, hpos, hrec, rfl⟩ := checkedWidth_ok ha hb i j h
  have hlevel := (Double.pos_iff (isNaN_of_isFinite hf)).mp hpos
  have hz : ¬ y.eq 0 = true := by
    rw [eq_zero_iff (isNaN_of_isFinite hf)]
    omega
  have hdiv : Arithmetic.div Arithmetic.one (ofNumber w) = .ok (ofNumber (.float (1 / y))) := by
    show (Number.div (.float 1) w).map ofNumber = _
    rw [float_div 1 (isReal_of_sub ha hb hsub), hy]
    simp only [bind, Except.bind, if_neg hz]
    rfl
  refine ⟨1 / y, ?_, hrec, (Double.pos_iff (isNaN_of_isFinite hrec)).mpr (reciprocal_pos hf hlevel)⟩
  simp only [ofBounds, h, hdiv, bind, Except.bind]
  rfl

theorem Density.answers : Answers (Density.ofBounds (number a i) (number b j)) a b := by
  refine (checkedWidth_answers ha hb i j).of_outcome ?_ ?_
  · intro v h
    obtain ⟨y, hp, _⟩ := Density.ofBounds_of_width ha hb i j h
    exact ⟨_, hp⟩
  · intro e h
    simp only [ofBounds, h, bind, Except.bind]

theorem Cumulative.answers : Answers (Cumulative.ofBounds (number a i) (number b j)) a b := by
  refine (checkedWidth_answers ha hb i j).of_outcome ?_ ?_
  · intro v h
    exact ⟨⟨number a i, number b j, v⟩, by simp only [ofBounds, h]; rfl⟩
  · intro e h
    simp only [ofBounds, h, bind, Except.bind]

theorem Density.ofBounds_ok {p : Density Value} (h : ofBounds (number a i) (number b j) = .ok p) :
    ∃ y, p = ⟨number a i, number b j, ofNumber (.float y)⟩ ∧ y.isFinite = true ∧ 0 < y := by
  obtain ⟨v, hv, _⟩ := bind_ok h
  obtain ⟨y, hp, hy⟩ := Density.ofBounds_of_width ha hb i j hv
  rw [h] at hp
  exact ⟨y, Except.ok.inj hp, hy⟩

theorem Cumulative.ofBounds_ok {c : Cumulative Value} (h : ofBounds (number a i) (number b j) = .ok c) :
    ∃ w y, sub b a = .ok w ∧ w.toDouble = .ok y ∧ y.isFinite = true ∧ 0 < y ∧
      c = ⟨number a i, number b j, ofNumber w⟩ := by
  obtain ⟨v, hv, hc⟩ := bind_ok h
  obtain ⟨w, y, hsub, hy, hf, hpos, _, rfl⟩ := checkedWidth_ok ha hb i j hv
  exact ⟨w, y, hsub, hy, hf, hpos, (Except.ok.inj hc).symm⟩

end

/-! ## Distributions -/

namespace UniformDistribution

/-- Nothing but a refusal is the answer to two doubles. -/
theorem isRefusal_of_float {l u : Double} {i j : Nat} {e : Fault}
    (h : checkedWidth (number (.float l) i) (number (.float u) j) = .error e) : e.isRefusal = true := by
  refine (checkedWidth_answers (a := .float l) (b := .float u) rfl rfl i j).refused ?_ ?_ ?_ e h
  · rw [tooLarge_float (.inl ⟨l, rfl⟩)]
    rintro (h | h) <;> cases h
  · rintro ⟨p, q, hp, _⟩
    cases hp
  · rintro (h | h) <;> cases h

variable {a b : Number} {i j : Nat}

theorem ofBounds_of_overflow (h : a.toDouble = .error .overflow ∨ b.toDouble = .error .overflow) :
    ofBounds (number a i) (number b j) = .error .overflow := by
  obtain ⟨k, m, heq⟩ := ofBounds_number a b i j
  rw [heq]
  cases hl : a.toDouble with
  | error e => rw [Number.toDouble_error hl]; rfl
  | ok l =>
    rcases h with h | h
    · rw [hl] at h
      cases h
    · rw [h]
      rfl

theorem isPositive_of_ofBounds {d : UniformDistribution} (h : ofBounds (number a i) (number b j) = .ok d) :
    d.pdf.density.IsPositive ∧ d.cdf.divisor.IsPositive := by
  obtain ⟨l, u, k, m, _, _, hs, rfl⟩ := ofBounds_number_ok h
  have hpos {x : Double} (hf : x.isFinite = true) (h : 0 < x.level) : (ofNumber (.float x)).IsPositive :=
    ⟨x, rfl, hf, (Double.pos_iff (isNaN_of_isFinite hf)).mpr h⟩
  exact ⟨hpos hs.wide (reciprocal_pos hs.isFinite hs.pos), hpos hs.isFinite hs.pos⟩

/-- Integers, fractions and doubles of any size, mixed or not: the constructors give functions
whose density and divisor are finite and positive, or refuse, unless a number is too large, the
double of a positive width is zero, or a bound has no text. For a distribution only bounds past
the largest double are left of this. -/
theorem constructors_answer (ha : a.isReal = true) (hb : b.isReal = true) (i j : Nat) :
    Answers (Density.ofBounds (number a i) (number b j)) a b ∧
      Answers (Cumulative.ofBounds (number a i) (number b j)) a b ∧
      (∀ p, Density.ofBounds (number a i) (number b j) = .ok p → p.density.IsPositive) ∧
      (∀ c, Cumulative.ofBounds (number a i) (number b j) = .ok c → c.divisor.IsPositive) ∧
      (∀ d, ofBounds (number a i) (number b j) = .ok d → d.pdf.density.IsPositive ∧ d.cdf.divisor.IsPositive) ∧
      (ofBounds (number a i) (number b j) = .error .overflow ↔
        a.toDouble = .error .overflow ∨ b.toDouble = .error .overflow) ∧
      (∀ e, ofBounds (number a i) (number b j) = .error e → e ≠ .overflow → e.isRefusal = true) := by
  refine ⟨Density.answers ha hb i j, Cumulative.answers ha hb i j, ?density, ?divisor,
    fun d hd => isPositive_of_ofBounds hd, ⟨?overflow, ofBounds_of_overflow⟩, ?refused⟩
  case density =>
    intro p hp
    obtain ⟨y, rfl, hy⟩ := Density.ofBounds_ok ha hb i j hp
    exact ⟨y, rfl, hy⟩
  case divisor =>
    intro c hc
    obtain ⟨w, y, _, hy, hf, hpos, rfl⟩ := Cumulative.ofBounds_ok ha hb i j hc
    exact ⟨y, hy, hf, hpos⟩
  case overflow =>
    intro h
    rcases ofBounds_number_error h with ⟨hlarge, _⟩ | ⟨l, u, k, m, _, _, hw⟩
    · exact hlarge
    · cases isRefusal_of_float hw
  case refused =>
    intro e h hne
    rcases ofBounds_number_error h with ⟨_, hoverflow⟩ | ⟨l, u, k, m, _, _, hw⟩
    · exact absurd hoverflow hne
    · exact isRefusal_of_float hw

theorem constructors_answer_of_third :
    ∃ p c, Density.ofBounds (number (.int 0) 2) (number (.fraction (1 / 3)) 3) = .ok p ∧
      Cumulative.ofBounds (number (.int 0) 2) (number (.fraction (1 / 3)) 3) = .ok c ∧
      p.density.IsPositive ∧ c.divisor.IsPositive := by
  obtain ⟨hp, hc, hdensity, hdivisor, _⟩ := constructors_answer (a := .int 0) (b := .fraction (1 / 3)) rfl rfl 2 3
  have hu : Usable (.int 0) (.fraction (1 / 3)) := by
    obtain ⟨w, hw, hr⟩ := sub_of_rational? (a := .int 0) (b := .fraction (1 / 3)) rfl rfl
    refine ⟨w, _, hw, (toDouble_of_rational? hr).trans (bounded_of_isFinite ?_), ?_⟩ <;> decide +kernel
  obtain ⟨p, hp⟩ := hp.accepted.mpr hu
  obtain ⟨c, hc⟩ := hc.accepted.mpr hu
  exact ⟨p, c, hp, hc, hdensity p hp, hdivisor c hc⟩

def vast : Int := 10 ^ 400

def sliver : ℚ := mkRat 1 (10 ^ 400)

/-- Neither of the two faults is the library's own. -/
theorem constructors_fault_at_extremes :
    Density.ofBounds (number (.fraction 0) 2) (number (.fraction sliver) 3) = .error .divisionByZero ∧
      Cumulative.ofBounds (number (.fraction 0) 2) (number (.fraction sliver) 3) = .error .divisionByZero ∧
      Density.ofBounds (number (.int 0) 2) (number (.int vast) 3) = .error .overflow ∧
      Cumulative.ofBounds (number (.int 0) 2) (number (.int vast) 3) = .error .overflow ∧
      ofBounds (number (.int 0) 2) (number (.int vast) 3) = .error .overflow := by
  have hv : Vanishing (.fraction 0) (.fraction sliver) := ⟨0, sliver, rfl, rfl, by decide +kernel, by decide +kernel⟩
  have hl : TooLarge (.int 0) (.int vast) := by
    show (ofRat ((vast : ℚ) - (0 : Int))).isInf = true
    decide +kernel
  have hover : (Number.int vast).toDouble = .error .overflow := by decide +kernel
  exact ⟨(Density.answers rfl rfl 2 3).vanishing hv, (Cumulative.answers rfl rfl 2 3).vanishing hv,
    (Density.answers rfl rfl 2 3).tooLarge hl, (Cumulative.answers rfl rfl 2 3).tooLarge hl,
    ofBounds_of_overflow (.inr hover)⟩

end UniformDistribution

end StreamStat
