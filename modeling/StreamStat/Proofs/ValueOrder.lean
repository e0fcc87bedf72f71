import Mathlib.Algebra.Order.Ring.Unbundled.Rat
import Mathlib.Data.String.Basic
import StreamStat.Value.Order

/-!
# The order of plain values

Plain values hold no arrays, no cells of arrays and no objects. Among them a comparison
depends on nothing but the two values. Comparisons that fail leave gaps in the order, but
what is known to be less is less for good: `precedes` is transitive, and the comparison the
other way round is answered (`lt_of_precedes`).
-/

namespace StreamStat

namespace Number

def isPlain : Number → Bool
  | bool _ | int _ | float _ | fraction _ | decimal _ => true
  | machineBool _ | machineInt _ _ | machineFloat _ _ | machineFraction _ _ _ => false

theorem not_isMachine_of_isPlain {n : Number} (h : n.isPlain = true) : n.isMachine = false := by
  cases n <;> first | rfl | cases h

theorem not_isBound_of_isPlain {n : Number} (h : n.isPlain = true) : n.isBound = false := by
  cases n <;> first | rfl | cases h

theorem compare_of_isPlain {m n : Number} (hm : m.isPlain = true) (hn : n.isPlain = true) (rel : Relation) :
    compare rel m n =
      if rel.isOrder && unordered m n then .error .invalidOperation else .ok (bool (related rel m n)) := by
  simp only [compare, comparePlain, not_isMachine_of_isPlain hm, not_isMachine_of_isPlain hn,
    not_isBound_of_isPlain hm, not_isBound_of_isPlain hn, Bool.or_self, Bool.false_eq_true, if_false]
  split <;> rfl

/-! ## Exact values -/

theorem related_lt {m n : Number} :
    related .lt m n = true ↔ ∃ x y, m.extended? = some x ∧ n.extended? = some y ∧ x.lt y = true := by
  unfold related
  cases m.extended? with
  | none => simp
  | some x => cases n.extended? <;> simp [Relation.ofExtended]

theorem not_unordered_of_related_lt {m n : Number} (h : related .lt m n = true) : unordered m n = false := by
  obtain ⟨x, y, hx, hy, _⟩ := related_lt.mp h
  simp [unordered, isNaN, hx, hy]

theorem unordered_comm (m n : Number) : unordered m n = unordered n m := by
  simp only [unordered, Bool.or_comm]

theorem eq_iff {m n : Number} : m.eq n = true ↔ ∃ x, m.extended? = some x ∧ n.extended? = some x := by
  unfold eq related
  cases m.extended? with
  | none => simp
  | some x => cases n.extended? <;> simp [Relation.ofExtended, eq_comm]

theorem eq_comm (m n : Number) : m.eq n = n.eq m := by
  rw [Bool.eq_iff_iff, eq_iff, eq_iff]
  exact exists_congr fun x => and_comm

theorem eq_trans {m n k : Number} (h : m.eq n = true) (h' : n.eq k = true) : m.eq k = true := by
  obtain ⟨x, hm, hn⟩ := eq_iff.mp h
  obtain ⟨y, hn', hk⟩ := eq_iff.mp h'
  rw [hn, Option.some.injEq] at hn'
  exact eq_iff.mpr ⟨x, hm, hn' ▸ hk⟩

end Number

namespace Extended

theorem lt_trans {x y z : Extended} (h : x.lt y = true) (h' : y.lt z = true) : x.lt z = true := by
  cases x with
  | negInf => cases z with
    | negInf => cases y <;> cases h'
    | _ => rfl
  | finite r =>
    cases y with
    | negInf => cases h
    | finite q =>
      cases z with
      | negInf => cases h'
      | finite p =>
        simp only [lt, decide_eq_true_eq] at h h' ⊢
        exact h.trans h'
      | posInf => rfl
    | posInf => cases z <;> cases h'
  | posInf => cases y <;> cases h

theorem lt_asymm {x y : Extended} (h : x.lt y = true) : y.lt x = false := by
  cases x <;> cases y <;> first | rfl | cases h | skip
  simp only [lt, decide_eq_true_eq, decide_eq_false_iff_not] at h ⊢
  exact not_lt_of_gt h

theorem lt_irrefl (x : Extended) : x.lt x = false := by
  cases h : x.lt x with
  | false => rfl
  | true => exact h.symm.trans (lt_asymm h)

end Extended

namespace Value

/-! ## Plain values -/

mutual

def isPlain : Value → Bool
  | none | text _ _ => true
  | number n _ => n.isPlain
  | list items _ => allPlain items
  | array _ _ | handle _ => false

def allPlain : List Value → Bool
  | [] => true
  | v :: vs => isPlain v && allPlain vs

end

theorem isPlain_stamp {v : Value} (h : v.isPlain = true) (mark : Nat) : (v.stamp mark).isPlain = true := by
  cases v with
  | number n m => cases m <;> exact h
  | text s m => cases m <;> exact h
  | list items m => cases m <;> exact h
  | array g m => cases h
  | _ => exact h

theorem hasCells_of_isPlain {v : Value} (h : v.isPlain = true) : v.hasCells = false := by
  cases v with
  | number n m => exact Number.not_isMachine_of_isPlain h
  | array g m => cases h
  | _ => rfl

mutual

def agrees : Value → Value → Bool
  | none, none => true
  | number m i, number n j => same (number m i) (number n j) || m.eq n
  | text s _, text t _ => s = t
  | list as _, list bs _ => agreesAll as bs
  | _, _ => false

def agreesAll : List Value → List Value → Bool
  | [], [] => true
  | a :: as, b :: bs => agrees a b && agreesAll as bs
  | _, _ => false

end

mutual

def precedes : Value → Value → Bool
  | number m _, number n _ => Number.related .lt m n
  | text s _, text t _ => s < t
  | list as _, list bs _ => precedesAll as bs
  | _, _ => false

/-- The first items that do not agree decide; a list comes before its extensions. -/
def precedesAll : List Value → List Value → Bool
  | [], _ :: _ => true
  | a :: as, b :: bs => if agrees a b then precedesAll as bs else precedes a b
  | _, _ => false

end

/-! ## Agreement -/

section
variable {b : Value}

theorem agrees_none : agrees none b = true ↔ b = none := by cases b <;> simp [agrees]

theorem agrees_number {m : Number} {i : Nat} :
    agrees (number m i) b = true ↔
      ∃ n j, b = number n j ∧ ((m = n ∧ (i = j ∨ m.isShared = true)) ∨ m.eq n = true) := by
  cases b <;> simp [agrees, same]

theorem agrees_text {s : String} {i : Nat} : agrees (text s i) b = true ↔ ∃ j, b = text s j := by
  cases b <;> simp [agrees, eq_comm]

theorem agrees_list {as : List Value} {i : Nat} :
    agrees (list as i) b = true ↔ ∃ bs j, b = list bs j ∧ agreesAll as bs = true := by
  cases b <;> simp [agrees]

theorem agreesAll_nil {bs : List Value} : agreesAll [] bs = true ↔ bs = [] := by cases bs <;> simp [agreesAll]

theorem agreesAll_cons {a : Value} {as bs : List Value} :
    agreesAll (a :: as) bs = true ↔ ∃ b bs', bs = b :: bs' ∧ agrees a b = true ∧ agreesAll as bs' = true := by
  cases bs <;> simp [agreesAll]

end

mutual

theorem agrees_of_same : ∀ {a b : Value}, a.isPlain = true → same a b = true → agrees a b = true
  | none, b, _, h => by cases b <;> simp_all [same, agrees]
  | number m i, b, _, h => by
    cases b with
    | number n j => simp [agrees, h]
    | _ => simp [same] at h
  | text s i, b, _, h => by cases b <;> simp_all [same, agrees]
  | list as i, b, ha, h => by
    cases b with
    | list bs j =>
      simp only [same, Bool.and_eq_true] at h
      exact agreesAll_of_sameAll ha h.2
    | _ => simp [same] at h
  | array g i, _, ha, _ => by cases ha
  | handle i, _, ha, _ => by cases ha

theorem agreesAll_of_sameAll :
    ∀ {as bs : List Value}, allPlain as = true → sameAll as bs = true → agreesAll as bs = true
  | [], bs, _, h => by cases bs <;> simp_all [sameAll, agreesAll]
  | a :: as, bs, ha, h => by
    cases bs with
    | nil => simp [sameAll] at h
    | cons b bs =>
      simp only [sameAll, Bool.and_eq_true] at h
      simp only [allPlain, Bool.and_eq_true] at ha
      exact agreesAll_cons.mpr ⟨b, bs, rfl, agrees_of_same ha.1 h.1, agreesAll_of_sameAll ha.2 h.2⟩

end

theorem length_eq_of_agreesAll : ∀ {as bs : List Value}, agreesAll as bs = true → as.length = bs.length
  | [], bs, hab => by rw [agreesAll_nil.mp hab]
  | a :: as, bs, hab => by
    obtain ⟨b, bs, rfl, _, h⟩ := agreesAll_cons.mp hab
    simp only [List.length_cons, length_eq_of_agreesAll h]

mutual

theorem agrees_symm : ∀ {a b : Value}, agrees a b = true → agrees b a = true
  | none, b, hab => by rw [agrees_none.mp hab]; rfl
  | number m i, b, hab => by
    obtain ⟨n, j, rfl, h⟩ := agrees_number.mp hab
    refine agrees_number.mpr ⟨m, i, rfl, ?_⟩
    rcases h with ⟨rfl, h⟩ | h
    · exact .inl ⟨rfl, h.imp Eq.symm id⟩
    · exact .inr ((Number.eq_comm n m).trans h)
  | text s i, b, hab => by
    obtain ⟨j, rfl⟩ := agrees_text.mp hab
    exact agrees_text.mpr ⟨i, rfl⟩
  | list as i, b, hab => by
    obtain ⟨bs, j, rfl, h⟩ := agrees_list.mp hab
    exact agrees_list.mpr ⟨as, i, rfl, agreesAll_symm h⟩
  | array g i, b, hab => by simp [agrees] at hab
  | handle i, b, hab => by simp [agrees] at hab

theorem agreesAll_symm : ∀ {as bs : List Value}, agreesAll as bs = true → agreesAll bs as = true
  | [], bs, hab => by rw [agreesAll_nil.mp hab]; rfl
  | a :: as, bs, hab => by
    obtain ⟨b, bs, rfl, h, hs⟩ := agreesAll_cons.mp hab
    exact agreesAll_cons.mpr ⟨a, as, rfl, agrees_symm h, agreesAll_symm hs⟩

end

theorem agrees_comm (a b : Value) : agrees a b = agrees b a := Bool.eq_iff_iff.mpr ⟨agrees_symm, agrees_symm⟩

mutual

theorem agrees_trans : ∀ {a b c : Value}, agrees a b = true → agrees b c = true → agrees a c = true
  | none, b, c, hab, hbc => by rwa [agrees_none.mp hab] at hbc
  | number m i, b, c, hab, hbc => by
    obtain ⟨n, j, rfl, h⟩ := agrees_number.mp hab
    obtain ⟨k, l, rfl, h'⟩ := agrees_number.mp hbc
    refine agrees_number.mpr ⟨k, l, rfl, ?_⟩
    rcases h with ⟨rfl, h⟩ | h
    · rcases h' with ⟨rfl, h'⟩ | h'
      · exact .inl ⟨rfl, h.elim (fun e => e ▸ h') .inr⟩
      · exact .inr h'
    · rcases h' with ⟨rfl, _⟩ | h'
      · exact .inr h
      · exact .inr (Number.eq_trans h h')
  | text s i, b, c, hab, hbc => by
    obtain ⟨j, rfl⟩ := agrees_text.mp hab
    exact agrees_text.mpr (agrees_text.mp hbc)
  | list as i, b, c, hab, hbc => by
    obtain ⟨bs, j, rfl, h⟩ := agrees_list.mp hab
    obtain ⟨cs, k, rfl, h'⟩ := agrees_list.mp hbc
    exact agrees_list.mpr ⟨cs, k, rfl, agreesAll_trans h h'⟩
  | array g i, b, c, hab, _ => by simp [agrees] at hab
  | handle i, b, c, hab, _ => by simp [agrees] at hab

theorem agreesAll_trans :
    ∀ {as bs cs : List Value}, agreesAll as bs = true → agreesAll bs cs = true → agreesAll as cs = true
  | [], bs, cs, hab, hbc => by rwa [agreesAll_nil.mp hab] at hbc
  | a :: as, bs, cs, hab, hbc => by
    obtain ⟨b, bs, rfl, h, hs⟩ := agreesAll_cons.mp hab
    obtain ⟨c, cs, rfl, h', hs'⟩ := agreesAll_cons.mp hbc
    exact agreesAll_cons.mpr ⟨c, cs, rfl, agrees_trans h h', agreesAll_trans hs hs'⟩

end

/-! ## Precedence -/

section
variable {b : Value}

theorem precedes_number {m : Number} {i : Nat} :
    precedes (number m i) b = true ↔ ∃ n j, b = number n j ∧ Number.related .lt m n = true := by
  cases b <;> simp [precedes]

theorem precedes_text {s : String} {i : Nat} : precedes (text s i) b = true ↔ ∃ t j, b = text t j ∧ s < t := by
  cases b <;> simp [precedes]

theorem precedes_list {as : List Value} {i : Nat} :
    precedes (list as i) b = true ↔ ∃ bs j, b = list bs j ∧ precedesAll as bs = true := by
  cases b <;> simp [precedes]

theorem precedesAll_nil {bs : List Value} : precedesAll [] bs = true ↔ ∃ b bs', bs = b :: bs' := by
  cases bs <;> simp [precedesAll]

theorem precedesAll_cons {a : Value} {as bs : List Value} :
    precedesAll (a :: as) bs = true ↔
      ∃ b bs', bs = b :: bs' ∧
        ((agrees a b = true ∧ precedesAll as bs' = true) ∨ (agrees a b = false ∧ precedes a b = true)) := by
  cases bs with
  | nil => simp [precedesAll]
  | cons b bs => simp only [precedesAll]; cases h : agrees a b <;> simp [h]

end

mutual

theorem not_agrees_of_precedes : ∀ {a b : Value}, precedes a b = true → agrees a b = false
  | none, b, hab => by simp [precedes] at hab
  | number m i, b, hab => by
    obtain ⟨n, j, rfl, h⟩ := precedes_number.mp hab
    obtain ⟨x, y, hx, hy, hxy⟩ := Number.related_lt.mp h
    rw [Bool.eq_false_iff, Ne, agrees_number]
    rintro ⟨_, _, ⟨⟩, ⟨rfl, _⟩ | he⟩
    · rw [hx, Option.some.injEq] at hy
      rw [hy, Extended.lt_irrefl] at hxy
      cases hxy
    · obtain ⟨z, hz, hz'⟩ := Number.eq_iff.mp he
      rw [hx, Option.some.injEq] at hz
      rw [hy, Option.some.injEq] at hz'
      rw [hz, hz', Extended.lt_irrefl] at hxy
      cases hxy
  | text s i, b, hab => by
    obtain ⟨t, j, rfl, h⟩ := precedes_text.mp hab
    rw [Bool.eq_false_iff, Ne, agrees_text]
    rintro ⟨_, ⟨⟩⟩
    exact lt_irrefl s h
  | list as i, b, hab => by
    obtain ⟨bs, j, rfl, h⟩ := precedes_list.mp hab
    exact not_agreesAll_of_precedesAll h
  | array g i, b, hab => by simp [precedes] at hab
  | handle i, b, hab => by simp [precedes] at hab

theorem not_agreesAll_of_precedesAll : ∀ {as bs : List Value}, precedesAll as bs = true → agreesAll as bs = false
  | [], bs, hab => by
    obtain ⟨b, bs, rfl⟩ := precedesAll_nil.mp hab
    rfl
  | a :: as, bs, hab => by
    obtain ⟨b, bs, rfl, ⟨_, h⟩ | ⟨h, _⟩⟩ := precedesAll_cons.mp hab
    · simp [agreesAll, not_agreesAll_of_precedesAll h]
    · simp [agreesAll, h]

end

mutual

theorem agrees_precedes : ∀ {a b c : Value}, agrees a b = true → precedes b c = true → precedes a c = true
  | none, b, c, hab, hbc => by rwa [agrees_none.mp hab] at hbc
  | number m i, b, c, hab, hbc => by
    obtain ⟨n, j, rfl, h⟩ := agrees_number.mp hab
    obtain ⟨k, l, rfl, h'⟩ := precedes_number.mp hbc
    refine precedes_number.mpr ⟨k, l, rfl, ?_⟩
    rcases h with ⟨rfl, _⟩ | h
    · exact h'
    · obtain ⟨x, hm, hn⟩ := Number.eq_iff.mp h
      obtain ⟨y, z, hn', hk, hyz⟩ := Number.related_lt.mp h'
      rw [hn, Option.some.injEq] at hn'
      exact Number.related_lt.mpr ⟨x, z, hm, hk, hn' ▸ hyz⟩
  | text s i, b, c, hab, hbc => by
    obtain ⟨j, rfl⟩ := agrees_text.mp hab
    exact precedes_text.mpr (precedes_text.mp hbc)
  | list as i, b, c, hab, hbc => by
    obtain ⟨bs, j, rfl, h⟩ := agrees_list.mp hab
    obtain ⟨cs, k, rfl, h'⟩ := precedes_list.mp hbc
    exact precedes_list.mpr ⟨cs, k, rfl, agreesAll_precedesAll h h'⟩
  | array g i, b, c, hab, _ => by simp [agrees] at hab
  | handle i, b, c, hab, _ => by simp [agrees] at hab

theorem agreesAll_precedesAll :
    ∀ {as bs cs : List Value}, agreesAll as bs = true → precedesAll bs cs = true → precedesAll as cs = true
  | [], bs, cs, hab, hbc => by rwa [agreesAll_nil.mp hab] at hbc
  | a :: as, bs, cs, hab, hbc => by
    obtain ⟨b, bs, rfl, h, hs⟩ := agreesAll_cons.mp hab
    obtain ⟨c, cs, rfl, ⟨he, hs'⟩ | ⟨_, h'⟩⟩ := precedesAll_cons.mp hbc
    · exact precedesAll_cons.mpr ⟨c, cs, rfl, .inl ⟨agrees_trans h he, agreesAll_precedesAll hs hs'⟩⟩
    · have hp := agrees_precedes h h'
      exact precedesAll_cons.mpr ⟨c, cs, rfl, .inr ⟨not_agrees_of_precedes hp, hp⟩⟩

end

mutual

theorem precedes_agrees : ∀ {a b c : Value}, precedes a b = true → agrees b c = true → precedes a c = true
  | none, b, c, hab, _ => by simp [precedes] at hab
  | number m i, b, c, hab, hbc => by
    obtain ⟨n, j, rfl, h⟩ := precedes_number.mp hab
    obtain ⟨k, l, rfl, h'⟩ := agrees_number.mp hbc
    refine precedes_number.mpr ⟨k, l, rfl, ?_⟩
    rcases h' with ⟨rfl, _⟩ | h'
    · exact h
    · obtain ⟨x, y, hm, hn, hxy⟩ := Number.related_lt.mp h
      obtain ⟨z, hn', hk⟩ := Number.eq_iff.mp h'
      rw [hn, Option.some.injEq] at hn'
      exact Number.related_lt.mpr ⟨x, z, hm, hk, hn' ▸ hxy⟩
  | text s i, b, c, hab, hbc => by
    obtain ⟨t, j, rfl, h⟩ := precedes_text.mp hab
    obtain ⟨k, rfl⟩ := agrees_text.mp hbc
    exact precedes_text.mpr ⟨t, k, rfl, h⟩
  | list as i, b, c, hab, hbc => by
    obtain ⟨bs, j, rfl, h⟩ := precedes_list.mp hab
    obtain ⟨cs, k, rfl, h'⟩ := agrees_list.mp hbc
    exact precedes_list.mpr ⟨cs, k, rfl, precedesAll_agreesAll h h'⟩
  | array g i, b, c, hab, _ => by simp [precedes] at hab
  | handle i, b, c, hab, _ => by simp [precedes] at hab

theorem precedesAll_agreesAll :
    ∀ {as bs cs : List Value}, precedesAll as bs = true → agreesAll bs cs = true → precedesAll as cs = true
  | [], bs, cs, hab, hbc => by
    obtain ⟨b, bs, rfl⟩ := precedesAll_nil.mp hab
    obtain ⟨c, cs, rfl, _⟩ := agreesAll_cons.mp hbc
    exact precedesAll_nil.mpr ⟨c, cs, rfl⟩
  | a :: as, bs, cs, hab, hbc => by
    obtain ⟨b, bs, rfl, h⟩ := precedesAll_cons.mp hab
    obtain ⟨c, cs, rfl, h', hs'⟩ := agreesAll_cons.mp hbc
    refine precedesAll_cons.mpr ⟨c, cs, rfl, ?_⟩
    rcases h with ⟨he, hs⟩ | ⟨_, h⟩
    · exact .inl ⟨agrees_trans he h', precedesAll_agreesAll hs hs'⟩
    · have hp := precedes_agrees h h'
      exact .inr ⟨not_agrees_of_precedes hp, hp⟩

end

mutual

theorem precedes_trans : ∀ {a b c : Value}, precedes a b = true → precedes b c = true → precedes a c = true
  | none, b, c, hab, _ => by simp [precedes] at hab
  | number m i, b, c, hab, hbc => by
    obtain ⟨n, j, rfl, h⟩ := precedes_number.mp hab
    obtain ⟨k, l, rfl, h'⟩ := precedes_number.mp hbc
    obtain ⟨x, y, hm, hn, hxy⟩ := Number.related_lt.mp h
    obtain ⟨y', z, hn', hk, hyz⟩ := Number.related_lt.mp h'
    rw [hn, Option.some.injEq] at hn'
    exact precedes_number.mpr
      ⟨k, l, rfl, Number.related_lt.mpr ⟨x, z, hm, hk, Extended.lt_trans hxy (hn' ▸ hyz)⟩⟩
  | text s i, b, c, hab, hbc => by
    obtain ⟨t, j, rfl, h⟩ := precedes_text.mp hab
    obtain ⟨u, k, rfl, h'⟩ := precedes_text.mp hbc
    exact precedes_text.mpr ⟨u, k, rfl, h.trans h'⟩
  | list as i, b, c, hab, hbc => by
    obtain ⟨bs, j, rfl, h⟩ := precedes_list.mp hab
    obtain ⟨cs, k, rfl, h'⟩ := precedes_list.mp hbc
    exact precedes_list.mpr ⟨cs, k, rfl, precedesAll_trans h h'⟩
  | array g i, b, c, hab, _ => by simp [precedes] at hab
  | handle i, b, c, hab, _ => by simp [precedes] at hab

theorem precedesAll_trans :
    ∀ {as bs cs : List Value}, precedesAll as bs = true → precedesAll bs cs = true → precedesAll as cs = true
  | [], bs, cs, hab, hbc => by
    obtain ⟨b, bs, rfl⟩ := precedesAll_nil.mp hab
    obtain ⟨c, cs, rfl, _⟩ := precedesAll_cons.mp hbc
    exact precedesAll_nil.mpr ⟨c, cs, rfl⟩
  | a :: as, bs, cs, hab, hbc => by
    -- the outer lists part where the first two of the three do, or the last two
    obtain ⟨b, bs, rfl, h⟩ := precedesAll_cons.mp hab
    obtain ⟨c, cs, rfl, h'⟩ := precedesAll_cons.mp hbc
    refine precedesAll_cons.mpr ⟨c, cs, rfl, ?_⟩
    rcases h with ⟨he, hs⟩ | ⟨_, h⟩
    · rcases h' with ⟨he', hs'⟩ | ⟨_, h'⟩
      · exact .inl ⟨agrees_trans he he', precedesAll_trans hs hs'⟩
      · have hp := agrees_precedes he h'
        exact .inr ⟨not_agrees_of_precedes hp, hp⟩
    · have hp : precedes a c = true := by
        rcases h' with ⟨he', _⟩ | ⟨_, h'⟩
        · exact precedes_agrees h he'
        · exact precedes_trans h h'
      exact .inr ⟨not_agrees_of_precedes hp, hp⟩

end

/-! ## Comparisons of plain values -/

theorem truth_ofBool (b : Bool) : (ofBool b).truth = .ok b := by
  cases b <;> simp [ofBool, ofNumber, truth, Number.isTrue, Number.extended?, boolInt]

def isLike : Value → Value → Bool
  | none, none | number _ _, number _ _ | text _ _, text _ _ | list _ _, list _ _ => true
  | array _ _, array _ _ | handle _, handle _ => true
  | _, _ => false

section
variable (o : ObjectView) (rel : Relation)

theorem compare_number (m n : Number) (i j : Nat) :
    compare o rel (number m i) (number n j) = (m.compare rel n).map ofNumber := by
  simp only [compare, compareSingle]
  cases m.compare rel n <;> rfl

theorem compare_text (s t : String) (i j : Nat) :
    compare o rel (text s i) (text t j) =
      .ok (ofBool (if s = t then rel.ofEqual else if rel.isOrder then s < t else rel = .ne)) := by
  simp [compare, compareSingle, hasCells, compareLeaves]
  rfl

theorem compare_unlike {a b : Value} (ha : a.isPlain = true) (hb : b.isPlain = true) (h : isLike a b = false) :
    compare o rel a b = if rel.isOrder then .error .wrongType else .ok (ofBool (decide (rel = .ne))) := by
  have hca := hasCells_of_isPlain ha
  have hcb := hasCells_of_isPlain hb
  cases a <;> cases b <;> cases h
  all_goals
    simp only [compare, compareSingle, hca, hcb, compareLeaves, compareUnlike, Bool.or_self, Bool.false_eq_true,
      if_false]
    split <;> rfl

theorem compareItems_step (a b : Value) (as bs : List Value) :
    compareItems o rel (a :: as) (b :: bs) = agree o a b >>= fun agree =>
      if agree then compareItems o rel as bs
      else if rel.isOrder then compare o rel a b else .ok (ofBool (decide (rel = .ne))) := by
  simp only [compareItems, agree, equal]
  cases same a b with
  | true => rfl
  | false =>
    simp only [Bool.false_eq_true, if_false]
    cases compare o .eq a b <;> rfl

theorem compareItems_cons {a b : Value} (h : agree o a b = .ok (agrees a b)) (as bs : List Value) :
    compareItems o rel (a :: as) (b :: bs) =
      if agrees a b then compareItems o rel as bs
      else if rel.isOrder then compare o rel a b else .ok (ofBool (decide (rel = .ne))) := by
  rw [compareItems_step, h]
  rfl

end

section
variable (o : ObjectView)

mutual

/-- Plain values can always be told from each other, and in one way. -/
theorem agree_of_isPlain : ∀ {a b : Value}, a.isPlain = true → b.isPlain = true → agree o a b = .ok (agrees a b)
  | none, b, ha, hb => by
    cases b with
    | none => rfl
    | _ => simp only [agree, same, equal, compare_unlike o .eq ha hb rfl]; rfl
  | number m i, b, ha, hb => by
    cases b with
    | number n j =>
      simp only [agree, equal, compare_number, Number.compare_of_isPlain ha hb, agrees]
      cases same (number m i) (number n j) with
      | true => rfl
      | false => exact truth_ofBool (m.eq n)
    | _ => simp only [agree, same, equal, compare_unlike o .eq ha hb rfl]; rfl
  | text s i, b, ha, hb => by
    cases b with
    | text t j =>
      have h : equal o (text s i) (text t j) = .ok (decide (s = t)) := by
        simp only [equal, compare_text]
        by_cases h : s = t <;> simp only [h, if_true, if_false, decide_true, decide_false] <;> rfl
      rw [agree, h, agrees]
      split
      · rename_i hs
        simp only [same, Bool.and_eq_true] at hs
        rw [hs.1]
      · rfl
    | _ => simp only [agree, same, equal, compare_unlike o .eq ha hb rfl]; rfl
  | list as i, b, ha, hb => by
    cases b with
    | list bs j =>
      have h : equal o (list as i) (list bs j) = .ok (agreesAll as bs) := by
        have hitems : compareItems o .eq as bs = .ok (ofBool (agreesAll as bs)) := compareItems_eq_of_isPlain ha hb
        simp only [equal, compare, hitems]
        by_cases hl : as.length = bs.length
        · simp only [hl, ne_eq, not_true, decide_false, Bool.and_false, Bool.false_eq_true, if_false]
          exact truth_ofBool _
        · have hn : agreesAll as bs = false := Bool.eq_false_iff.mpr fun h => hl (length_eq_of_agreesAll h)
          rw [hn, if_pos (by simp [hl, Relation.isOrder])]
          rfl
      unfold agree
      split
      · rename_i hs; rw [agrees_of_same ha hs]
      · exact h
    | _ => simp only [agree, same, equal, compare_unlike o .eq ha hb rfl]; rfl
  | array g i, _, ha, _ => by cases ha
  | handle i, _, ha, _ => by cases ha

theorem compareItems_eq_of_isPlain :
    ∀ {as bs : List Value}, allPlain as = true → allPlain bs = true →
      compareItems o .eq as bs = .ok (ofBool (agreesAll as bs))
  | [], bs, _, _ => by cases bs <;> rfl
  | a :: as, [], _, _ => rfl
  | a :: as, b :: bs, ha, hb => by
    simp only [allPlain, Bool.and_eq_true] at ha hb
    rw [compareItems_cons o .eq (agree_of_isPlain ha.1 hb.1), agreesAll, compareItems_eq_of_isPlain ha.2 hb.2]
    cases agrees a b <;> rfl

end

/-! ## Order of plain values -/

theorem lt_number {m n : Number} (hm : m.isPlain = true) (hn : n.isPlain = true) (i j : Nat) :
    lt o (number m i) (number n j) =
      if m.unordered n then .error .invalidOperation else .ok (Number.related .lt m n) := by
  simp only [lt, compare_number, Number.compare_of_isPlain hm hn, Relation.isOrder, Bool.true_and]
  split
  · rfl
  · exact truth_ofBool _

theorem lt_text (s t : String) (i j : Nat) : lt o (text s i) (text t j) = .ok (decide (s < t)) := by
  simp only [lt, compare_text, Relation.isOrder, Relation.ofEqual]
  by_cases h : s = t
  · rw [if_pos h, decide_eq_false (h ▸ lt_irrefl s)]
    exact truth_ofBool _
  · rw [if_neg h]
    exact truth_ofBool _

theorem lt_unlike {a b : Value} (ha : a.isPlain = true) (hb : b.isPlain = true) (h : isLike a b = false) :
    lt o a b = .error .wrongType := by
  simp only [lt, compare_unlike o .lt ha hb h]
  rfl

mutual

/-- A plain value is found to be less than another one if and only if it precedes it. -/
theorem lt_iff_precedes :
    ∀ {a b : Value}, a.isPlain = true → b.isPlain = true → (lt o a b = .ok true ↔ precedes a b = true)
  | none, b, ha, hb => by
    cases b with
    | none => rw [show lt o none none = .error .wrongType from rfl]; simp [precedes]
    | _ => rw [lt_unlike o ha hb rfl]; simp [precedes]
  | number m i, b, ha, hb => by
    cases b with
    | number n j =>
      rw [lt_number o ha hb, precedes]
      cases hr : Number.related .lt m n with
      | true => simp [Number.not_unordered_of_related_lt hr]
      | false => split <;> simp
    | _ => rw [lt_unlike o ha hb rfl]; simp [precedes]
  | text s i, b, ha, hb => by
    cases b with
    | text t j => rw [lt_text, precedes]; simp
    | _ => rw [lt_unlike o ha hb rfl]; simp [precedes]
  | list as i, b, ha, hb => by
    cases b with
    | list bs j => exact itemsLt_iff_precedesAll ha hb
    | _ => rw [lt_unlike o ha hb rfl]; simp [precedes]
  | array g i, _, ha, _ => by cases ha
  | handle i, _, ha, _ => by cases ha

theorem itemsLt_iff_precedesAll :
    ∀ {as bs : List Value}, allPlain as = true → allPlain bs = true →
      ((compareItems o .lt as bs >>= truth) = .ok true ↔ precedesAll as bs = true)
  | [], [], _, _ => ⟨fun h => (by cases h), fun h => (by cases h)⟩
  | [], _ :: _, _, _ => ⟨fun _ => rfl, fun _ => rfl⟩
  | _ :: _, [], _, _ => ⟨fun h => (by cases h), fun h => (by simp [precedesAll] at h)⟩
  | a :: as, b :: bs, ha, hb => by
    simp only [allPlain, Bool.and_eq_true] at ha hb
    rw [compareItems_cons o .lt (agree_of_isPlain o ha.1 hb.1), precedesAll]
    cases agrees a b with
    | true => exact itemsLt_iff_precedesAll ha.2 hb.2
    | false => exact lt_iff_precedes ha.1 hb.1

end

mutual

/-- What precedes a plain value is found not to be greater: the comparison is answered. -/
theorem lt_of_precedes :
    ∀ {a b : Value}, a.isPlain = true → b.isPlain = true → precedes a b = true → lt o b a = .ok false
  | none, b, _, _, h => by simp [precedes] at h
  | number m i, b, ha, hb, h => by
    obtain ⟨n, j, rfl, hr⟩ := precedes_number.mp h
    rw [lt_number o hb ha, Number.unordered_comm, Number.not_unordered_of_related_lt hr]
    obtain ⟨x, y, hx, hy, hxy⟩ := Number.related_lt.mp hr
    simp [Number.related, hx, hy, Relation.ofExtended, Extended.lt_asymm hxy]
  | text s i, b, _, _, h => by
    obtain ⟨t, j, rfl, hs⟩ := precedes_text.mp h
    rw [lt_text, decide_eq_false (not_lt_of_gt hs)]
  | list as i, b, ha, hb, h => by
    obtain ⟨bs, j, rfl, hs⟩ := precedes_list.mp h
    exact itemsLt_of_precedesAll ha hb hs
  | array g i, b, _, _, h => by simp [precedes] at h
  | handle i, b, _, _, h => by simp [precedes] at h

theorem itemsLt_of_precedesAll :
    ∀ {as bs : List Value}, allPlain as = true → allPlain bs = true → precedesAll as bs = true →
      (compareItems o .lt bs as >>= truth) = .ok false
  | [], bs, _, _, h => by
    obtain ⟨b, bs, rfl⟩ := precedesAll_nil.mp h
    rfl
  | a :: as, bs, ha, hb, hab => by
    obtain ⟨b, bs, rfl, h⟩ := precedesAll_cons.mp hab
    simp only [allPlain, Bool.and_eq_true] at ha hb
    rw [compareItems_cons o .lt (agree_of_isPlain o hb.1 ha.1), agrees_comm]
    rcases h with ⟨he, hs⟩ | ⟨hn, hp⟩
    · rw [he]
      exact itemsLt_of_precedesAll ha.2 hb.2 hs
    · rw [hn]
      exact lt_of_precedes ha.1 hb.1 hp

end

end

end Value

end StreamStat
