import Mathlib.Data.Set.Card
import StreamStat.Proofs.Equality
import StreamStat.Proofs.FloatNumbers

/-!
# Equal objects fall together in a set

Ranges, distributions, their functions and accounts are compared by what they hold. Where that are
numbers, texts or nothing, equality is an equivalence that tells classes apart, and objects that are
equal have equal hashes. The size of a set is therefore the number of its classes, in whatever
order its members come.
-/

namespace StreamStat

/-! ## Equality as an equivalence -/

namespace Value

theorem equals_symm {v w : Value} (h : equals v w = true) : equals w v = true := by
  cases v <;> cases w <;> simp only [equals, Bool.false_eq_true] at h ⊢
  case number m i n j => exact (Number.eq_comm n m).trans h
  case text s i t j => simpa [eq_comm] using h
  case list as i bs j => exact agreesAll_symm h

theorem equals_trans {v w x : Value} (h : equals v w = true) (h' : equals w x = true) : equals v x = true := by
  cases v <;> cases w <;> simp only [equals, Bool.false_eq_true] at h <;>
    cases x <;> simp only [equals, Bool.false_eq_true] at h' ⊢
  case number.number m i n j k l => exact Number.eq_trans h h'
  case text.text s i t j u k => simp only [decide_eq_true_eq] at h h' ⊢; exact h.trans h'
  case list.list as i bs j cs k => exact agreesAll_trans h h'

theorem agrees_of_equals {v w : Value} (h : equals v w = true) : agrees v w = true := by
  cases v <;> cases w <;> simp_all [equals, agrees]

end Value

namespace Double

theorem eq_symm {x y : Double} (h : x.eq y = true) : y.eq x = true := by
  rwa [eq, Bool.and_comm]

theorem eq_trans {x y z : Double} (h : x.eq y = true) (h' : y.eq z = true) : x.eq z = true := by
  obtain ⟨hx, _, hxy⟩ := level_of_eq h
  obtain ⟨_, hz, hyz⟩ := level_of_eq h'
  exact (eq_iff hx hz).mpr (hxy.trans hyz)

end Double

namespace Body

theorem equals_symm {b c : Body} (h : b.equals c = true) : c.equals b = true := by
  cases b <;> cases c <;> simp only [equals, Bool.false_eq_true, Bool.and_eq_true] at h ⊢
  case min.min => exact Value.equals_symm h
  case max.max => exact Value.equals_symm h
  case minMax.minMax => exact ⟨Value.equals_symm h.1, Value.equals_symm h.2⟩
  case mean.mean => exact Double.eq_symm h
  case variance.variance => exact ⟨Double.eq_symm h.1, Double.eq_symm h.2⟩

theorem equals_trans {b c d : Body} (h : b.equals c = true) (h' : c.equals d = true) : b.equals d = true := by
  cases b <;> cases c <;> simp only [equals, Bool.false_eq_true, Bool.and_eq_true] at h <;>
    cases d <;> simp only [equals, Bool.false_eq_true, Bool.and_eq_true] at h' ⊢
  case min.min.min => exact Value.equals_trans h h'
  case max.max.max => exact Value.equals_trans h h'
  case minMax.minMax.minMax => exact ⟨Value.equals_trans h.1 h'.1, Value.equals_trans h.2 h'.2⟩
  case mean.mean.mean => exact Double.eq_trans h h'
  case variance.variance.variance => exact ⟨Double.eq_trans h.1 h'.1, Double.eq_trans h.2 h'.2⟩

end Body

namespace Account

theorem equals_iff {a b : Account} :
    a.equals b = true ↔ a.title = b.title ∧ a.samples = b.samples ∧ a.body.equals b.body = true := by
  simp [equals]

end Account

/-! ## Objects -/

inductive Kind where
  | range
  | density
  | cumulative
  | distribution
  | account (title : Title)
  deriving DecidableEq

def Value.isAtom : Value → Bool
  | .list _ _ => false
  | v => v.isPlain

theorem Value.isPlain_of_isAtom {v : Value} (h : v.isAtom = true) : v.isPlain = true := by
  cases v <;> first | exact h | cases h

theorem Value.allPlain_of_isAtom {vs : List Value} (h : ∀ v ∈ vs, v.isAtom = true) : allPlain vs = true := by
  induction vs with
  | nil => rfl
  | cons v vs ih =>
    rw [List.forall_mem_cons] at h
    simp [allPlain, isPlain_of_isAtom h.1, ih h.2]

theorem Value.agreesAll_self {vs : List Value} (h : ∀ v ∈ vs, v.isAtom = true) : agreesAll vs vs = true :=
  agreesAll_of_sameAll (allPlain_of_isAtom h) (sameAll_self vs)

namespace Object

def kind? : Object → Option Kind
  | range _ => some .range
  | density _ => some .density
  | cumulative _ => some .cumulative
  | distribution .. => some .distribution
  | account a => some (.account a.title)
  | _ => none

def IsSimple (x : Object) : Prop := x.kind?.isSome = true ∧ ∀ v ∈ x.keys, v.isAtom = true

def equals : Object → Object → Bool
  | range r, range q => Value.agreesAll [r.min, r.max] [q.min, q.max]
  | density p, density q => Value.agreesAll p.fields q.fields
  | cumulative c, cumulative d => Value.agreesAll c.fields d.fields
  | distribution d _ _ _, distribution e _ _ _ =>
    Value.agreesAll [d.domain.min, d.domain.max] [e.domain.min, e.domain.max]
  | account a, account b => a.equals b
  | _, _ => false

theorem agreeAll_of_isAtom (o : ObjectView) {vs ws : List Value} (hv : ∀ v ∈ vs, v.isAtom = true)
    (hw : ∀ w ∈ ws, w.isAtom = true) : Value.agreeAll o vs ws = .ok (Value.agreesAll vs ws) := by
  rw [Value.agreeAll, Value.compareItems_eq_of_isPlain o (Value.allPlain_of_isAtom hv) (Value.allPlain_of_isAtom hw)]
  exact Value.truth_ofBool _

theorem IsSimple.keepsPlain {a : Account} (h : (account a).IsSimple) : a.KeepsPlain :=
  fun v hv => Value.isPlain_of_isAtom (h.2 v hv)

/-- Simple objects can always be compared. -/
theorem compare_of_isSimple (o : ObjectView) {same : Bool} {x y : Object} (hx : x.IsSimple) (hy : y.IsSimple)
    (hs : same = true → x = y) : x.compare o same y = .ok (.ofBool (x.equals y)) := by
  cases x with
  | range r =>
    cases y with
    | range q => exact congrArg (Except.map Value.ofBool) (agreeAll_of_isAtom o hx.2 hy.2)
    | _ => cases same <;> first | rfl | cases hs rfl
  | density p =>
    cases y with
    | density q => exact congrArg (Except.map Value.ofBool) (agreeAll_of_isAtom o hx.2 hy.2)
    | _ => cases same <;> first | rfl | cases hs rfl
  | cumulative c =>
    cases y with
    | cumulative d => exact congrArg (Except.map Value.ofBool) (agreeAll_of_isAtom o hx.2 hy.2)
    | _ => cases same <;> first | rfl | cases hs rfl
  | distribution d i j k =>
    cases y with
    | distribution e i' j' k' =>
      cases same with
      | true =>
        cases hs rfl
        exact congrArg (Except.ok ∘ Value.ofBool) (Value.agreesAll_self hx.2).symm
      | false => exact congrArg (Except.map Value.ofBool) (agreeAll_of_isAtom o hx.2 hy.2)
    | _ => cases same <;> first | rfl | cases hs rfl
  | account a =>
    cases y with
    | account b => exact Account.compare_of_isPlain o hx.keepsPlain hy.keepsPlain
    | _ => cases same <;> first | rfl | cases hs rfl
  | _ => cases hx.1

theorem equals_symm {x y : Object} (h : x.equals y = true) : y.equals x = true := by
  cases x <;> cases y <;> simp only [equals, Bool.false_eq_true] at h ⊢
  case account.account a b =>
    obtain ⟨ht, hs, hb⟩ := Account.equals_iff.mp h
    exact Account.equals_iff.mpr ⟨ht.symm, hs.symm, Body.equals_symm hb⟩
  all_goals exact Value.agreesAll_symm h

theorem equals_trans {x y z : Object} (h : x.equals y = true) (h' : y.equals z = true) : x.equals z = true := by
  cases x <;> cases y <;> simp only [equals, Bool.false_eq_true] at h <;>
    cases z <;> simp only [equals, Bool.false_eq_true] at h' ⊢
  case account.account.account a b c =>
    obtain ⟨ht, hs, hb⟩ := Account.equals_iff.mp h
    obtain ⟨ht', hs', hb'⟩ := Account.equals_iff.mp h'
    exact Account.equals_iff.mpr ⟨ht.trans ht', hs.trans hs', Body.equals_trans hb hb'⟩
  all_goals exact Value.agreesAll_trans h h'

theorem kind?_eq_of_equals {x y : Object} (h : x.equals y = true) : x.kind? = y.kind? := by
  cases x <;> cases y <;> simp only [equals, Bool.false_eq_true] at h <;> simp only [kind?]
  rw [(Account.equals_iff.mp h).1]

end Object

/-! ## Hashes -/

/-- How hashes are computed: of values and of classes, which are given, and of rows of hashes.
Values that are the same or equal have equal hashes. -/
structure Hashing where
  value : Value → Int
  kind : Kind → Int
  row : List Int → Int
  agree : ∀ v w, v.isAtom = true → w.isAtom = true → Value.agrees v w = true → value v = value w

namespace Hashing

variable (H : Hashing)

/-- An account is hashed by its class and its count, and then by its statistic. A variance takes the
hash of its mean further. -/
def account (a : Account) : Int :=
  let base := H.row [H.kind (.account a.title), H.value (.ofInt a.samples)]
  match a.body with
  | .counter | .recorder _ | .view _ _ => base
  | .min x | .max x => H.row [base, H.value x]
  | .minMax x y => H.row [base, H.value x, H.value y]
  | .mean m => H.row [base, H.value (.number (.float m) a.stamp)]
  | .variance m =>
    H.row [H.row [base, H.value (.number (.float m.mean) a.stamp)], H.value (.ofNumber (.float m.spread))]

def object? : Object → Option Int
  | .range r => some (H.row ([r.min, r.max].map H.value))
  | .density p => some (H.row (p.fields.map H.value))
  | .cumulative c => some (H.row (c.fields.map H.value))
  | .distribution d _ _ _ =>
    some (H.row [H.kind .distribution, H.row ([d.domain.min, d.domain.max].map H.value)])
  | .account a => some (H.account a)
  | _ => none

theorem map_value_eq : ∀ {vs ws : List Value}, (∀ v ∈ vs, v.isAtom = true) → (∀ w ∈ ws, w.isAtom = true) →
    Value.agreesAll vs ws = true → vs.map H.value = ws.map H.value
  | [], ws, _, _, h => by rw [Value.agreesAll_nil.mp h]
  | v :: vs, ws, hv, hw, h => by
    obtain ⟨w, ws, rfl, hvw, h⟩ := Value.agreesAll_cons.mp h
    rw [List.forall_mem_cons] at hv hw
    rw [List.map_cons, List.map_cons, H.agree v w hv.1 hw.1 hvw, map_value_eq hv.2 hw.2 h]

theorem value_eq {v w : Value} (hv : v.isAtom = true) (hw : w.isAtom = true) (h : v.equals w = true) :
    H.value v = H.value w :=
  H.agree v w hv hw (Value.agrees_of_equals h)

theorem double_eq {x y : Double} (h : x.eq y = true) (i j : Nat) :
    H.value (.number (.float x) i) = H.value (.number (.float y) j) :=
  H.value_eq rfl rfl ((Number.related_eq_float x y).trans h)

theorem account_eq {a b : Account} (ha : ∀ v ∈ a.extremes, v.isAtom = true) (hb : ∀ v ∈ b.extremes, v.isAtom = true)
    (h : a.equals b = true) : H.account a = H.account b := by
  obtain ⟨ht, hs, hbody⟩ := Account.equals_iff.mp h
  unfold Account.extremes at ha hb
  unfold account
  rw [ht, hs]
  cases hc : a.body <;> cases hd : b.body <;> rw [hc, hd] at hbody <;>
    simp only [Body.equals, Bool.and_eq_true, Bool.false_eq_true] at hbody
  all_goals simp only [hc, hd, List.mem_cons, List.not_mem_nil, or_false, forall_eq_or_imp, forall_eq] at ha hb ⊢
  case min.min => rw [H.value_eq ha hb hbody]
  case max.max => rw [H.value_eq ha hb hbody]
  case minMax.minMax => rw [H.value_eq ha.1 hb.1 hbody.1, H.value_eq ha.2 hb.2 hbody.2]
  case mean.mean => rw [H.double_eq hbody a.stamp b.stamp]
  case variance.variance => rw [H.double_eq hbody.1 a.stamp b.stamp, Value.ofNumber, Value.ofNumber, H.double_eq hbody.2 0 0]

theorem object?_eq {x y : Object} (hx : x.IsSimple) (hy : y.IsSimple) (h : x.equals y = true) :
    ∃ k, H.object? x = some k ∧ H.object? y = some k := by
  cases x <;> cases y <;> simp only [Object.equals, Bool.false_eq_true] at h
  case account.account => exact ⟨_, rfl, congrArg some (H.account_eq hx.2 hy.2 h).symm⟩
  case distribution.distribution =>
    exact ⟨_, rfl, congrArg (fun ks => some (H.row [H.kind .distribution, H.row ks])) (H.map_value_eq hx.2 hy.2 h).symm⟩
  all_goals exact ⟨_, rfl, congrArg (some ∘ H.row) (H.map_value_eq hx.2 hy.2 h).symm⟩

def byContents : Hashing where
  value
    | .number n _ =>
      match n.extended? with
      | some (.finite r) => r.num + r.den
      | _ => 0
    | .text s _ => s.length
    | _ => 0
  kind
    | .account t => t.name.length
    | _ => 0
  row ks := ks.foldl (fun k l => 31 * k + l) 7
  agree v w hv hw h := by
    cases v with
    | none => rw [Value.agrees_none.mp h]
    | number m i =>
      obtain ⟨n, j, rfl, ⟨rfl, _⟩ | he⟩ := Value.agrees_number.mp h
      · rfl
      · obtain ⟨x, hx, hy⟩ := Number.eq_iff.mp he
        simp only [hx, hy]
    | text s i =>
      obtain ⟨j, rfl⟩ := Value.agrees_text.mp h
      rfl
    | _ => cases hv

end Hashing

/-! ## Sets -/

theorem Value.meets_of_agrees (objects : Nat → Nat → Bool) {v w : Value} (hv : v.isAtom = true)
    (h : agrees v w = true) : v.meets objects w = true := by
  cases v with
  | none => rw [agrees_none.mp h]; rfl
  | number m i =>
    obtain ⟨n, j, rfl, _⟩ := agrees_number.mp h
    exact h
  | text s i =>
    obtain ⟨j, rfl⟩ := agrees_text.mp h
    simp [meets]
  | _ => cases hv

theorem Value.all_meets_of_agreesAll (objects : Nat → Nat → Bool) :
    ∀ {vs ws : List Value}, (∀ v ∈ vs, v.isAtom = true) → agreesAll vs ws = true →
      ((vs.zip ws).all fun (v, w) => v.meets objects w) = true
  | [], _, _, _ => rfl
  | v :: vs, ws, hv, h => by
    obtain ⟨w, ws, rfl, hvw, h⟩ := agreesAll_cons.mp h
    rw [List.forall_mem_cons] at hv
    rw [List.zip_cons_cons, List.all_cons, all_meets_of_agreesAll objects hv.2 h, Bool.and_true]
    exact meets_of_agrees objects hv.1 hvw

theorem Object.agreesAll_keys {x y : Object} (h : x.equals y = true) : Value.agreesAll x.keys y.keys = true := by
  cases x <;> cases y <;> simp only [equals, Bool.false_eq_true] at h
  case account.account a b =>
    have hbody := (Account.equals_iff.mp h).2.2
    simp only [keys, Account.extremes]
    cases hc : a.body <;> cases hd : b.body <;> rw [hc, hd] at hbody <;>
      simp only [Body.equals, Bool.and_eq_true, Bool.false_eq_true] at hbody
    case min.min => simp [Value.agreesAll, Value.agrees_of_equals hbody]
    case max.max => simp [Value.agreesAll, Value.agrees_of_equals hbody]
    case minMax.minMax => simp [Value.agreesAll, Value.agrees_of_equals hbody.1, Value.agrees_of_equals hbody.2]
    all_goals rfl
  all_goals exact h

namespace Store

variable {s : Store}

def HasSimple (s : Store) (h : Nat) : Prop := ∃ x, s.object? h = some x ∧ x.IsSimple

def Coincide (s : Store) (i j : Nat) : Prop :=
  i = j ∨ (Value.handle i).equal s.view (.handle j) = .ok true

def kind? (s : Store) (h : Nat) : Option Kind := (s.object? h).bind Object.kind?

def hash? (H : Hashing) (s : Store) (h : Nat) : Option Int := (s.object? h).bind H.object?

theorem equal_handles {i j : Nat} {x y : Object} (hx : s.object? i = some x) (hy : s.object? j = some y)
    (sx : x.IsSimple) (sy : y.IsSimple) : (Value.handle i).equal s.view (.handle j) = .ok (x.equals y) := by
  have hs : decide (i = j) = true → x = y := fun h => by
    rw [of_decide_eq_true h, hy] at hx
    exact (Option.some.inj hx).symm
  rw [Value.equal, compare_handles hx hy, Object.compare_of_isSimple _ sx sy hs]
  exact Value.truth_ofBool _

theorem coincide_iff {i j : Nat} {x y : Object} (hx : s.object? i = some x) (hy : s.object? j = some y)
    (sx : x.IsSimple) (sy : y.IsSimple) : s.Coincide i j ↔ i = j ∨ x.equals y = true := by
  rw [Coincide, equal_handles hx hy sx sy, Except.ok.injEq]

theorem Coincide.symm {i j : Nat} (hi : s.HasSimple i) (hj : s.HasSimple j) (h : s.Coincide i j) : s.Coincide j i := by
  obtain ⟨x, hx, sx⟩ := hi
  obtain ⟨y, hy, sy⟩ := hj
  exact (coincide_iff hy hx sy sx).mpr (((coincide_iff hx hy sx sy).mp h).imp Eq.symm Object.equals_symm)

theorem Coincide.trans {i j k : Nat} (hi : s.HasSimple i) (hj : s.HasSimple j) (hk : s.HasSimple k)
    (h : s.Coincide i j) (h' : s.Coincide j k) : s.Coincide i k := by
  obtain ⟨x, hx, sx⟩ := hi
  obtain ⟨y, hy, sy⟩ := hj
  obtain ⟨z, hz, sz⟩ := hk
  rcases (coincide_iff hx hy sx sy).mp h with rfl | hxy
  · exact h'
  rcases (coincide_iff hy hz sy sz).mp h' with rfl | hyz
  · exact h
  exact (coincide_iff hx hz sx sz).mpr (.inr (Object.equals_trans hxy hyz))

/-- Objects that coincide are of one class and have one hash. -/
theorem Coincide.hash (H : Hashing) {i j : Nat} (hi : s.HasSimple i) (hj : s.HasSimple j) (h : s.Coincide i j) :
    s.kind? i = s.kind? j ∧ ∃ k, s.hash? H i = some k ∧ s.hash? H j = some k := by
  obtain ⟨x, hx, sx⟩ := hi
  obtain ⟨y, hy, sy⟩ := hj
  simp only [kind?, hash?, hx, hy, Option.bind_some]
  rcases (coincide_iff hx hy sx sy).mp h with rfl | h
  · rw [hx] at hy
    cases hy
    refine ⟨rfl, ?_⟩
    cases x <;> first | exact ⟨_, rfl, rfl⟩ | cases sx.1
  · exact ⟨Object.kind?_eq_of_equals h, H.object?_eq sx sy h⟩

/-! ### Looking up members -/

theorem isHashable_handle {h : Nat} (hs : s.HasSimple h) : s.isHashable (.handle h) = true := by
  obtain ⟨x, hx, sx⟩ := hs
  have hatom : ∀ v : Value, v.isAtom = true → ∀ depth, s.isHashableWithin depth v = true := by
    intro v hv depth
    cases v <;> first | (cases depth <;> rfl) | cases hv
  simp only [isHashable, isHashableWithin, objectOf?, hx, List.all_eq_true]
  exact fun v hv => hatom v (sx.2 v hv) _

theorem meets_of_equals {i j : Nat} {x y : Object} (hx : s.object? i = some x) (hy : s.object? j = some y)
    (sx : x.IsSimple) (h : x.equals y = true) : s.meets (.handle i) (.handle j) = true := by
  have hkeys := Object.agreesAll_keys h
  have hmet : s.meetsWithin (s.objects.length + 1) i j = true := by
    simp only [meetsWithin, hx, hy, Value.length_eq_of_agreesAll hkeys, decide_true, Bool.true_and,
      Value.all_meets_of_agreesAll _ sx.2 hkeys, Bool.or_true]
  simp only [meets, Value.meets, hmet, Bool.or_true]

/-- A handle is found in a set if and only if it coincides with a member. -/
theorem isAmong_handles {h : Nat} (hh : s.HasSimple h) :
    ∀ {ks : List Nat}, (∀ k ∈ ks, s.HasSimple k) →
      ∃ b, s.isAmong (ks.map .handle) (.handle h) = .ok b ∧ (b = true ↔ ∃ k ∈ ks, s.Coincide k h)
  | [], _ => ⟨false, rfl, by simp⟩
  | k :: ks, hks => by
    rw [List.forall_mem_cons] at hks
    obtain ⟨b, hb, hiff⟩ := isAmong_handles hh hks.2
    obtain ⟨x, hx, sx⟩ := hks.1
    obtain ⟨y, hy, sy⟩ := hh
    have hfirst : (if (Value.handle k).same (.handle h) then .ok true
        else if s.meets (.handle k) (.handle h) then (Value.handle k).equal s.view (.handle h) else .ok false) =
        (.ok (decide (k = h) || x.equals y) : Except Fault Bool) := by
      simp only [Value.same, equal_handles hx hy sx sy]
      by_cases hkh : k = h
      · simp [hkh]
      · cases heq : x.equals y with
        | true => simp [hkh, meets_of_equals hx hy sx heq]
        | false => simp [hkh]
    have hmem : (decide (k = h) || x.equals y) = true ↔ s.Coincide k h := by
      rw [coincide_iff hx hy sx sy, Bool.or_eq_true, decide_eq_true_eq]
    simp only [isAmong] at hb
    refine ⟨decide (k = h) || x.equals y || b, ?_, ?_⟩
    · simp only [isAmong, List.map_cons, List.anyM_cons, hfirst, hb]
      cases decide (k = h) || x.equals y <;> rfl
    · rw [Bool.or_eq_true, hmem, hiff]
      simp

/-! ### Collecting members -/

def classOf (s : Store) (h : Nat) : Set Nat := {k | s.HasSimple k ∧ s.Coincide h k}

theorem classOf_eq_iff {i j : Nat} (hi : s.HasSimple i) (hj : s.HasSimple j) :
    s.classOf i = s.classOf j ↔ s.Coincide i j := by
  constructor
  · intro h
    have hmem : j ∈ s.classOf j := ⟨hj, .inl rfl⟩
    rw [← h] at hmem
    exact hmem.2
  · intro h
    refine Set.ext fun k => ⟨fun hk => ⟨hk.1, ?_⟩, fun hk => ⟨hk.1, ?_⟩⟩
    · exact (h.symm hi hj).trans hj hi hk.1 hk.2
    · exact h.trans hi hj hk.1 hk.2

def insert (s : Store) (kept : List Value) (v : Value) : Except Fault (List Value) := do
  if !s.isHashable v then throw .wrongType
  if ← s.isAmong kept v then return kept else return v :: kept

theorem collect_eq_foldlM (vs : List Value) : s.collect vs = vs.foldlM s.insert [] := rfl

theorem insert_handle {h : Nat} (hh : s.HasSimple h) {ks : List Nat} (hks : ∀ k ∈ ks, s.HasSimple k)
    (hn : (ks.map s.classOf).Nodup) :
    ∃ ks' : List Nat, s.insert (ks.map .handle) (.handle h) = .ok (ks'.map .handle) ∧ (∀ k ∈ ks', s.HasSimple k) ∧
      (ks'.map s.classOf).Nodup ∧ ∀ c, c ∈ ks'.map s.classOf ↔ c = s.classOf h ∨ c ∈ ks.map s.classOf := by
  obtain ⟨b, hb, hiff⟩ := isAmong_handles hh hks
  have hmem : b = true ↔ s.classOf h ∈ ks.map s.classOf := by
    rw [hiff, List.mem_map]
    exact exists_congr fun k => and_congr_right fun hk => (classOf_eq_iff (hks k hk) hh).symm
  have hinsert : s.insert (ks.map .handle) (.handle h) =
      .ok (if b then ks.map .handle else .handle h :: ks.map .handle) := by
    simp only [insert, isHashable_handle hh, hb]
    cases b <;> rfl
  rw [hinsert]
  cases b with
  | true =>
    refine ⟨ks, rfl, hks, hn, fun c => ⟨.inr, ?_⟩⟩
    rintro (rfl | hc)
    · exact hmem.mp rfl
    · exact hc
  | false =>
    refine ⟨h :: ks, rfl, List.forall_mem_cons.mpr ⟨hh, hks⟩, ?_, fun c => by simp⟩
    exact List.nodup_cons.mpr ⟨fun hc => Bool.false_ne_true (hmem.mpr hc), hn⟩

/-- A set keeps one object of each class. -/
theorem foldlM_insert_handles : ∀ {hs ks : List Nat}, (∀ h ∈ hs, s.HasSimple h) → (∀ k ∈ ks, s.HasSimple k) →
    (ks.map s.classOf).Nodup →
      ∃ ks' : List Nat, (hs.map .handle).foldlM s.insert (ks.map .handle) = .ok (ks'.map .handle) ∧
        (ks'.map s.classOf).Nodup ∧ ∀ c, c ∈ ks'.map s.classOf ↔ c ∈ hs.map s.classOf ∨ c ∈ ks.map s.classOf
  | [], ks, _, _, hn => ⟨ks, rfl, hn, fun c => by simp⟩
  | h :: hs, ks, hh, hks, hn => by
    rw [List.forall_mem_cons] at hh
    obtain ⟨ks', heq, hks', hn', hmem'⟩ := insert_handle hh.1 hks hn
    obtain ⟨ks'', heq', hn'', hmem''⟩ := foldlM_insert_handles hh.2 hks' hn'
    refine ⟨ks'', ?_, hn'', fun c => ?_⟩
    · rw [List.map_cons, List.foldlM_cons, heq]
      exact heq'
    · rw [hmem'', hmem', List.map_cons, List.mem_cons]
      tauto

/-- The size of a set of objects is the number of their classes. -/
theorem distinct_handles {hs : List Nat} (hh : ∀ h ∈ hs, s.HasSimple h) :
    s.distinct (hs.map .handle) = .ok (s.classOf '' {h | h ∈ hs}).ncard := by
  classical
  obtain ⟨ks, heq, hn, hmem⟩ := foldlM_insert_handles hh (List.forall_mem_nil s.HasSimple) List.nodup_nil
  have hset : s.classOf '' {h | h ∈ hs} = (ks.map s.classOf).toFinset := by
    ext c
    simp only [Set.mem_image, Set.mem_ofPred_eq, List.coe_toFinset, hmem, List.mem_map, List.map_nil, List.not_mem_nil,
      or_false]
  rw [hset, Set.ncard_coe_finset, List.toFinset_card_of_nodup hn, List.length_map, distinct, collect_eq_foldlM]
  simp only [List.map_nil] at heq
  rw [heq]
  simp [Except.map]

/-- To coincide is an equivalence that keeps classes of objects apart and goes with equal hashes, so
that a set of objects has as many members as there are classes among them, in any order. -/
theorem equal_objects_fall_together (H : Hashing) (s : Store) :
    Equivalence (fun i j : {h // s.HasSimple h} => s.Coincide i j) ∧
      (∀ i j : {h // s.HasSimple h}, s.Coincide i j →
        s.kind? i = s.kind? j ∧ ∃ k, s.hash? H i = some k ∧ s.hash? H j = some k) ∧
      ∀ hs : List {h // s.HasSimple h},
        s.distinct (hs.map fun h => .handle h.1) = .ok (s.classOf '' {h | h ∈ hs.map Subtype.val}).ncard ∧
          ∀ hs' : List {h // s.HasSimple h}, hs'.Perm hs →
            s.distinct (hs'.map fun h => .handle h.1) = s.distinct (hs.map fun h => .handle h.1) := by
  have hcount : ∀ hs : List {h // s.HasSimple h},
      s.distinct (hs.map fun h => .handle h.1) = .ok (s.classOf '' {h | h ∈ hs.map Subtype.val}).ncard := by
    intro hs
    rw [← distinct_handles fun h hh => ?_, List.map_map]
    · rfl
    · obtain ⟨k, _, rfl⟩ := List.mem_map.mp hh
      exact k.2
  refine ⟨⟨fun i => .inl rfl, fun {i j} h => h.symm i.2 j.2, fun {i j k} h h' => h.trans i.2 j.2 k.2 h'⟩,
    fun i j h => h.hash H i.2 j.2, fun hs => ⟨hcount hs, fun hs' hp => ?_⟩⟩
  have hset : {h | h ∈ hs'.map Subtype.val} = {h | h ∈ hs.map Subtype.val} :=
    Set.ext fun h => (hp.map Subtype.val).mem_iff
  rw [hcount, hcount, hset]

/-- Two ranges with equal bounds, and two accounts with equal counts, of which one has a NaN as its
least sample. -/
def lookalikes : Store where
  objects :=
    [.range ⟨.number (.int 1) 2, .number (.float .nan) 3, rfl, rfl⟩,
      .range ⟨.number (.fraction 1) 4, .number (.float .nan) 3, rfl, rfl⟩,
      .account { Account.opened (.statistic .min false) 0 with samples := 1, body := .min (.number (.float .nan) 3) },
      .account { Account.opened (.statistic .min false) 0 with samples := 1, body := .min (.number (.int 1) 2) }]
  tapes := []
  marks := 5
  changes := []

theorem hasSimple_lookalikes : ∀ h : Fin 4, lookalikes.HasSimple h
  | 0 => ⟨_, rfl, rfl, by decide⟩
  | 1 => ⟨_, rfl, rfl, by decide⟩
  | 2 => ⟨_, rfl, rfl, by decide⟩
  | 3 => ⟨_, rfl, rfl, by decide⟩

theorem equal_objects_of_lookalikes :
    lookalikes.hash? .byContents 0 = lookalikes.hash? .byContents 1 ∧
      lookalikes.distinct [.handle 3, .handle 1, .handle 2, .handle 0, .handle 2] = .ok 3 := by
  let member (h : Fin 4) : {h // lookalikes.HasSimple h} := ⟨h, hasSimple_lookalikes h⟩
  obtain ⟨_, hhash, hcount⟩ := equal_objects_fall_together .byContents lookalikes
  constructor
  · obtain ⟨_, k, h0, h1⟩ := hhash (member 0) (member 1) (.inr (by decide +kernel))
    exact h0.trans h1.symm
  · have hp : [member 3, member 1, member 2, member 0, member 2].Perm
        [member 0, member 1, member 2, member 2, member 3] := by
      decide
    refine ((hcount _).2 _ hp).trans ?_
    decide +kernel

end Store

end StreamStat
