import Mathlib.Data.List.Forall2
import StreamStat.Proofs.FloatNumbers
import StreamStat.Proofs.Ramp
import StreamStat.Uniform.Distribution

/-!
# Uniform functions over arrays

A call of a uniform function on a list or an array gives an array of the same shape, whose
cells agree with the calls on the items one by one.
-/

namespace StreamStat

open Double Value

/-! ## Computations that may fail -/

section
variable {α β ε : Type}

theorem bind_ok {x : Except ε α} {f : α → Except ε β} {b : β} (h : x >>= f = .ok b) :
    ∃ a, x = .ok a ∧ f a = .ok b := by
  cases x with
  | error e => cases h
  | ok a => exact ⟨a, rfl, h⟩

theorem mapM_forall₂ {f : α → Except ε β} {R : α → β → Prop} :
    ∀ {as : List α}, (∀ a ∈ as, ∃ b, f a = .ok b ∧ R a b) → ∃ bs, as.mapM f = .ok bs ∧ List.Forall₂ R as bs
  | [], _ => ⟨[], rfl, .nil⟩
  | a :: as, h => by
    obtain ⟨b, hb, hab⟩ := h a List.mem_cons_self
    obtain ⟨bs, hbs, hr⟩ := mapM_forall₂ fun a ha => h a (List.mem_cons_of_mem _ ha)
    refine ⟨b :: bs, ?_, .cons hab hr⟩
    rw [List.mapM_cons, hb, hbs]
    rfl

end

/-! ## The checks of a width -/

/-- A fault whose message tells the bounds; it cannot be told if a bound has no text. -/
def report (a b : Number) (fault : String → String → Fault) : Except Fault Value := do
  throw (fault (← a.inlineText) (← b.inlineText))

theorem checkedWidth_number {a b w : Number} (hsub : Number.sub b a = .ok w) (hw : w.isReal = true) (i j : Nat) :
    checkedWidth (number a i) (number b j) = w.toDouble >>= fun y =>
      if !y.isFinite then report a b fun s t => .argument (.infiniteWidth s t)
      else if Number.related .eq w (.float 0) then report a b fun s t => .degenerate (.zeroWidth s t)
      else if Number.related .lt w (.float 0) then report a b fun s t => .argument (.reversedBounds s t)
      else if y.eq 0 then .error .divisionByZero
      else if !(1 / y).isFinite then report a b fun s t => .degenerate (.tooNarrow s t)
      else .ok (ofNumber w) := by
  have hwidth : Arithmetic.sub (number b j) (number a i) = .ok (ofNumber w) := congrArg (Except.map ofNumber) hsub
  have hend (n : Number) : Arithmetic.isEndless (ofNumber n) = n.toDouble.map fun y => !y.isFinite := rfl
  have hrel (rel : Relation) : (Value.compare .none rel (ofNumber w) Arithmetic.zero >>= truth) =
      .ok (Number.related rel w (.float 0)) := Value.compare_of_isReal .none hw rfl 0 constantMark rel
  have heq : Arithmetic.eq (ofNumber w) Arithmetic.zero = _ := hrel .eq
  have hlt : Arithmetic.lt (ofNumber w) Arithmetic.zero = _ := hrel .lt
  have hfloat (z : Double) : Arithmetic.isEndless (ofNumber (.float z)) = .ok (!z.isFinite) := rfl
  have hdiv : Arithmetic.div Arithmetic.one (ofNumber w) = (Number.div (.float 1) w).map ofNumber := rfl
  have htext (n : Number) (k : Nat) : Arithmetic.text (number n k) = n.inlineText := rfl
  rw [Number.float_div 1 hw] at hdiv
  simp only [checkedWidth, report, hwidth, hend, heq, hlt, hdiv, htext, bind, Except.bind, pure, Except.pure, throw,
    throwThe, MonadExceptOf.throw]
  cases w.toDouble with
  | error e => rfl
  | ok y =>
    by_cases hz : y.eq 0 = true
    · simp only [Except.map, hz, if_true]
    · simp only [Except.map, hz, Bool.false_eq_true, if_false, hfloat]

section
variable {l u : Double} {i j : Nat}

theorem div_one_float (h : (u - l).eq 0 = false) :
    Arithmetic.div Arithmetic.one (ofNumber (.float (u - l))) = .ok (ofNumber (.float (1 / (u - l)))) :=
  div_float 1 (u - l) constantMark 0 h

theorem checkedWidth_float :
    checkedWidth (number (.float l) i) (number (.float u) j) =
      if !(u - l).isFinite then .error (.argument (.infiniteWidth l.text u.text))
      else if (u - l).eq 0 then .error (.degenerate (.zeroWidth l.text u.text))
      else if (u - l).lt 0 then .error (.argument (.reversedBounds l.text u.text))
      else if !(1 / (u - l)).isFinite then .error (.degenerate (.tooNarrow l.text u.text))
      else .ok (ofNumber (.float (u - l))) := by
  have hsub : Number.sub (.float u) (.float l) = .ok (.float (u - l)) := rfl
  have hwidth : (Number.float (u - l)).toDouble = .ok (u - l) := rfl
  have hreport (f : String → String → Fault) : report (.float l) (.float u) f = .error (f l.text u.text) := rfl
  rw [checkedWidth_number hsub rfl, hwidth]
  simp only [bind, Except.bind, hreport, Number.related_eq_float, Number.related_lt_float]
  cases (u - l).eq 0 with
  | true => simp only [if_true]
  | false => simp only [Bool.false_eq_true, if_false]

/-- Bounds that are doubles are accepted if and only if they span a domain. -/
theorem checkedWidth_iff {w : Value} :
    checkedWidth (number (.float l) i) (number (.float u) j) = .ok w ↔
      Spans l u ∧ w = ofNumber (.float (u - l)) := by
  rw [checkedWidth_float]
  constructor
  · intro h
    split at h
    · cases h
    · rename_i hf
      split at h
      · cases h
      · rename_i hz
        split at h
        · cases h
        · rename_i hneg
          split at h
          · cases h
          · rename_i hw
            rw [Bool.not_eq_true', Bool.not_eq_false] at hf hw
            have hn := isNaN_of_isFinite hf
            have := mt (eq_zero_iff hn).mpr hz
            have := mt (lt_zero_iff hn).mpr hneg
            exact ⟨⟨hf, by omega, hw⟩, (Except.ok.inj h).symm⟩
  · rintro ⟨h, rfl⟩
    have hneg : ¬ (u - l).lt 0 = true := fun hneg =>
      absurd ((lt_zero_iff (isNaN_of_isFinite h.isFinite)).mp hneg) (not_lt.mpr h.pos.le)
    simp only [h.isFinite, h.ne_zero, h.wide, hneg, Bool.not_true, Bool.false_eq_true, if_false]

end

/-! ## Items -/

theorem shape_of_toDouble {w : Value} {x : Double} (h : w.toDouble = .ok x) : w.shape = .ok [] := by
  cases w with
  | array g mark =>
    obtain ⟨t, shape, cells⟩ := g
    cases shape with
    | nil => rfl
    | cons n shape => cases h
  | number n mark => rfl
  | text s mark => rfl
  | _ => cases h

theorem cellDouble_of_toDouble {w : Value} {x : Double} (h : w.toDouble = .ok x) : w.cellDouble = .ok x := by
  cases w with
  | none => cases h
  | _ => exact h

theorem toPoints_of_items {v : Value} {shape : List Nat} (hs : v.shape = .ok shape)
    (hv : ∀ w ∈ v.leaves, ∃ x, w.toDouble = .ok x) :
    ∃ xs, v.toPoints = .ok ⟨shape, xs⟩ ∧ List.Forall₂ (fun w x => w.toDouble = .ok x) v.leaves xs := by
  have hcells : ∀ w ∈ v.leaves, ∃ x, w.cellDouble = .ok x ∧ w.toDouble = .ok x := by
    intro w hw
    obtain ⟨x, hx⟩ := hv w hw
    exact ⟨x, cellDouble_of_toDouble hx, hx⟩
  obtain ⟨xs, hxs, hr⟩ := mapM_forall₂ hcells
  refine ⟨xs, ?_, hr⟩
  simp only [toPoints, hs, hxs, bind, Except.bind]
  rfl

/-- A function goes through the items of a value: it gives an array of doubles in the shape
of the value, and each cell is alike to what the function gives for the item. -/
def Itemwise (f : Value → Except Fault Value) (v : Value) : Prop :=
  ∃ g : Grid, f v = .ok (.array g 0) ∧ v.shape = .ok g.shape ∧ g.cellType = .floating .double ∧
    List.Forall₂
      (fun w n => ∃ x y i, f w = .ok (number (.float x) i) ∧ n = .machineFloat .double y ∧ x.alike y = true)
      v.leaves g.cells

theorem itemwise_of_cells (cell : Double → Double) {f : Value → Except Fault Value} {v : Value}
    {shape : List Nat} (hs : v.shape = .ok shape) (hv : ∀ w ∈ v.leaves, ∃ x, w.toDouble = .ok x)
    (hitem : ∀ w x, w.toDouble = .ok x → ∃ y i, f w = .ok (number (.float y) i) ∧ y.alike (cell x) = true)
    (hgrid : ∀ xs, v.toPoints = .ok ⟨shape, xs⟩ →
      f v = .ok (.array ⟨.floating .double, shape, xs.map fun x => .machineFloat .double (cell x)⟩ 0)) :
    Itemwise f v := by
  obtain ⟨xs, hxs, hr⟩ := toPoints_of_items hs hv
  refine ⟨_, hgrid xs hxs, hs, rfl, List.forall₂_map_right_iff.mpr (hr.imp ?_)⟩
  intro w x hx
  obtain ⟨y, i, hy, halike⟩ := hitem w x hx
  exact ⟨y, cell x, i, hy, rfl, halike⟩

theorem stamp_number (n : Number) (i mark : Nat) : ∃ j, (number n i).stamp mark = number n j := by
  cases i with
  | zero => exact ⟨mark, rfl⟩
  | succ i => exact ⟨i + 1, rfl⟩

/-! ## The density -/

namespace Density

theorem ofBounds_float {l u : Double} {i j : Nat} {p : Density Value} :
    ofBounds (number (.float l) i) (number (.float u) j) = .ok p ↔
      Spans l u ∧ p = ⟨number (.float l) i, number (.float u) j, ofNumber (.float (1 / (u - l)))⟩ := by
  constructor
  · intro h
    obtain ⟨w, hw, h⟩ := bind_ok h
    obtain ⟨d, hd, h⟩ := bind_ok h
    obtain ⟨hs, rfl⟩ := checkedWidth_iff.mp hw
    rw [div_one_float hs.ne_zero] at hd
    cases hd
    exact ⟨hs, (Except.ok.inj h).symm⟩
  · rintro ⟨hs, rfl⟩
    simp only [ofBounds, checkedWidth_iff.mpr ⟨hs, rfl⟩, bind, Except.bind, div_one_float hs.ne_zero]
    rfl

def kept (a b e : Nat) (p : Density Value) : Density Value :=
  ⟨p.lower.stamp a, p.upper.stamp b, p.density.stamp e⟩

theorem kept_number (a b n : Number) (i j k x y z : Nat) : ∃ i' j' k',
    kept x y z ⟨number a i, number b j, number n k⟩ = ⟨number a i', number b j', number n k'⟩ := by
  obtain ⟨i', hi⟩ := stamp_number a i x
  obtain ⟨j', hj⟩ := stamp_number b j y
  obtain ⟨k', hk⟩ := stamp_number n k z
  exact ⟨i', j', k', by simp only [kept, hi, hj, hk]⟩

def isWithin (a b : Number) (x : Double) : Bool := Number.related .le a (.float x) && Number.related .le (.float x) b

def isInside (l u x : Double) : Bool :=
  Number.related .le (.float l) (.float x) && Number.related .le (.float x) (.float u)

theorem isInside_iff {l u x : Double} (hl : l.isNaN = false) (hu : u.isNaN = false) (hx : x.isNaN = false) :
    isInside l u x = true ↔ l.level ≤ x.level ∧ x.level ≤ u.level := by
  rw [isInside, Number.related_le_float, Number.related_le_float, Bool.and_eq_true, le_iff hl hx, le_iff hx hu]

theorem cell_float (l u d x : Double) : cell (.float l) (.float u) d x = .ok (if isInside l u x then d else 0) := by
  rw [cell, Number.le_of_isReal rfl rfl, Number.le_of_isReal rfl rfl]
  rfl

section
variable {a b : Number} (d : Double) (i j k : Nat)

theorem eval_of_isReal (ha : a.isReal = true) (hb : b.isReal = true) (x : Double) :
    ∃ m, eval ⟨number a i, number b j, number (.float d) k⟩ (ofNumber (.float x)) =
      .ok (number (.float (if isWithin a b x then d else 0)) m) := by
  have hlow : Arithmetic.le (number a i) (ofNumber (.float x)) = _ := Value.le_of_isReal .none ha rfl i 0
  have hhigh : Arithmetic.le (ofNumber (.float x)) (number b j) = _ := Value.le_of_isReal .none rfl hb 0 j
  unfold eval isWithin
  rw [hlow]
  cases Number.related .le a (.float x) with
  | false => exact ⟨constantMark, rfl⟩
  | true =>
    simp only [bind, Except.bind, if_true, hhigh]
    cases Number.related .le (.float x) b with
    | false => exact ⟨constantMark, rfl⟩
    | true => exact ⟨k, rfl⟩

theorem apply_of_isReal (ha : a.isReal = true) (hb : b.isReal = true) {v : Value} {x : Double}
    (hv : v.toDouble = .ok x) : ∃ m, apply ⟨number a i, number b j, number (.float d) k⟩ v =
      .ok (number (.float (if isWithin a b x then d else 0)) m) := by
  obtain ⟨m, hm⟩ := eval_of_isReal d i j k ha hb x
  refine ⟨m, ?_⟩
  rw [apply, shape_of_toDouble hv, hv]
  exact hm

section
variable {l u : Double} (hl : a.gridBound = .ok (.float l)) (hu : b.gridBound = .ok (.float u))
include hl hu

theorem evalGrid_of_gridBound (shape : List Nat) (xs : List Double) :
    evalGrid ⟨number a i, number b j, number (.float d) k⟩ ⟨shape, xs⟩ =
      .ok ⟨.floating .double, shape,
        xs.map fun x => .machineFloat .double (if isInside l u x then d else 0)⟩ := by
  have hcells : xs.mapM (cell (.float l) (.float u) d) =
      .ok (xs.map fun x => if isInside l u x then d else 0) := by
    rw [funext (cell_float l u d)]
    exact List.mapM_pure
  show (a.gridBound >>= fun lower => b.gridBound >>= fun upper => xs.mapM (cell lower upper d) >>= fun cells =>
    pure (Grid.mk (.floating .double) shape (cells.map (.machineFloat .double)))) = _
  simp only [hl, hu, hcells, bind, Except.bind, List.map_map]
  rfl

theorem apply_of_toPoints {v : Value} {shape : List Nat} {xs : List Double} (hs : v.shape = .ok shape)
    (hne : shape ≠ []) (hxs : v.toPoints = .ok ⟨shape, xs⟩) :
    apply ⟨number a i, number b j, number (.float d) k⟩ v = .ok (.array ⟨.floating .double, shape,
      xs.map fun x => .machineFloat .double (if isInside l u x then d else 0)⟩ 0) := by
  rw [apply, hs, hxs]
  simp only [bind, Except.bind, hne, if_false, evalGrid_of_gridBound d i j k hl hu]
  rfl

/-- Cells are compared with rounded bounds; single points are compared alike if it makes no
difference. -/
theorem itemwise_of_isReal (ha : a.isReal = true) (hb : b.isReal = true)
    (hagree : ∀ x, isWithin a b x = isInside l u x) {v : Value} {shape : List Nat} (hs : v.shape = .ok shape)
    (hne : shape ≠ []) (hv : ∀ w ∈ v.leaves, ∃ x, w.toDouble = .ok x) :
    Itemwise (apply ⟨number a i, number b j, number (.float d) k⟩) v := by
  refine itemwise_of_cells (fun x => if isInside l u x then d else 0) hs hv ?_ ?_
  · intro w x hx
    obtain ⟨m, hm⟩ := apply_of_isReal d i j k ha hb hx
    rw [hagree] at hm
    exact ⟨_, m, hm, alike_self _⟩
  · intro xs hxs
    exact apply_of_toPoints d i j k hl hu hs hne hxs

end

end

theorem itemwise_kept {l u : Double} {i j : Nat} {p : Density Value}
    (hp : ofBounds (number (.float l) i) (number (.float u) j) = .ok p) (a b e : Nat)
    {v : Value} {shape : List Nat} (hs : v.shape = .ok shape) (hne : shape ≠ [])
    (hv : ∀ w ∈ v.leaves, ∃ x, w.toDouble = .ok x) : Itemwise (p.kept a b e).apply v := by
  obtain ⟨_, rfl⟩ := ofBounds_float.mp hp
  obtain ⟨i', j', k', hkept⟩ := kept_number (.float l) (.float u) (.float (1 / (u - l))) i j 0 a b e
  rw [ofNumber, hkept]
  exact itemwise_of_isReal _ i' j' k' rfl rfl rfl rfl (fun _ => rfl) hs hne hv

end Density

/-! ## The cumulative function -/

namespace Cumulative

theorem ofBounds_float {l u : Double} {i j : Nat} {c : Cumulative Value} :
    ofBounds (number (.float l) i) (number (.float u) j) = .ok c ↔
      Spans l u ∧ c = ⟨number (.float l) i, number (.float u) j, ofNumber (.float (u - l))⟩ := by
  constructor
  · intro h
    obtain ⟨w, hw, h⟩ := bind_ok h
    obtain ⟨hs, rfl⟩ := checkedWidth_iff.mp hw
    exact ⟨hs, (Except.ok.inj h).symm⟩
  · rintro ⟨hs, rfl⟩
    simp only [ofBounds, checkedWidth_iff.mpr ⟨hs, rfl⟩]
    rfl

def kept (a b e : Nat) (c : Cumulative Value) : Cumulative Value :=
  ⟨c.lower.stamp a, c.upper.stamp b, c.divisor.stamp e⟩

theorem kept_number (a b n : Number) (i j k x y z : Nat) : ∃ i' j' k',
    kept x y z ⟨number a i, number b j, number n k⟩ = ⟨number a i', number b j', number n k'⟩ := by
  obtain ⟨i', hi⟩ := stamp_number a i x
  obtain ⟨j', hj⟩ := stamp_number b j y
  obtain ⟨k', hk⟩ := stamp_number n k z
  exact ⟨i', j', k', by simp only [kept, hi, hj, hk]⟩

section
variable {a b n : Number} {l d : Double} (i j k : Nat)

section
variable (ha : a.isReal = true) (hb : b.isReal = true) (hn : n.isReal = true) (hl : a.toDouble = .ok l)
  (hd : n.toDouble = .ok d) (hz : ¬ d.eq 0 = true)
include ha hb hn hl hd hz

theorem eval_of_isReal (x : Double) :
    ∃ m, eval ⟨number a i, number b j, number n k⟩ (ofNumber (.float x)) =
      .ok (number (.float (stepBetween a b l d x)) m) := by
  have hlow : Arithmetic.lt (ofNumber (.float x)) (number a i) = _ := Value.lt_of_isReal .none rfl ha 0 i
  have hhigh : Arithmetic.lt (number b j) (ofNumber (.float x)) = _ := Value.lt_of_isReal .none hb rfl j 0
  have hsub : Arithmetic.sub (ofNumber (.float x)) (number a i) = .ok (ofNumber (.float (x - l))) := by
    show (Number.sub (.float x) a).map ofNumber = _
    rw [Number.float_sub x ha, hl]
    rfl
  have hdiv : Arithmetic.div (ofNumber (.float (x - l))) (number n k) = .ok (ofNumber (.float (ramp l d x))) := by
    show (Number.div (.float (x - l)) n).map ofNumber = _
    rw [Number.float_div _ hn, hd]
    simp only [bind, Except.bind, if_neg hz]
    rfl
  unfold eval stepBetween
  rw [hlow]
  cases Number.related .lt (.float x) a with
  | true => exact ⟨constantMark, rfl⟩
  | false =>
    simp only [bind, Except.bind, Bool.false_eq_true, if_false, hhigh]
    cases Number.related .lt b (.float x) with
    | true => exact ⟨constantMark, rfl⟩
    | false => exact ⟨0, by simp only [hsub, hdiv, Bool.false_eq_true, if_false]; rfl⟩

theorem apply_of_isReal {v : Value} {x : Double} (hv : v.toDouble = .ok x) :
    ∃ m, apply ⟨number a i, number b j, number n k⟩ v = .ok (number (.float (stepBetween a b l d x)) m) := by
  obtain ⟨m, hm⟩ := eval_of_isReal i j k ha hb hn hl hd hz x
  refine ⟨m, ?_⟩
  rw [apply, shape_of_toDouble hv, hv]
  exact hm

end

section
variable (hl : a.gridBound = .ok (.float l)) (hd : n.gridBound = .ok (.float d))
include hl hd

theorem evalGrid_of_gridBound (shape : List Nat) (xs : List Double) :
    evalGrid ⟨number a i, number b j, number n k⟩ ⟨shape, xs⟩ =
      .ok ⟨.floating .double, shape, xs.map fun x => .machineFloat .double (clip (ramp l d x))⟩ := by
  simp only [evalGrid, toNumber, hl, hd, bind, Except.bind]
  show Except.ok (Grid.mk (.floating .double) shape ((xs.map (ramp l d)).map fun x => .machineFloat .double (clip x))) = _
  rw [List.map_map]
  rfl

theorem itemwise_of_isReal (ha : a.isReal = true) (hb : b.isReal = true) (hn : n.isReal = true)
    (hal : a.toDouble = .ok l) (hnd : n.toDouble = .ok d) (hz : ¬ d.eq 0 = true)
    (hagree : ∀ x, (stepBetween a b l d x).alike (clip (ramp l d x)) = true) {v : Value} {shape : List Nat}
    (hs : v.shape = .ok shape) (hne : shape ≠ []) (hv : ∀ w ∈ v.leaves, ∃ x, w.toDouble = .ok x) :
    Itemwise (apply ⟨number a i, number b j, number n k⟩) v := by
  refine itemwise_of_cells (fun x => clip (ramp l d x)) hs hv ?_ ?_
  · intro w x hx
    obtain ⟨m, hm⟩ := apply_of_isReal i j k ha hb hn hal hnd hz hx
    exact ⟨_, m, hm, hagree x⟩
  · intro xs hxs
    rw [apply, hs, hxs]
    simp only [bind, Except.bind, hne, if_false, evalGrid_of_gridBound i j k hl hd]
    rfl

end

end

theorem stepBetween_float (l u x : Double) : stepBetween (.float l) (.float u) l (u - l) x = step l u x := by
  rw [stepBetween, Number.related_lt_float, Number.related_lt_float, step]

theorem itemwise_kept {l u : Double} {i j : Nat} {c : Cumulative Value}
    (hc : ofBounds (number (.float l) i) (number (.float u) j) = .ok c) (a b e : Nat)
    {v : Value} {shape : List Nat} (hs : v.shape = .ok shape) (hne : shape ≠ [])
    (hv : ∀ w ∈ v.leaves, ∃ x, w.toDouble = .ok x) : Itemwise (c.kept a b e).apply v := by
  obtain ⟨h, rfl⟩ := ofBounds_float.mp hc
  obtain ⟨i', j', k', hkept⟩ := kept_number (.float l) (.float u) (.float (u - l)) i j 0 a b e
  have hagree (x : Double) :
      (stepBetween (.float l) (.float u) l (u - l) x).alike (clip (ramp l (u - l) x)) = true := by
    rw [stepBetween_float]
    exact alike_step h x
  rw [ofNumber, hkept]
  exact itemwise_of_isReal i' j' k' rfl rfl rfl rfl rfl rfl rfl (ne_true_of_eq_false h.ne_zero) hagree hs hne hv

end Cumulative

/-! ## Both functions -/

/-- Whenever two doubles are taken as bounds, the functions on them, whatever marks they are
kept with, go through the items of lists and arrays as they go point by point. -/
theorem uniform_itemwise {l u : Double} {i j : Nat} {p : Density Value} {c : Cumulative Value}
    (hp : Density.ofBounds (number (.float l) i) (number (.float u) j) = .ok p)
    (hc : Cumulative.ofBounds (number (.float l) i) (number (.float u) j) = .ok c) (a b e : Nat)
    {v : Value} {shape : List Nat} (hs : v.shape = .ok shape) (hne : shape ≠ [])
    (hv : ∀ w ∈ v.leaves, ∃ x, w.toDouble = .ok x) :
    Itemwise (p.kept a b e).apply v ∧ Itemwise (c.kept a b e).apply v :=
  ⟨Density.itemwise_kept hp a b e hs hne hv, Cumulative.itemwise_kept hc a b e hs hne hv⟩

def unitPoints : Value := list [number (.float .nan) 5, number (.float (.inf true)) 6, number (.float 1) 7] 8

theorem uniform_itemwise_of_unitInterval :
    ∃ p c, Density.ofBounds (number (.float 0) 2) (number (.float 1) 3) = .ok p ∧
      Cumulative.ofBounds (number (.float 0) 2) (number (.float 1) 3) = .ok c ∧
      Itemwise (p.kept 2 3 4).apply unitPoints ∧ Itemwise (c.kept 2 3 5).apply unitPoints := by
  have hspans : Spans 0 1 := ⟨by decide +kernel, by decide +kernel, by decide +kernel⟩
  have hp := (Density.ofBounds_float (i := 2) (j := 3)).mpr ⟨hspans, rfl⟩
  have hc := (Cumulative.ofBounds_float (i := 2) (j := 3)).mpr ⟨hspans, rfl⟩
  have hs : unitPoints.shape = .ok [3] := rfl
  have hv : ∀ w ∈ unitPoints.leaves, ∃ x, w.toDouble = .ok x := by
    simp [unitPoints, leaves, leavesAll, toDouble, Number.toDouble]
  have h := fun a b e => uniform_itemwise hp hc a b e hs (List.cons_ne_nil _ _) hv
  exact ⟨_, _, hp, hc, (h 2 3 4).1, (h 2 3 5).2⟩

namespace UniformDistribution

theorem toFloat_eq {v w : Value} (h : v.toFloat = .ok w) :
    ∃ x i, v.toDouble = .ok x ∧ w = number (.float x) i := by
  unfold toFloat at h
  split at h
  · rename_i x i
    exact ⟨x, i, rfl, (Except.ok.inj h).symm⟩
  · cases hx : v.toDouble with
    | error e => rw [hx] at h; cases h
    | ok x =>
      rw [hx] at h
      exact ⟨x, 0, rfl, (Except.ok.inj h).symm⟩

theorem onDomain_eq {domain : Range} {lower upper : Value} {d : UniformDistribution}
    (h : onDomain domain lower upper = .ok d) :
    Density.ofBounds lower upper = .ok d.pdf ∧ Cumulative.ofBounds lower upper = .ok d.cdf := by
  obtain ⟨p, hp, h⟩ := bind_ok h
  obtain ⟨c, hc, h⟩ := bind_ok h
  cases h
  exact ⟨hp, hc⟩

/-- The functions of a distribution go through the items of lists and arrays. -/
theorem itemwise {domain : Range} {d : UniformDistribution} (h : ofRange domain = .ok d) (mark : Nat)
    {v : Value} {shape : List Nat} (hs : v.shape = .ok shape) (hne : shape ≠ [])
    (hv : ∀ w ∈ v.leaves, ∃ x, w.toDouble = .ok x) :
    Itemwise (d.stamp mark).pdf.apply v ∧ Itemwise (d.stamp mark).cdf.apply v := by
  obtain ⟨lower, hlower, h⟩ := bind_ok h
  obtain ⟨upper, hupper, h⟩ := bind_ok h
  obtain ⟨hp, hc⟩ := onDomain_eq h
  obtain ⟨l, i, _, rfl⟩ := toFloat_eq hlower
  obtain ⟨u, j, _, rfl⟩ := toFloat_eq hupper
  exact ⟨Density.itemwise_kept hp mark (mark + 1) (mark + 2) hs hne hv,
    Cumulative.itemwise_kept hc mark (mark + 1) (mark + 3) hs hne hv⟩

end UniformDistribution

end StreamStat
