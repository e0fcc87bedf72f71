import StreamStat.Proofs.Moves
import StreamStat.Proofs.ValueOrder

/-!
# Computations that come to an end

A computation may fail and yet come to an end (`Ends`). Those on numbers, texts and arrays always do.
What goes on for ever can only be what is said of objects: of a value that knows none but objects that
can be looked at everything is said in the end, and of two values it is enough that one is so
(`Value.ends_compare`). Accounts and converters are built on these.
-/

namespace StreamStat

/-! ## Ends -/

/-- A computation that comes to an end, be it with a fault. -/
inductive Ends {α : Type} : Except Fault α → Prop where
  | ok (a : α) : Ends (.ok a)
  | error {f : Fault} : f ≠ .endless → Ends (.error f)

section
variable {α β γ : Type}

theorem ends_iff {x : Except Fault α} : Ends x ↔ x ≠ .error .endless := by
  constructor
  · rintro (a | h) hx
    · cases hx
    · exact h (Except.error.inj hx)
  · intro h
    cases x with
    | error f => exact .error fun hf => h (congrArg Except.error hf)
    | ok a => exact .ok a

@[simp] theorem ends_ok (a : α) : Ends (.ok a) := .ok a

@[simp] theorem ends_pure (a : α) : Ends (pure a) := .ok a

@[simp] theorem ends_error {f : Fault} : Ends (.error f : Except Fault α) ↔ f ≠ .endless :=
  ⟨fun h => by cases h with | error h => exact h, .error⟩

@[simp] theorem ends_throw {f : Fault} : Ends (throw f : Except Fault α) ↔ f ≠ .endless := ends_error

theorem Ends.bind {x : Except Fault α} {f : α → Except Fault β} (hx : Ends x) (hf : ∀ a, x = .ok a → Ends (f a)) :
    Ends (x >>= f) := by
  cases hx with
  | ok a => exact hf a rfl
  | error h => exact .error h

@[simp] theorem ends_map {x : Except Fault α} {f : α → β} : Ends (x.map f) ↔ Ends x := by
  cases x with
  | error e => exact ends_error.trans ends_error.symm
  | ok a => exact iff_of_true (ends_ok _) (ends_ok _)

theorem ends_mapM {f : α → Except Fault β} : ∀ {as : List α}, (∀ a ∈ as, Ends (f a)) → Ends (as.mapM f)
  | [], _ => ends_ok _
  | a :: as, h => by
    rw [List.mapM_cons]
    refine (h a List.mem_cons_self).bind fun b _ => ?_
    exact (ends_mapM fun a ha => h a (List.mem_cons_of_mem _ ha)).bind fun _ _ => ends_ok _

end

/-! ## Numbers -/

namespace Double

@[simp] theorem ends_bounded (x : Double) : Ends x.bounded := by unfold bounded; split <;> simp

@[simp] theorem ends_truncate (x : Double) : Ends x.truncate := by cases x <;> simp [truncate]

@[simp] theorem ends_toFraction (x : Double) : Ends x.toFraction := by cases x <;> simp [toFraction]

end Double

namespace Decimal

@[simp] theorem ends_truncate (d : Decimal) : Ends d.truncate := by cases d <;> simp [truncate]

@[simp] theorem ends_toFraction (d : Decimal) : Ends d.toFraction := by cases d <;> simp [toFraction]

end Decimal

namespace Term

@[simp] theorem ends_meet (a b : Term) : Ends (a.meet b) := by
  unfold meet; repeat (split <;> try simp)

@[simp] theorem ends_combine (f : Int → Int → Int) (a b : Term) : Ends (combine f a b) :=
  (ends_meet a b).bind fun _ _ => ends_ok _

end Term

namespace Quotient

@[simp] theorem ends_compare (rel : Relation) (a b : Quotient) : Ends (compare rel a b) := by
  cases rel <;> first
    | exact ends_ok _
    | exact (Term.ends_combine _ _ _).bind fun _ _ => (Term.ends_combine _ _ _).bind fun _ _ => ends_ok _

@[simp] theorem ends_truncate (q : Quotient) : Ends q.truncate := by
  unfold truncate
  split <;> exact (Term.ends_combine _ _ _).bind fun _ _ => ends_ok _

end Quotient

namespace Number

@[simp] theorem ends_toDouble (n : Number) : Ends n.toDouble := by cases n <;> simp [toDouble]

@[simp] theorem ends_truncate (n : Number) : Ends n.truncate := by cases n <;> simp [truncate]

@[simp] theorem ends_toFraction (n : Number) : Ends n.toFraction := by
  cases n with
  | machineFloat p x => cases p <;> simp [toFraction]
  | _ => simp [toFraction]

@[simp] theorem ends_toCell (t : CellType) (n : Number) : Ends (n.toCell t) := by
  cases t with
  | whole w => exact (ends_truncate n).bind fun _ _ => by split <;> simp
  | floating p => exact (ends_toDouble n).bind fun _ _ => ends_ok _
  | _ => simp [toCell]

@[simp] theorem ends_comparePlain (rel : Relation) (a b : Number) : Ends (comparePlain rel a b) := by
  unfold comparePlain compareBound
  repeat (split <;> try simp)

@[simp] theorem ends_compareCells (rel : Relation) (t : CellType) (a b : Number) : Ends (compareCells rel t a b) := by
  cases t with
  | floating p => exact (ends_toCell _ a).bind fun _ _ => (ends_toCell _ b).bind fun _ _ => ends_ok _
  | _ => simp [compareCells]

@[simp] theorem ends_compareFraction (rel : Relation) (a b : Number) : Ends (compareFraction rel a b) := by
  unfold compareFraction
  split
  · cases rel with
    | eq => exact ends_ok _
    | _ => exact (Quotient.ends_compare _ _ _).bind fun _ _ => ends_ok _
  · simp
  · simp

@[simp] theorem ends_compareDecimal (rel : Relation) (a b : Number) : Ends (compareDecimal rel a b) := by
  unfold compareDecimal
  split <;> simp

@[simp] theorem ends_compare (rel : Relation) (a b : Number) : Ends (compare rel a b) := by
  unfold compare
  repeat (split <;> try simp)

@[simp] theorem ends_neg (n : Number) : Ends n.neg := by
  cases n <;> simp [neg]

@[simp] theorem ends_abs (n : Number) : Ends n.abs := by
  cases n <;> simp [abs]

@[simp] theorem ends_wholeText (i : Int) : Ends (wholeText i) := by unfold wholeText; split <;> simp

@[simp] theorem ends_quotientText (i : Int) (d : Nat) : Ends (quotientText i d) := by
  unfold quotientText
  split
  · exact ends_wholeText i
  · exact (ends_wholeText _).bind fun _ _ => (ends_wholeText _).bind fun _ _ => ends_ok _

@[simp] theorem ends_text (n : Number) : Ends n.text := by cases n <;> simp [text]

@[simp] theorem ends_inlineText (n : Number) : Ends n.inlineText := by cases n <;> simp [inlineText]

@[simp] theorem ends_fractionWritten (i : Int) (d : Nat) : Ends (fractionWritten i d) :=
  (ends_wholeText _).bind fun _ _ => (ends_wholeText _).bind fun _ _ => ends_ok _

@[simp] theorem ends_written (n : Number) : Ends n.written := by cases n <;> simp [written]

end Number

/-! ## Values -/

namespace Value

@[simp] theorem ends_shape (v : Value) : Ends v.shape := by
  unfold shape
  repeat (split <;> try simp)

@[simp] theorem ends_toDouble (v : Value) : Ends v.toDouble := by
  unfold toDouble
  split
  · simp
  · split <;> simp
  · simp
  · simp

@[simp] theorem ends_truth (v : Value) : Ends v.truth := by
  unfold truth
  split <;> try simp
  split <;> simp

mutual

def handles : Value → List Nat
  | handle h => [h]
  | list items _ => handlesAll items
  | none | number _ _ | text _ _ | array _ _ => []

def handlesAll : List Value → List Nat
  | [] => []
  | v :: vs => handles v ++ handlesAll vs

end

def KnowsOnly (U : Set Nat) (v : Value) : Prop := ∀ k ∈ v.handles, k ∈ U

section
variable {U : Set Nat}

theorem knowsOnly_ofNumber (n : Number) : (ofNumber n).KnowsOnly U := fun _ hk => by cases hk

theorem knowsOnly_all {vs : List Value} : (∀ k ∈ handlesAll vs, k ∈ U) ↔ ∀ v ∈ vs, v.KnowsOnly U := by
  induction vs with
  | nil => simp [handlesAll]
  | cons v vs ih =>
    rw [List.forall_mem_cons, ← ih, handlesAll]
    simp only [List.mem_append, or_imp, forall_and, KnowsOnly]

theorem knowsOnly_list {vs : List Value} {i : Nat} : (list vs i).KnowsOnly U ↔ ∀ v ∈ vs, v.KnowsOnly U := knowsOnly_all

mutual

theorem KnowsOnly.leaves : ∀ {v : Value}, v.KnowsOnly U → ∀ w ∈ v.leaves, w.KnowsOnly U
  | list vs i, h, w, hw => knowsOnly_leavesAll (knowsOnly_list.mp h) w hw
  | array g i, _, w, hw => by
    obtain ⟨n, _, rfl⟩ := List.mem_map.mp hw
    exact knowsOnly_ofNumber n
  | none, h, w, hw => List.mem_singleton.mp hw ▸ h
  | number n i, h, w, hw => List.mem_singleton.mp hw ▸ h
  | text s i, h, w, hw => List.mem_singleton.mp hw ▸ h
  | handle k, h, w, hw => List.mem_singleton.mp hw ▸ h

theorem knowsOnly_leavesAll : ∀ {vs : List Value}, (∀ v ∈ vs, v.KnowsOnly U) → ∀ w ∈ leavesAll vs, w.KnowsOnly U
  | [], _, w, hw => by cases hw
  | v :: vs, h, w, hw => by
    rcases List.mem_append.mp hw with hw | hw
    · exact (h v List.mem_cons_self).leaves w hw
    · exact knowsOnly_leavesAll (fun v hv => h v (List.mem_cons_of_mem _ hv)) w hw

end

end

end Value

structure ObjectView.EndsOn (o : ObjectView) (U : Set Nat) : Prop where
  text : ∀ i ∈ U, Ends (o.text i)
  written : ∀ i ∈ U, Ends (o.written i)
  equal : ∀ i j, i ∈ U ∨ j ∈ U → Ends (o.equal i j)

namespace Points

variable {α β γ : Type}

theorem mem_stretched {x : α} : ∀ {s t : List Nat} {cells : List α}, x ∈ stretched s t cells → x ∈ cells
  | [], _, _, h => h
  | _ :: _, [], _, h => h
  | m :: s, n :: t, cells, h => by
    unfold stretched at h
    split at h
    · obtain ⟨i, _, hx⟩ := List.mem_flatMap.mp h
      exact List.mem_of_mem_drop (List.mem_of_mem_take (mem_stretched hx))
    · obtain ⟨l, hl, hx⟩ := List.mem_flatten.mp h
      rw [List.eq_of_mem_replicate hl] at hx
      exact mem_stretched hx

theorem mem_stretchTo {shape : List Nat} {p : Points α} {x : α} (h : x ∈ p.stretchTo shape) : x ∈ p.cells := by
  unfold stretchTo at h
  split at h
  · exact h
  · exact mem_stretched h

theorem ends_zipCells {f : α → β → Except Fault γ} {a : Points α} {b : Points β}
    (hf : ∀ x ∈ a.cells, ∀ y ∈ b.cells, Ends (f x y)) : Ends (zipCells f a b) := by
  have hshapes : Ends (meetShapes a.shape b.shape) := by
    unfold meetShapes
    split <;> simp
  refine hshapes.bind fun shape _ => (ends_mapM ?_).bind fun _ _ => ends_ok _
  rintro ⟨x, y⟩ hxy
  obtain ⟨hx, hy⟩ := List.of_mem_zip hxy
  exact hf x (mem_stretchTo hx) y (mem_stretchTo hy)

end Points

namespace Operand

variable {U : Set Nat}

theorem ends_numbers {f : Number → Except Fault Number} (hf : ∀ n, Ends (f n)) (a : Operand) : Ends (a.numbers f) := by
  cases a with
  | number n => exact (hf n).bind fun _ _ => ends_ok _
  | grid g => exact (ends_mapM fun n _ => hf n).bind fun _ _ => ends_ok _
  | _ => exact ends_ok _

theorem ends_ofLeaves (shape : List Nat) (vs : List Value) : Ends (ofLeaves shape vs) := by
  unfold ofLeaves
  split
  · exact ends_ok _
  · split
    · exact (ends_mapM fun n _ => Number.ends_toCell _ n).bind fun _ _ => ends_ok _
    · exact ends_ok _
    · split <;> exact ends_ok _

theorem ends_ofValue (v : Value) : Ends (ofValue v) := by
  cases v with
  | list vs i => exact (Value.ends_shape _).bind fun shape _ => ends_ofLeaves shape _
  | _ => exact ends_ok _

theorem knowsOnly_ofLeaves {shape : List Nat} {vs : List Value} {a : Operand} (ha : ofLeaves shape vs = .ok a)
    (h : ∀ v ∈ vs, v.KnowsOnly U) : ∀ x ∈ a.values.cells, x.KnowsOnly U := by
  have hgrid (g : Grid) : ∀ x ∈ (grid g).values.cells, x.KnowsOnly U := by
    intro x hx
    obtain ⟨n, _, rfl⟩ := List.mem_map.mp hx
    exact Value.knowsOnly_ofNumber _
  unfold ofLeaves at ha
  split at ha
  · cases ha
    exact hgrid _
  · split at ha
    · rename_i t ns _ _
      cases hcells : ns.mapM (Number.toCell t) with
      | error f => rw [hcells] at ha; cases ha
      | ok cells =>
        rw [hcells] at ha
        cases ha
        exact hgrid _
    · cases ha
      exact h
    · split at ha <;> cases ha <;> exact h

theorem knowsOnly_ofValue {v : Value} {a : Operand} (ha : ofValue v = .ok a) (h : v.KnowsOnly U) :
    ∀ x ∈ a.values.cells, x.KnowsOnly U := by
  cases v with
  | list vs i =>
    unfold ofValue at ha
    cases hs : (Value.list vs i).shape with
    | error f => rw [hs] at ha; cases ha
    | ok shape =>
      rw [hs] at ha
      exact knowsOnly_ofLeaves ha h.leaves
  | number n i =>
    cases ha
    intro x hx
    rw [List.mem_singleton.mp hx]
    exact Value.knowsOnly_ofNumber _
  | array g i =>
    cases ha
    intro x hx
    obtain ⟨n, _, rfl⟩ := List.mem_map.mp hx
    exact Value.knowsOnly_ofNumber _
  | none | text s i | handle k =>
    cases ha
    intro x hx
    rw [List.mem_singleton.mp hx]
    exact h

theorem ends_compare {leaf : Value → Value → Except Fault Bool} {a b : Operand}
    (hleaf : ∀ x ∈ a.values.cells, ∀ y ∈ b.values.cells, Ends (leaf x y)) (rel : Relation) :
    Ends (compare leaf rel a b) := by
  have hrounded (t : CellType) (n : Number) : Ends (rounded t n) := by
    cases t with
    | floating p => exact Number.ends_toCell (.floating p) n
    | _ => exact ends_ok _
  unfold compare
  dsimp only
  split
  · exact (Points.ends_zipCells hleaf).bind fun _ _ => ends_ok _
  · split
    · split
      · exact ends_throw.mpr (by decide)
      · exact (Points.ends_zipCells fun _ _ _ _ => ends_ok _).bind fun _ _ => by split <;> exact ends_ok _
    · exact (ends_numbers (hrounded _) a).bind fun x _ => (ends_numbers (hrounded _) b).bind fun y _ =>
        (Points.ends_zipCells fun m _ n _ => Number.ends_compareCells _ _ m n).bind fun _ _ => ends_ok _

end Operand

namespace Value

variable {o : ObjectView} {U : Set Nat}

theorem ends_compareUnlike (rel : Relation) : Ends (compareUnlike rel) := by
  unfold compareUnlike
  split <;> simp

theorem ends_compareHandles (ho : o.EndsOn U) (rel : Relation) {i j : Nat} (h : i ∈ U ∨ j ∈ U) :
    Ends (compareHandles o rel i j) := by
  cases rel with
  | eq => exact ho.equal i j h
  | ne => exact (ho.equal i j h).bind fun _ _ => (ends_truth _).bind fun _ _ => ends_ok _
  | _ => exact ends_throw.mpr (by decide)

theorem handle_or {i j : Nat} (h : (handle i).KnowsOnly U ∨ (handle j).KnowsOnly U) : i ∈ U ∨ j ∈ U :=
  h.imp (fun h => h i List.mem_cons_self) fun h => h j List.mem_cons_self

theorem ends_compareLeaves (ho : o.EndsOn U) (rel : Relation) {v w : Value} (h : v.KnowsOnly U ∨ w.KnowsOnly U) :
    Ends (compareLeaves o rel v w) := by
  unfold compareLeaves
  split
  · split <;> simp
  · exact (Number.ends_compare _ _ _).bind fun _ _ => ends_ok _
  · exact ends_ok _
  · exact (ends_compareHandles ho rel (handle_or h)).bind fun _ _ => ends_truth _
  · exact ends_compareUnlike rel

theorem ends_compareSingle (ho : o.EndsOn U) (rel : Relation) {v w : Value} (h : v.KnowsOnly U ∨ w.KnowsOnly U) :
    Ends (compareSingle o rel v w) := by
  unfold compareSingle
  split
  · exact (Number.ends_compare _ _ _).bind fun _ _ => ends_ok _
  · exact ends_compareHandles ho rel (handle_or h)
  · exact (ends_compareUnlike rel).bind fun _ _ => ends_ok _
  · exact (ends_compareUnlike rel).bind fun _ _ => ends_ok _
  · split
    · refine (Operand.ends_ofValue v).bind fun a ha => (Operand.ends_ofValue w).bind fun b hb => ?_
      refine Operand.ends_compare (fun x hx y hy => ends_compareLeaves ho rel ?_) rel
      exact h.imp (fun hv => Operand.knowsOnly_ofValue ha hv x hx) fun hw => Operand.knowsOnly_ofValue hb hw y hy
    · exact (ends_compareLeaves ho rel h).bind fun _ _ => ends_ok _

mutual

/-- It is enough that one of two values can be looked at. -/
theorem ends_compare (ho : o.EndsOn U) (rel : Relation) :
    ∀ {v w : Value}, v.KnowsOnly U ∨ w.KnowsOnly U → Ends (compare o rel v w)
  | list as i, w, h => by
    cases w with
    | list bs j =>
      unfold compare
      split
      · exact ends_ok _
      · exact ends_compareItems ho rel (h.imp knowsOnly_list.mp knowsOnly_list.mp)
    | _ =>
      unfold compare
      exact ends_compareSingle ho rel h
  | none, _, h => ends_compareSingle ho rel h
  | number _ _, _, h => ends_compareSingle ho rel h
  | text _ _, _, h => ends_compareSingle ho rel h
  | array _ _, _, h => ends_compareSingle ho rel h
  | handle _, _, h => ends_compareSingle ho rel h

theorem ends_compareItems (ho : o.EndsOn U) (rel : Relation) :
    ∀ {as bs : List Value}, (∀ v ∈ as, v.KnowsOnly U) ∨ (∀ w ∈ bs, w.KnowsOnly U) → Ends (compareItems o rel as bs)
  | [], bs, _ => by cases bs <;> exact ends_ok _
  | a :: as, [], _ => ends_ok _
  | a :: as, b :: bs, h => by
    have hfirst : a.KnowsOnly U ∨ b.KnowsOnly U := h.imp (fun h => h a List.mem_cons_self) fun h => h b List.mem_cons_self
    have hagree : Ends (agree o a b) := by
      unfold agree
      split
      · exact ends_ok _
      · exact (ends_compare ho .eq hfirst).bind fun _ _ => ends_truth _
    rw [compareItems_step]
    refine hagree.bind fun c _ => ?_
    split
    · exact ends_compareItems ho rel
        (h.imp (fun h v hv => h v (List.mem_cons_of_mem _ hv)) fun h w hw => h w (List.mem_cons_of_mem _ hw))
    · split
      · exact ends_compare ho rel hfirst
      · exact ends_ok _

end

end Value

/-! ## Texts -/

namespace Grid

theorem ends_arrayText (separator : String) (indent width : Nat) (g : Grid) :
    Ends (Layout.arrayText separator indent width g) := by
  have hcell (t : CellType) (scalar : Bool) (shown : List Number) (n : Number) :
      Ends (Layout.cellWriter t scalar shown n) := by
    cases t with
    | bool | whole w => exact (Number.ends_text n).bind fun _ _ => ends_ok _
    | floating p => exact ends_ok _
    | object => exact Number.ends_written n
  unfold Layout.arrayText
  split
  · exact ends_ok _
  · exact (ends_mapM fun n _ => hcell _ _ _ n).bind fun _ _ => ends_ok _

theorem ends_text (g : Grid) : Ends g.text := by
  unfold text
  split
  · exact Number.ends_text _
  · exact ends_arrayText ..

theorem ends_inlineText (g : Grid) : Ends g.inlineText := by
  unfold inlineText
  split
  · exact Number.ends_inlineText _
  · exact ends_text g

theorem ends_written (g : Grid) : Ends g.written := by
  refine (ends_arrayText ..).bind fun body _ => ?_
  split <;> exact ends_ok _

end Grid

namespace Value

variable {o : ObjectView} {U : Set Nat}

mutual

theorem ends_written (ho : o.EndsOn U) : ∀ {v : Value}, v.KnowsOnly U → Ends (written o v)
  | list _ _, hv => (ends_writtenAll ho (knowsOnly_list.mp hv)).bind fun _ _ => ends_ok _
  | handle k, hv => ho.written k (hv k List.mem_cons_self)
  | number n _, _ => Number.ends_written n
  | array g _, _ => Grid.ends_written g
  | none, _ => ends_ok _
  | text _ _, _ => ends_ok _

theorem ends_writtenAll (ho : o.EndsOn U) :
    ∀ {vs : List Value}, (∀ v ∈ vs, v.KnowsOnly U) → Ends (writtenAll o vs)
  | [], _ => ends_ok _
  | v :: _, h => (ends_written ho (h v List.mem_cons_self)).bind fun _ _ =>
      (ends_writtenAll ho fun v hv => h v (List.mem_cons_of_mem _ hv)).bind fun _ _ => ends_ok _

end

section
variable (ho : o.EndsOn U)
include ho

theorem ends_plainText {v : Value} (hv : v.KnowsOnly U) : Ends (v.plainText o) := by
  cases v with
  | number n i => exact Number.ends_text n
  | text s i => exact ends_ok _
  | array g i => exact Grid.ends_text g
  | handle k => exact ho.text k (hv k List.mem_cons_self)
  | none => exact ends_written ho hv
  | list vs i => exact ends_written ho hv

theorem ends_inlineText {v : Value} (hv : v.KnowsOnly U) : Ends (v.inlineText o) := by
  cases v with
  | number n i => exact Number.ends_inlineText n
  | array g i => exact Grid.ends_inlineText g
  | text s i => exact ends_ok _
  | handle k => exact ho.text k (hv k List.mem_cons_self)
  | none => exact ends_written ho hv
  | list vs i => exact ends_written ho hv

theorem ends_agreeAll {vs ws : List Value} (h : (∀ v ∈ vs, v.KnowsOnly U) ∨ ∀ w ∈ ws, w.KnowsOnly U) :
    Ends (agreeAll o vs ws) :=
  (ends_compareItems ho .eq h).bind fun _ _ => ends_truth _

end

end Value

/-! ## Samples -/

theorem Value.knowsOnly_univ (v : Value) : v.KnowsOnly Set.univ := fun _ _ => trivial

section
variable {o : ObjectView} {U : Set Nat} (ho : o.EndsOn U) {v : Value} (hv : v.KnowsOnly U)
include ho hv

theorem ends_keepLess (least : Value) : Ends (keepLess o least v) := by
  unfold keepLess
  split
  · exact ends_ok _
  · exact ends_map.mpr ((Value.ends_compare ho .lt (.inl hv)).bind fun _ _ => Value.ends_truth _)

theorem ends_keepGreater (greatest : Value) : Ends (keepGreater o greatest v) := by
  unfold keepGreater
  split
  · exact ends_ok _
  · exact ends_map.mpr ((Value.ends_compare ho .lt (.inr hv)).bind fun _ _ => Value.ends_truth _)

theorem Account.receive_ends (mark : Nat) (a : Account) : (a.receive o mark v).2 ≠ some .endless := by
  have refused {α : Type} {x : Except Fault α} (hx : Ends x) {f : Fault} (h : x = .error f) : some f ≠ some .endless := by
    rintro ⟨⟩
    exact ends_iff.mp hx h
  unfold receive
  cases a.body with
  | min least =>
    dsimp only
    split
    · rename_i h
      exact refused (ends_keepLess ho hv least) h
    · simp
  | max greatest =>
    dsimp only
    split
    · rename_i h
      exact refused (ends_keepGreater ho hv greatest) h
    · simp
  | minMax least greatest =>
    dsimp only
    split
    · rename_i h
      exact refused (ends_keepLess ho hv least) h
    · split
      · rename_i h
        exact refused (ends_keepGreater ho hv greatest) h
      · simp
  | mean m | variance m =>
    dsimp only
    split
    · rename_i h
      exact refused (Value.ends_toDouble v) h
    · simp
  | _ => simp

end

/-! ## Converters -/

namespace Value

theorem ends_toFloat (v : Value) : Ends v.toFloat := by
  unfold toFloat
  split <;> simp

theorem ends_truncated (v : Value) : Ends v.truncated := by
  have hread (s : String) : Ends (readInteger s) := by
    unfold readInteger
    split <;> simp
  unfold truncated
  split <;> simp [hread]

theorem ends_length (v : Value) : Ends v.length := by
  unfold length
  split <;> simp

theorem ends_mapCells {f : Number → Except Fault Number} (hf : ∀ n, Ends (f n)) (g : Grid) : Ends (g.mapCells f) :=
  (ends_mapM fun n _ => hf n).bind fun _ _ => ends_ok _

theorem ends_abs (v : Value) : Ends v.abs := by
  unfold abs
  split <;> simp [Grid.abs, ends_mapCells]

theorem ends_neg (v : Value) : Ends v.neg := by
  unfold neg
  split
  · simp
  · unfold Grid.neg
    split <;> simp [ends_mapCells]
  · simp

theorem ends_toFraction (v : Value) : Ends v.toFraction := by
  have hread (s : String) : Ends (readFraction s) := by
    unfold readFraction
    split <;> try simp
    split <;> simp
  unfold toFraction
  split <;> simp [hread]

theorem ends_toText {o : ObjectView} (ho : o.EndsOn Set.univ) (v : Value) : Ends (v.toText o) := by
  unfold toText
  split
  · exact ends_ok _
  · exact ends_map.mpr (ends_plainText ho (knowsOnly_univ _))

end Value

/-- A program that returns or raises if the objects that it looks at can be looked at, and its calls
come to an end. -/
inductive Program.Terminates : Program → Prop where
  | finish {result : Except Fault Value} : Ends result → Terminates (.finish result)
  | look {next : ObjectView → Program} :
      (∀ o, o.EndsOn Set.univ → Terminates (next o)) → Terminates (.look next)
  | feed {target sample : Value} {next : Value → Option Fault → Program} :
      (∀ v fault, fault ≠ some .endless → Terminates (next v fault)) → Terminates (.feed target sample next)

theorem Program.Comes.terminates {call : Value → Value → Store → Outcome} {p q : Program} {s u : Store}
    (h : Comes call p s q u) (hp : p.Terminates)
    (hview : ∀ next t, Comes call p s (.look next) t → t.view.EndsOn Set.univ) : q.Terminates := by
  induction h with
  | start => exact hp
  | look hq ih =>
    cases ih with
    | look hnext => exact hnext _ (hview _ _ hq)
  | feed _ _ hends ih =>
    cases ih with
    | feed hnext => exact hnext _ _ hends

namespace Converter

structure Terminates (c : Converter) : Prop where
  shown : ∀ o, Ends (c.shown o)
  program : ∀ v, (c.program v).Terminates

theorem terminates_ofConversion (object : Value) (c : Conversion) : (ofConversion object c).Terminates := by
  refine ⟨fun _ => ends_ok _, fun v => .look fun o ho => .finish ?_⟩
  cases c with
  | float => exact Value.ends_toFloat v
  | int => exact Value.ends_truncated v
  | str => exact Value.ends_toText ho v
  | len => exact ends_map.mpr ((Value.ends_length v).bind fun _ _ => ends_ok _)
  | abs => exact Value.ends_abs v
  | fraction => exact Value.ends_toFraction v
  | double => exact ends_map.mpr (Value.ends_toDouble v)
  | neg => exact Value.ends_neg v
  | fail => exact ends_error.mpr (by decide)
  | _ => exact ends_ok _

theorem terminates_tee (object target : Value) : (tee object target).Terminates := by
  refine ⟨fun _ => ends_ok _, fun v => .feed fun w fault hf => .finish ?_⟩
  cases fault with
  | none => exact ends_ok _
  | some f => exact ends_error.mpr fun h => hf (congrArg some h)

end Converter

end StreamStat
