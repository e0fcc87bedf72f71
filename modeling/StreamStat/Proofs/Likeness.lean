import Mathlib.Data.List.Forall2
import StreamStat.Value.Order

/-!
# Likeness

Two runs of one program give new occurrences different marks. What they come to is alike: it is the
same up to a pairing of the marks of one run with those of the other. An occurrence can only be
asked whether it is another one, so that values that are alike have the same texts and the same
cells, and compare in the same way (`compare_like`).
-/

namespace StreamStat

/-! ## Pairings of marks -/

structure Pairing (m : Nat) (R : Nat → Nat → Prop) : Prop where
  pos : 0 < m
  unique : ∀ {i j k l}, R i k → R j l → (i = j ↔ k = l)
  old : ∀ k < m, R k k

inductive Accord {α β : Type} (r : α → β → Prop) : Except Fault α → Except Fault β → Prop
  | error (f : Fault) : Accord r (.error f) (.error f)
  | ok {a : α} {b : β} : r a b → Accord r (.ok a) (.ok b)

structure ObjectView.Agree (U : Set Nat) (o o' : ObjectView) : Prop where
  text : ∀ i ∈ U, o.text i = o'.text i
  written : ∀ i ∈ U, o.written i = o'.written i
  equal : ∀ i ∈ U, ∀ j ∈ U, o.equal i j = o'.equal i j

section
variable {m : Nat} {R S : Nat → Nat → Prop} {U V : Set Nat} {o o' : ObjectView}

theorem Pairing.zero (hR : Pairing m R) : R 0 0 := hR.old 0 hR.pos

/-- Marks that are paired are those of no occurrence on both sides, or of occurrences on both. -/
theorem Pairing.marked (hR : Pairing m R) {i j : Nat} (h : R i j) :
    (i = 0 ∧ j = 0) ∨ ∃ k l, i = k + 1 ∧ j = l + 1 := by
  have h0 : i = 0 ↔ j = 0 := hR.unique h hR.zero
  cases i with
  | zero => exact .inl ⟨rfl, h0.mp rfl⟩
  | succ k =>
    cases j with
    | zero => exact absurd (h0.mpr rfl) (Nat.succ_ne_zero k)
    | succ l => exact .inr ⟨k, l, rfl, rfl⟩

theorem Accord.of_eq {α : Type} {r : α → α → Prop} (hr : ∀ a, r a a) {x y : Except Fault α} (h : x = y) :
    Accord r x y := by
  cases h
  cases x with
  | error f => exact .error f
  | ok a => exact .ok (hr a)

theorem Accord.map {α β γ δ : Type} {r : α → β → Prop} {q : γ → δ → Prop} {f : α → γ} {g : β → δ}
    (hfg : ∀ a b, r a b → q (f a) (g b)) {x : Except Fault α} {y : Except Fault β} (h : Accord r x y) :
    Accord q (x.map f) (y.map g) := by
  cases h with
  | error f => exact .error f
  | ok h => exact .ok (hfg _ _ h)

namespace Value

/-! ## Values -/

mutual

/-- Two values are the same up to their marks, and know no objects but those of `U`. -/
inductive Like (R : Nat → Nat → Prop) (U : Set Nat) : Value → Value → Prop
  | none : Like R U .none .none
  | number (n : Number) {i j : Nat} : R i j → Like R U (.number n i) (.number n j)
  | text (s : String) {i j : Nat} : R i j → Like R U (.text s i) (.text s j)
  | list {as bs : List Value} {i j : Nat} : LikeAll R U as bs → R i j → Like R U (.list as i) (.list bs j)
  | array (g : Grid) {i j : Nat} : R i j → Like R U (.array g i) (.array g j)
  | handle {h : Nat} : h ∈ U → Like R U (.handle h) (.handle h)

inductive LikeAll (R : Nat → Nat → Prop) (U : Set Nat) : List Value → List Value → Prop
  | nil : LikeAll R U [] []
  | cons {v w : Value} {vs ws : List Value} : Like R U v w → LikeAll R U vs ws → LikeAll R U (v :: vs) (w :: ws)

end

theorem likeAll_iff {vs ws : List Value} : LikeAll R U vs ws ↔ List.Forall₂ (Like R U) vs ws := by
  constructor
  · intro h
    induction vs generalizing ws with
    | nil => cases h; exact .nil
    | cons v vs ih =>
      cases h with
      | cons hv h => exact .cons hv (ih h)
  · intro h
    induction h with
    | nil => exact .nil
    | cons hv _ ih => exact .cons hv ih

theorem isNone_like {v w : Value} (h : Like R U v w) : v.isNone = w.isNone := by
  cases h <;> rfl

theorem like_ofNumber (hR : Pairing m R) (n : Number) : Like R U (ofNumber n) (ofNumber n) := .number n hR.zero

theorem like_stamp (hR : Pairing m R) {v w : Value} (h : Like R U v w) {i j : Nat} (hij : R i j) :
    Like R U (v.stamp i) (w.stamp j) := by
  cases h with
  | none => exact .none
  | handle h => exact .handle h
  | number n h =>
    obtain ⟨rfl, rfl⟩ | ⟨k, l, rfl, rfl⟩ := hR.marked h
    · exact .number n hij
    · exact .number n h
  | text s h =>
    obtain ⟨rfl, rfl⟩ | ⟨k, l, rfl, rfl⟩ := hR.marked h
    · exact .text s hij
    · exact .text s h
  | list hs h =>
    obtain ⟨rfl, rfl⟩ | ⟨k, l, rfl, rfl⟩ := hR.marked h
    · exact .list hs hij
    · exact .list hs h
  | array g h =>
    obtain ⟨rfl, rfl⟩ | ⟨k, l, rfl, rfl⟩ := hR.marked h
    · exact .array g hij
    · exact .array g h

mutual

theorem Like.mono (hRS : ∀ i j, R i j → S i j) (hUV : U ⊆ V) : ∀ {v w : Value}, Like R U v w → Like S V v w
  | _, _, .none => .none
  | _, _, .number n h => .number n (hRS _ _ h)
  | _, _, .text s h => .text s (hRS _ _ h)
  | _, _, .list h h' => .list (h.mono hRS hUV) (hRS _ _ h')
  | _, _, .array g h => .array g (hRS _ _ h)
  | _, _, .handle h => .handle (hUV h)

theorem LikeAll.mono (hRS : ∀ i j, R i j → S i j) (hUV : U ⊆ V) :
    ∀ {vs ws : List Value}, LikeAll R U vs ws → LikeAll S V vs ws
  | _, _, .nil => .nil
  | _, _, .cons h h' => .cons (h.mono hRS hUV) (h'.mono hRS hUV)

end

mutual

/-- Two values that are like a third one are alike. -/
theorem Like.meet : ∀ {v w x : Value}, Like R U v x → Like S U w x → Like (fun i j => ∃ k, R i k ∧ S j k) U v w
  | _, _, _, .none, h => by cases h; exact .none
  | _, _, _, .number n h, h' => by cases h' with | number _ h' => exact .number n ⟨_, h, h'⟩
  | _, _, _, .text s h, h' => by cases h' with | text _ h' => exact .text s ⟨_, h, h'⟩
  | _, _, _, .list hs h, h' => by cases h' with | list hs' h' => exact .list (hs.meet hs') ⟨_, h, h'⟩
  | _, _, _, .array g h, h' => by cases h' with | array _ h' => exact .array g ⟨_, h, h'⟩
  | _, _, _, .handle h, h' => by cases h'; exact .handle h

theorem LikeAll.meet :
    ∀ {vs ws xs : List Value}, LikeAll R U vs xs → LikeAll S U ws xs →
      LikeAll (fun i j => ∃ k, R i k ∧ S j k) U vs ws
  | _, _, _, .nil, h => by cases h; exact .nil
  | _, _, _, .cons h hs, h' => by cases h' with | cons h' hs' => exact .cons (h.meet h') (hs.meet hs')

end

/-! ## The same occurrence -/

mutual

theorem same_like (hR : Pairing m R) :
    ∀ {v v' w w' : Value}, Like R U v v' → Like R U w w' → same v w = same v' w'
  | _, _, _, _, .none, hw => by cases hw <;> rfl
  | _, _, _, _, .number n h, hw => by
    cases hw with
    | number k h' => simp only [same, hR.unique h h']
    | _ => rfl
  | _, _, _, _, .text s h, hw => by
    cases hw with
    | text t h' => simp only [same, hR.unique h h']
    | _ => rfl
  | _, _, _, _, .list h h', hw => by
    cases hw with
    | list k k' => simp only [same, hR.unique h' k', sameAll_like hR h k]
    | _ => rfl
  | _, _, _, _, .array g h, hw => by
    cases hw with
    | array k h' => simp only [same, hR.unique h h']
    | _ => rfl
  | _, _, _, _, .handle h, hw => by cases hw <;> rfl

theorem sameAll_like (hR : Pairing m R) :
    ∀ {vs vs' ws ws' : List Value}, LikeAll R U vs vs' → LikeAll R U ws ws' → sameAll vs ws = sameAll vs' ws'
  | _, _, _, _, .nil, hw => by cases hw <;> rfl
  | _, _, _, _, .cons h hs, hw => by
    cases hw with
    | nil => rfl
    | cons k ks => simp only [sameAll, same_like hR h k, sameAll_like hR hs ks]

end

/-! ## Texts -/

mutual

theorem written_like (ho : o.Agree U o') : ∀ {v w : Value}, Like R U v w → written o v = written o' w
  | _, _, .none => rfl
  | _, _, .number n _ => rfl
  | _, _, .text s _ => rfl
  | _, _, .list h _ => by simp only [written, writtenAll_like ho h]
  | _, _, .array g _ => rfl
  | _, _, .handle h => ho.written _ h

theorem writtenAll_like (ho : o.Agree U o') :
    ∀ {vs ws : List Value}, LikeAll R U vs ws → writtenAll o vs = writtenAll o' ws
  | _, _, .nil => rfl
  | _, _, .cons h hs => by simp only [writtenAll, written_like ho h, writtenAll_like ho hs]

end

theorem plainText_like (ho : o.Agree U o') {v w : Value} (h : Like R U v w) : plainText o v = plainText o' w := by
  cases h with
  | list h h' => exact written_like ho (.list h h')
  | handle h => exact ho.text _ h
  | _ => rfl

/-! ## Cells -/

mutual

theorem shape?_like : ∀ {v w : Value}, Like R U v w → shape? v = shape? w
  | _, _, .none => rfl
  | _, _, .number n _ => rfl
  | _, _, .text s _ => rfl
  | _, _, .list h _ => by simp only [shape?, commonShape?_like h, (likeAll_iff.mp h).length_eq]
  | _, _, .array g _ => rfl
  | _, _, .handle _ => rfl

theorem commonShape?_like : ∀ {vs ws : List Value}, LikeAll R U vs ws → commonShape? vs = commonShape? ws
  | _, _, .nil => rfl
  | _, _, .cons h hs => by
    have he : ∀ {vs ws : List Value}, LikeAll R U vs ws → vs.isEmpty = ws.isEmpty := fun h => by cases h <;> rfl
    simp only [commonShape?, shape?_like h, commonShape?_like hs, he hs]

end

mutual

theorem leaves_like (hR : Pairing m R) : ∀ {v w : Value}, Like R U v w → LikeAll R U (leaves v) (leaves w)
  | _, _, .none => .cons .none .nil
  | _, _, .number n h => .cons (.number n h) .nil
  | _, _, .text s h => .cons (.text s h) .nil
  | _, _, .list h _ => leavesAll_like hR h
  | _, _, .array g _ => likeAll_iff.mpr (List.forall₂_map_left_iff.mpr
      (List.forall₂_map_right_iff.mpr (List.forall₂_same.mpr fun n _ => like_ofNumber hR n)))
  | _, _, .handle h => .cons (.handle h) .nil

theorem leavesAll_like (hR : Pairing m R) :
    ∀ {vs ws : List Value}, LikeAll R U vs ws → LikeAll R U (leavesAll vs) (leavesAll ws)
  | _, _, .nil => .nil
  | _, _, .cons h hs =>
    likeAll_iff.mpr (List.rel_append (likeAll_iff.mp (leaves_like hR h)) (likeAll_iff.mp (leavesAll_like hR hs)))

end

theorem shape_like {v w : Value} (h : Like R U v w) : v.shape = w.shape := by
  rw [shape, shape, shape?_like h]

theorem toDouble_like {v w : Value} (h : Like R U v w) : v.toDouble = w.toDouble := by
  cases h with
  | array g h =>
    obtain ⟨t, shape, cells⟩ := g
    rcases shape with _ | ⟨k, shape⟩
    · rcases cells with _ | ⟨n, _ | ⟨n', cells⟩⟩ <;> rfl
    · rfl
  | _ => rfl

theorem hasCells_like {v w : Value} (h : Like R U v w) : v.hasCells = w.hasCells := by
  cases h <;> rfl

end Value

namespace Points

variable {α β : Type} {r : α → α → Prop}

theorem stretched_like : ∀ (s t : List Nat) {vs ws : List α}, List.Forall₂ r vs ws →
    List.Forall₂ r (stretched s t vs) (stretched s t ws)
  | [], _, _, _, h => h
  | _ :: _, [], _, _, h => h
  | k :: s, n :: t, vs, ws, h => by
    have replicate : ∀ n, List.Forall₂ (List.Forall₂ r) (List.replicate n (stretched s t vs))
        (List.replicate n (stretched s t ws)) := by
      intro n
      induction n with
      | zero => exact .nil
      | succ n ih => exact .cons (stretched_like s t h) ih
    unfold stretched
    split
    · refine List.rel_flatMap (List.forall₂_same.mpr fun i _ => rfl) fun i j hij => ?_
      cases hij
      exact stretched_like s t (List.forall₂_take _ (List.forall₂_drop _ h))
    · exact List.rel_flatten (replicate n)

def Like (r : α → α → Prop) (p q : Points α) : Prop := p.shape = q.shape ∧ List.Forall₂ r p.cells q.cells

theorem stretchTo_like (shape : List Nat) {p q : Points α} (h : p.Like r q) :
    List.Forall₂ r (p.stretchTo shape) (q.stretchTo shape) := by
  unfold stretchTo
  rw [h.1]
  split
  · exact h.2
  · exact stretched_like _ _ h.2

theorem mapM_zip_like {f g : α → α → Except Fault β} (hf : ∀ v v' w w', r v v' → r w w' → f v w = g v' w') :
    ∀ {vs vs' ws ws' : List α}, List.Forall₂ r vs vs' → List.Forall₂ r ws ws' →
      (vs.zip ws).mapM (fun (x, y) => f x y) = (vs'.zip ws').mapM fun (x, y) => g x y
  | _, _, _, _, .nil, _ => rfl
  | _, _, _, _, .cons _ _, .nil => rfl
  | _, _, _, _, .cons h hs, .cons k ks => by
    simp only [List.zip_cons_cons, List.mapM_cons, hf _ _ _ _ h k, mapM_zip_like hf hs ks]

theorem zipCells_like {f g : α → α → Except Fault β} (hf : ∀ v v' w w', r v v' → r w w' → f v w = g v' w')
    {a a' b b' : Points α} (ha : a.Like r a') (hb : b.Like r b') : zipCells f a b = zipCells g a' b' := by
  have hz (shape : List Nat) := mapM_zip_like hf (stretchTo_like shape ha) (stretchTo_like shape hb)
  simp only [zipCells, ha.1, hb.1, hz]

end Points

/-! ## Operands -/

namespace Operand

open Value (LikeAll)

inductive Like (R : Nat → Nat → Prop) (U : Set Nat) : Operand → Operand → Prop
  | number (n : Number) : Like R U (.number n) (.number n)
  | grid (g : Grid) : Like R U (.grid g) (.grid g)
  | words {p q : Points Value} : p.Like (Value.Like R U) q → Like R U (.words p) (.words q)
  | objects {p q : Points Value} : p.Like (Value.Like R U) q → Like R U (.objects p) (.objects q)

theorem leafType_like {v w : Value} (h : Value.Like R U v w) : leafType v = leafType w := by
  cases h <;> rfl

theorem joinTypes_like {vs ws : List Value} (h : LikeAll R U vs ws) : joinTypes vs = joinTypes ws := by
  unfold joinTypes
  generalize some CellType.bool = t
  induction vs generalizing ws t with
  | nil => cases h; rfl
  | cons v vs ih =>
    cases h with
    | cons hv h =>
      cases t with
      | none => exact ih h _
      | some t =>
        simp only [List.foldl_cons, leafType_like hv]
        exact ih h _

theorem numbers?_like : ∀ {vs ws : List Value}, LikeAll R U vs ws → numbers? vs = numbers? ws
  | _, _, .nil => rfl
  | _, _, .cons h hs => by
    cases h with
    | number n _ => simp only [numbers?, numbers?_like hs]
    | _ => rfl

theorem any_object_like {vs ws : List Value} (h : LikeAll R U vs ws) :
    (vs.any fun v => leafType v = some .object) = ws.any fun v => leafType v = some .object := by
  induction vs generalizing ws with
  | nil => cases h; rfl
  | cons v vs ih =>
    cases h with
    | cons hv h => simp only [List.any_cons, leafType_like hv, ih h]

theorem ofLeaves_like (shape : List Nat) {vs ws : List Value} (h : LikeAll R U vs ws) :
    Accord (Like R U) (ofLeaves shape vs) (ofLeaves shape ws) := by
  have he : vs.isEmpty = ws.isEmpty := by cases h <;> rfl
  have hp : Points.Like (Value.Like R U) ⟨shape, vs⟩ ⟨shape, ws⟩ := ⟨rfl, Value.likeAll_iff.mp h⟩
  simp only [ofLeaves, he, joinTypes_like h, numbers?_like h, any_object_like h]
  split
  · exact .ok (.grid _)
  split
  · rename_i t ns _ _
    cases ns.mapM (Number.toCell t) with
    | error f => exact .error f
    | ok cells => exact .ok (.grid _)
  · exact .ok (.objects hp)
  · split
    · exact .ok (.objects hp)
    · exact .ok (.words hp)

theorem ofValue_like (hR : Pairing m R) {v w : Value} (h : Value.Like R U v w) :
    Accord (Like R U) (ofValue v) (ofValue w) := by
  cases h with
  | none => exact .ok (.objects ⟨rfl, .cons .none .nil⟩)
  | number n _ => exact .ok (.number n)
  | text s h => exact .ok (.words ⟨rfl, .cons (.text s h) .nil⟩)
  | @list as bs i j h h' =>
    have hshape := Value.shape_like (Value.Like.list h h')
    simp only [ofValue, hshape]
    cases (Value.list bs j).shape with
    | error f => exact .error f
    | ok shape => exact ofLeaves_like shape (Value.leaves_like hR (.list h h'))
  | array g _ => exact .ok (.grid g)
  | handle h => exact .ok (.objects ⟨rfl, .cons (.handle h) .nil⟩)

variable {a a' b b' : Operand}

theorem values_like (hR : Pairing m R) (h : Like R U a a') : a.values.Like (Value.Like R U) a'.values := by
  cases h with
  | number n => exact ⟨rfl, .cons (Value.like_ofNumber hR _) .nil⟩
  | grid g =>
    exact ⟨rfl, List.forall₂_same.mpr fun v hv => by
      obtain ⟨n, _, rfl⟩ := List.mem_map.mp hv
      exact Value.like_ofNumber hR _⟩
  | words h => exact h
  | objects h => exact h

theorem compare_like (hR : Pairing m R) {leaf leaf' : Value → Value → Except Fault Bool}
    (hleaf : ∀ v v' w w', Value.Like R U v v' → Value.Like R U w w' → leaf v w = leaf' v' w') (rel : Relation)
    (ha : Like R U a a') (hb : Like R U b b') : compare leaf rel a b = compare leaf' rel a' b' := by
  have ho : ∀ {a a' : Operand}, Like R U a a' → a.isObjects = a'.isObjects := fun h => by cases h <;> rfl
  have hw : ∀ {a a' : Operand}, Like R U a a' → a.isWords = a'.isWords := fun h => by cases h <;> rfl
  have hn : ∀ {a a' : Operand} (f : Number → Except Fault Number), Like R U a a' → a.numbers f = a'.numbers f :=
    fun f h => by
      cases h with
      | words h => simp only [numbers, h.1]
      | objects h => simp only [numbers, h.1]
      | _ => rfl
  have hm : a.meet b = a'.meet b' := by cases ha <;> cases hb <;> rfl
  have hz := Points.zipCells_like hleaf (values_like hR ha) (values_like hR hb)
  have hz' := Points.zipCells_like (r := Value.Like R U) (f := fun _ _ => pure (decide (rel = .ne)))
    (g := fun _ _ => pure (decide (rel = .ne))) (fun _ _ _ _ _ _ => rfl)
    (values_like hR ha) (values_like hR hb)
  simp only [compare, ho ha, ho hb, hw ha, hw hb, hm, hn _ ha, hn _ hb, hz, hz']

end Operand

/-! ## Comparisons -/

namespace Value

theorem compareHandles_like (ho : o.Agree U o') (rel : Relation) {i j : Nat} (hi : i ∈ U) (hj : j ∈ U) :
    compareHandles o rel i j = compareHandles o' rel i j := by
  simp only [compareHandles, ho.equal i hi j hj]

theorem compareLeaves_like (ho : o.Agree U o') (rel : Relation) {v v' w w' : Value} (hv : Like R U v v')
    (hw : Like R U w w') : compareLeaves o rel v w = compareLeaves o' rel v' w' := by
  cases hv <;> cases hw <;> try rfl
  case handle.handle hi _ hj => simp only [compareLeaves, compareHandles_like ho rel hi hj]

theorem compareSingle_like (hR : Pairing m R) (ho : o.Agree U o') (rel : Relation) {v v' w w' : Value}
    (hv : Like R U v v') (hw : Like R U w w') : compareSingle o rel v w = compareSingle o' rel v' w' := by
  have hcells : (v.hasCells || w.hasCells) = (v'.hasCells || w'.hasCells) := by rw [hasCells_like hv, hasCells_like hw]
  have hleaf := compareLeaves_like ho rel hv hw
  have hop : (do (← Operand.ofValue v).compare (compareLeaves o rel) rel (← Operand.ofValue w)) =
      (do (← Operand.ofValue v').compare (compareLeaves o' rel) rel (← Operand.ofValue w') : Except Fault Value) := by
    have ha := Operand.ofValue_like hR hv
    have hb := Operand.ofValue_like hR hw
    generalize Operand.ofValue v = x, Operand.ofValue v' = x' at ha
    generalize Operand.ofValue w = y, Operand.ofValue w' = y' at hb
    cases ha with
    | error f => rfl
    | ok ha =>
      cases hb with
      | error f => rfl
      | ok hb => exact Operand.compare_like hR (fun _ _ _ _ => compareLeaves_like ho rel) rel ha hb
  cases hv <;> cases hw
  case number.number => rfl
  case number.none => rfl
  case none.number => rfl
  case handle.handle hi _ hj => exact compareHandles_like ho rel hi hj
  all_goals
    simp only [compareSingle]
    rw [hcells, hleaf, hop]

mutual

/-- Values that are alike compare in the same way. -/
theorem compare_like (hR : Pairing m R) (ho : o.Agree U o') (rel : Relation) :
    ∀ {v v' w w' : Value}, Like R U v v' → Like R U w w' → compare o rel v w = compare o' rel v' w'
  | .list as i, _, w, _, .list h h', hw => by
    cases hw with
    | list k k' =>
      simp only [compare, (likeAll_iff.mp h).length_eq, (likeAll_iff.mp k).length_eq, compareItems_like hR ho rel h k]
    | none => exact compareSingle_like hR ho rel (.list h h') .none
    | number n k => exact compareSingle_like hR ho rel (.list h h') (.number n k)
    | text s k => exact compareSingle_like hR ho rel (.list h h') (.text s k)
    | array g k => exact compareSingle_like hR ho rel (.list h h') (.array g k)
    | handle k => exact compareSingle_like hR ho rel (.list h h') (.handle k)
  | .none, _, _, _, .none, hw => compareSingle_like hR ho rel .none hw
  | .number _ _, _, _, _, .number n h, hw => compareSingle_like hR ho rel (.number n h) hw
  | .text _ _, _, _, _, .text s h, hw => compareSingle_like hR ho rel (.text s h) hw
  | .array _ _, _, _, _, .array g h, hw => compareSingle_like hR ho rel (.array g h) hw
  | .handle _, _, _, _, .handle h, hw => compareSingle_like hR ho rel (.handle h) hw

theorem compareItems_like (hR : Pairing m R) (ho : o.Agree U o') (rel : Relation) :
    ∀ {vs vs' ws ws' : List Value}, LikeAll R U vs vs' → LikeAll R U ws ws' →
      compareItems o rel vs ws = compareItems o' rel vs' ws'
  | [], _, _, _, .nil, hw => by cases hw <;> rfl
  | v :: vs, _, _, _, .cons h hs, hw => by
    cases hw with
    | nil => rfl
    | cons k ks =>
      simp only [compareItems, same_like hR h k, compare_like hR ho _ h k, compareItems_like hR ho rel hs ks]

end

theorem lt_like (hR : Pairing m R) (ho : o.Agree U o') {v v' w w' : Value} (hv : Like R U v v') (hw : Like R U w w') :
    lt o v w = lt o' v' w' := by
  rw [lt, lt, compare_like hR ho .lt hv hw]

end Value

end

end StreamStat
