import StreamStat.Value.Cells
import StreamStat.Value.Text

/-!
# Equality and order of values

Values of unlike kinds are never equal and cannot be put in order. Lists compare item
by item; an item agrees with another if the two are the same or equal. Where cells take
part the answer is an array of truth values, and a comparison holds if its answer
counts as true.
-/

namespace StreamStat

namespace Relation

/-- What a relation says of two things that are equal. -/
def ofEqual : Relation → Bool
  | eq | le => true
  | ne | lt => false

end Relation

namespace Value

/-- The answer for two things that are unlike: they differ and have no order. -/
def compareUnlike (rel : Relation) : Except Fault Bool :=
  if rel.isOrder then .error .wrongType else .ok (decide (rel = .ne))

/-- The answer for two objects, which have no order. -/
def compareHandles (o : ObjectView) (rel : Relation) (i j : Nat) : Except Fault Value := do
  match rel with
  | .eq => o.equal i j
  | .ne => return ofBool (!(← (← o.equal i j).truth))
  | _ => throw .wrongType

def compareLeaves (o : ObjectView) (rel : Relation) (v w : Value) : Except Fault Bool := do
  match v, w with
  | none, none => if rel.isOrder then throw .wrongType else return rel.ofEqual
  | number m _, number n _ => return (← m.compare rel n).isTrue
  | text s _, text t _ => return if s = t then rel.ofEqual else if rel.isOrder then s < t else rel = .ne
  | handle i, handle j => (← compareHandles o rel i j).truth
  | _, _ => compareUnlike rel

/-- Compares two values that are not both lists. A number of an array meets nothing and
texts as a number does, and other values as cells. -/
def compareSingle (o : ObjectView) (rel : Relation) (v w : Value) : Except Fault Value := do
  match v, w with
  | number m _, number n _ => return ofNumber (← m.compare rel n)
  | handle i, handle j => compareHandles o rel i j
  | number _ _, none | none, number _ _ => return ofBool (← compareUnlike rel)
  | v, w =>
    if v.hasCells || w.hasCells then
      (← Operand.ofValue v).compare (compareLeaves o rel) rel (← Operand.ofValue w)
    else return ofBool (← compareLeaves o rel v w)

/-- The answer once one of two lists has ended, given whether each of them has. -/
def compareEnds (rel : Relation) (left right : Bool) : Bool :=
  if left && right then rel.ofEqual
  else
    match rel with
    | .eq => false
    | .ne => true
    | _ => left

mutual

def compare (o : ObjectView) (rel : Relation) (v w : Value) : Except Fault Value :=
  match v, w with
  | list as _, list bs _ =>
    if !rel.isOrder && as.length ≠ bs.length then .ok (ofBool (decide (rel = .ne)))
    else compareItems o rel as bs
  | v, w => compareSingle o rel v w

/-- The first items that do not agree decide; a list comes before its extensions. -/
def compareItems (o : ObjectView) (rel : Relation) : List Value → List Value → Except Fault Value
  | a :: as, b :: bs => do
    let agree ← if same a b then pure true else (← compare o .eq a b).truth
    if agree then compareItems o rel as bs
    else if rel.isOrder then compare o rel a b
    else return ofBool (decide (rel = .ne))
  | as, bs => .ok (ofBool (compareEnds rel as.isEmpty bs.isEmpty))

end

/-! ## Relations that hold -/

def equal (o : ObjectView) (v w : Value) : Except Fault Bool := do (← compare o .eq v w).truth

/-- Two values agree if they are the same or equal. -/
def agree (o : ObjectView) (v w : Value) : Except Fault Bool :=
  if same v w then .ok true else equal o v w

def lt (o : ObjectView) (v w : Value) : Except Fault Bool := do (← compare o .lt v w).truth

def le (o : ObjectView) (v w : Value) : Except Fault Bool := do (← compare o .le v w).truth

def agreeAll (o : ObjectView) (as bs : List Value) : Except Fault Bool := do
  (← compareItems o .eq as bs).truth

/-! ## Membership in sets -/

/-- Whether a value can be put into a set: lists and arrays cannot. -/
def isHashable : Value → Bool
  | list _ _ | array _ _ => false
  | _ => true

/-- Whether two values that are no objects would meet in a set: numbers have to have the
same exact value there. -/
def meets (objects : Nat → Nat → Bool) (v w : Value) : Bool :=
  same v w ||
    match v, w with
    | number m _, number n _ => m.eq n
    | text s _, text t _ => s = t
    | handle i, handle j => objects i j
    | _, _ => false

end Value

end StreamStat
