import StreamStat.Number.Cell

/-!
# Values

What may be handed in as a bound, a point or a sample: nothing, a number, a text, a
list, an array, or a handle on an object that lives elsewhere. Numbers, texts, lists
and arrays carry a mark that tells one occurrence from another, since a NaN is equal
to nothing and still recognised as itself.
-/

namespace StreamStat

/-- An array: its extents, and its cells in row order. -/
structure Grid where
  cellType : CellType
  shape : List Nat
  cells : List Number
  deriving DecidableEq

inductive Value where
  | none
  | number (n : Number) (mark : Nat)
  | text (s : String) (mark : Nat)
  | list (items : List Value) (mark : Nat)
  | array (grid : Grid) (mark : Nat)
  | handle (id : Nat)

namespace Value

instance : Inhabited Value := ⟨.none⟩

def isNone : Value → Bool
  | none => true
  | _ => false

/-! ## Marks

A value that has just been computed has the mark zero until it is kept somewhere. The
mark one belongs to the constants, of which there is one occurrence each. -/

def constantMark : Nat := 1

def ofNumber (n : Number) : Value := .number n 0

def ofBool (b : Bool) : Value := ofNumber (.bool b)

def ofInt (i : Int) : Value := ofNumber (.int i)

def ofText (s : String) : Value := .text s 0

def constant (n : Number) : Value := .number n constantMark

/-- What a computation on arrays gives; without axes it is a number. -/
def ofGrid (g : Grid) : Value :=
  match g.shape, g.cells with
  | [], [n] => ofNumber n
  | _, _ => .array g 0

def stamp (mark : Nat) : Value → Value
  | number n 0 => number n mark
  | text s 0 => text s mark
  | list items 0 => list items mark
  | array g 0 => array g mark
  | v => v

/-! ## The same occurrence -/

/-- Whether there is one occurrence only of a text. -/
def isSharedText (s : String) : Bool :=
  match s.toList with
  | [] => true
  | [c] => c.toNat < 256
  | _ => false

mutual

def same : Value → Value → Bool
  | none, none => true
  | number m i, number n j => m = n && (i = j || m.isShared)
  | text s i, text t j => s = t && (i = j || isSharedText s)
  | list as i, list bs j => i = j && sameAll as bs
  | array g i, array h j => i = j && g = h
  | handle i, handle j => i = j
  | _, _ => false

def sameAll : List Value → List Value → Bool
  | [], [] => true
  | a :: as, b :: bs => same a b && sameAll as bs
  | _, _ => false

end

/-! ## Changes in place -/

mutual

/-- Gives the list or the array of a mark the contents of `new`, wherever it occurs. -/
def amend (mark : Nat) (new : Value) : Value → Value
  | list items i =>
    if i = mark then
      match new with
      | list news _ => list news i
      | _ => list items i
    else list (amendAll mark new items) i
  | array g i =>
    if i = mark then
      match new with
      | array h _ => array h i
      | _ => array g i
    else array g i
  | v => v

def amendAll (mark : Nat) (new : Value) : List Value → List Value
  | [] => []
  | v :: vs => amend mark new v :: amendAll mark new vs

end

theorem isNone_amend (mark : Nat) (new v : Value) : (amend mark new v).isNone = v.isNone := by
  cases v with
  | list items i => by_cases h : i = mark <;> cases new <;> simp [amend, isNone, h]
  | array g i => by_cases h : i = mark <;> cases new <;> simp [amend, isNone, h]
  | _ => simp [amend]

/-! ## Truth -/

/-- Whether a value counts as true. An array has to have one cell. -/
def truth : Value → Except Fault Bool
  | none => .ok false
  | number n _ => .ok n.isTrue
  | text s _ => .ok !s.isEmpty
  | list items _ => .ok !items.isEmpty
  | array g _ =>
    match g.cells with
    | [n] => .ok n.isTrue
    | _ => .error .badValue
  | handle _ => .ok true

end Value

/-- The fields that have been added to an object from outside. -/
abbrev Notes := List (String × Value)

/-- Assigns a field, in the place of what it was before. -/
def Notes.assign (notes : Notes) (name : String) (v : Value) : Notes :=
  (name, v) :: notes.filter fun (k, _) => k ≠ name

end StreamStat
