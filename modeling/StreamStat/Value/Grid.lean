import StreamStat.Value.Basic

/-!
# Points and grids of points

A value is read as a single point or as a grid of points. Lists that nest evenly are
grids; reading cells takes nothing as a NaN and texts as numerals.
-/

namespace StreamStat

structure Points (α : Type) where
  shape : List Nat
  cells : List α

namespace Value

/-! ## Single points -/

/-- The double that a value converts to as a single point. An array converts only if it
has no axes. -/
def toDouble : Value → Except Fault Double
  | number n _ => n.toDouble
  | text s _ =>
    match Double.ofText? s with
    | some x => .ok x
    | .none => .error .badValue
  | array ⟨_, [], [n]⟩ _ => n.toDouble
  | _ => .error .wrongType

/-! ## Shape -/

mutual

/-- The extents of a value as a grid, `none` if it nests unevenly. -/
def shape? : Value → Option (List Nat)
  | list items _ => (commonShape? items).map fun s => items.length :: s
  | array g _ => some g.shape
  | _ => some []

def commonShape? : List Value → Option (List Nat)
  | [] => some []
  | v :: vs =>
    match shape? v, commonShape? vs with
    | some s, some t => if vs.isEmpty || s = t then some s else .none
    | _, _ => .none

end

def maxAxes : Nat := 64

def shape (v : Value) : Except Fault (List Nat) :=
  match v.shape? with
  | some s => if s.length ≤ maxAxes then .ok s else .error .badValue
  | .none => .error .badValue

/-! ## Cells -/

mutual

/-- The items of a grid in row order. -/
def leaves : Value → List Value
  | list items _ => leavesAll items
  | array g _ => g.cells.map ofNumber
  | v => [v]

def leavesAll : List Value → List Value
  | [] => []
  | v :: vs => leaves v ++ leavesAll vs

end

/-- The double that a cell of a grid holds; nothing is a NaN. -/
def cellDouble : Value → Except Fault Double
  | none => .ok .nan
  | v => v.toDouble

/-- The points of a value; a single point is a grid without axes. -/
def toPoints (v : Value) : Except Fault (Points Double) := do
  let shape ← v.shape
  let cells ← v.leaves.mapM cellDouble
  return ⟨shape, cells⟩

/-! ## Arrays -/

def readInteger (s : String) : Except Fault Int :=
  match Text.integer? s with
  | some i => .ok i
  | .none => .error .badValue

/-- A value as a cell of an array of the given type. -/
def toCell (t : CellType) (v : Value) : Except Fault Number :=
  match t with
  | .floating p => v.cellDouble.map fun x => .machineFloat p (p.round x)
  | .whole w => do
    let i ← match v with
      | number n _ => n.truncate
      | text s _ => readInteger s
      | _ => throw .wrongType
    if w.fits i then return .machineInt w i else throw .overflow
  | .bool => v.truth.map .machineBool
  | .object => .error .wrongType

def toGrid (t : CellType) (v : Value) : Except Fault Grid := do
  let shape ← v.shape
  let cells ← v.leaves.mapM (toCell t)
  return ⟨t, shape, cells⟩

/-! ## Items -/

def cellCount (shape : List Nat) : Nat := shape.foldl (· * ·) 1

/-- What one meets when going through an array: its cells, or the grids one axis below. -/
def gridItems (g : Grid) : Option (List Value) :=
  match g.shape with
  | [] => .none
  | [_] => some (g.cells.map ofNumber)
  | n :: rest =>
    let size := cellCount rest
    some ((List.range n).map fun i =>
      .array { g with shape := rest, cells := (g.cells.drop (i * size)).take size } 0)

/-- What one meets when going through a value, if that is possible. -/
def items? : Value → Option (List Value)
  | text s _ => some (s.toList.map fun c => ofText (String.singleton c))
  | list items _ => some items
  | array g _ => gridItems g
  | _ => .none

end Value

end StreamStat
