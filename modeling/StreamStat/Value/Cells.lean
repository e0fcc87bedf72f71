import StreamStat.Number.Arithmetic
import StreamStat.Value.Grid

/-!
# Operations on cells

An operation that meets an array works cell by cell. Lists and numbers are read as
arrays first, the shapes of the two operands are stretched to one shape, and the types
of their cells are joined. Cells that are no numbers have few operations.
-/

namespace StreamStat

/-! ## Shapes -/

namespace Points

/-- The shape in which two shapes meet, from the last axis on; an axis of length one
stretches. -/
def meetReversed : List Nat → List Nat → Option (List Nat)
  | [], t => some t
  | s, [] => some s
  | m :: s, n :: t =>
    match meetReversed s t with
    | some r => if m = n || n = 1 then some (m :: r) else if m = 1 then some (n :: r) else none
    | none => none

def meetShapes (s t : List Nat) : Except Fault (List Nat) :=
  match meetReversed s.reverse t.reverse with
  | some r => .ok r.reverse
  | none => .error .badValue

variable {α : Type}

/-- Repeats cells along the axes on which the shape is shorter than its target. -/
def stretched : List Nat → List Nat → List α → List α
  | m :: s, n :: t, cells =>
    if m = n then
      let size := Value.cellCount s
      (List.range m).flatMap fun i => stretched s t ((cells.drop (i * size)).take size)
    else
      (List.replicate n (stretched s t cells)).flatten
  | _, _, cells => cells

def stretchTo (target : List Nat) (p : Points α) : List α :=
  if p.shape = target then p.cells
  else stretched (List.replicate (target.length - p.shape.length) 1 ++ p.shape) target p.cells

def zipCells {β γ : Type} (f : α → β → Except Fault γ) (a : Points α) (b : Points β) :
    Except Fault (Points γ) := do
  let shape ← meetShapes a.shape b.shape
  let cells ← ((a.stretchTo shape).zip (b.stretchTo shape)).mapM fun (x, y) => f x y
  return ⟨shape, cells⟩

end Points

/-! ## Operands -/

inductive Operand where
  | number (n : Number)
  | grid (g : Grid)
  | words (p : Points Value)
  | objects (p : Points Value)

namespace Operand

/-- The type of the cells of an array that is made of values, `none` for texts. -/
def leafType : Value → Option CellType
  | .number n _ => some (.ofNumber n)
  | .text _ _ => none
  | _ => some .object

def joinTypes (leaves : List Value) : Option CellType :=
  leaves.foldl
    (fun
      | none, _ => none
      | some t, v => (leafType v).map t.join)
    (some .bool)

/-- The numbers among values that are all numbers. -/
def numbers? : List Value → Option (List Number)
  | [] => some []
  | .number n _ :: vs => (numbers? vs).map (n :: ·)
  | _ :: _ => none

/-- Values as the cells of an array. Texts make a word of every number beside them, but
not of other objects. -/
def ofLeaves (shape : List Nat) (leaves : List Value) : Except Fault Operand := do
  if leaves.isEmpty then return grid ⟨.floating .double, shape, []⟩
  match joinTypes leaves, numbers? leaves with
  | some t, some ns => return grid ⟨t, shape, ← ns.mapM (Number.toCell t)⟩
  | some _, none => return objects ⟨shape, leaves⟩
  | none, _ =>
    if leaves.any fun v => leafType v = some .object then return objects ⟨shape, leaves⟩
    else return words ⟨shape, leaves⟩

def ofValue (v : Value) : Except Fault Operand :=
  match v with
  | .number n _ => .ok (number n)
  | .array g _ => .ok (grid g)
  | .text _ _ => .ok (words ⟨[], [v]⟩)
  | .list _ _ => do ofLeaves (← v.shape) v.leaves
  | .none | .handle _ => .ok (objects ⟨[], [v]⟩)

def isWords : Operand → Bool
  | words _ => true
  | _ => false

/-- Whether the cells are objects, which are dealt with one by one. -/
def isObjects : Operand → Bool
  | objects _ => true
  | grid g => g.cellType = .object
  | number n => CellType.ofNumber n = .object
  | words _ => false

def values : Operand → Points Value
  | number n => ⟨[], [.ofNumber n.plain]⟩
  | grid g => ⟨g.shape, g.cells.map fun n => .ofNumber n.plain⟩
  | words p | objects p => p

def meet : Operand → Operand → CellType
  | grid g, grid h => g.cellType.join h.cellType
  | grid g, number n | number n, grid g => g.cellType.meet n
  | number m, number n =>
    if m.isMachine then (CellType.ofNumber m).meet n else (CellType.ofNumber n).meet m
  | _, _ => .object

def numbers (f : Number → Except Fault Number) : Operand → Except Fault (Points Number)
  | number n => do return ⟨[], [← f n]⟩
  | grid g => do return ⟨g.shape, ← g.cells.mapM f⟩
  | words p | objects p => .ok ⟨p.shape, []⟩

end Operand

/-! ## Arithmetic -/

namespace NumberOperation

def resultType (op : NumberOperation) (t : CellType) : Except Fault CellType :=
  match t with
  | .bool => (op.truths true true).map CellType.ofNumber
  | .whole w => .ok (if op.wholeCells.isSome then .whole w else .floating .double)
  | t => .ok t

end NumberOperation

namespace Operand

/-- An operation on two objects, which have to be numbers. -/
def combineValues (op : NumberOperation) (v w : Value) : Except Fault Number :=
  match v, w with
  | .number m _, .number n _ => m.combine op n
  | _, _ => .error .wrongType

def resultType (op : NumberOperation) (a b : Operand) : Except Fault CellType :=
  if a.isObjects || b.isObjects then .ok .object
  else if a.isWords || b.isWords then .error .noCellOperation
  else op.resultType (a.meet b)

def combineCells (op : NumberOperation) (a b : Operand) : Except Fault (Points Number) :=
  if a.isObjects || b.isObjects then Points.zipCells (combineValues op) a.values b.values
  else do
    let t := a.meet b
    let x ← a.numbers (Number.toCell t)
    let y ← b.numbers (Number.toCell t)
    Points.zipCells (Number.combineCells op t) x y

def combine (op : NumberOperation) (a b : Operand) : Except Fault Grid := do
  let t ← resultType op a b
  let p ← combineCells op a b
  return ⟨t, p.shape, p.cells⟩

end Operand

namespace Grid

/-- A number as a cell of a type that may be narrower. -/
def cast (t : CellType) (n : Number) : Except Fault Number :=
  match t with
  | .whole w => do return .machineInt w (w.wrap (← n.truncate))
  | t => n.toCell t

/-- The array after an operation in place: it keeps its shape and the type of its
cells. -/
def combineInPlace (op : NumberOperation) (g : Grid) (b : Operand) : Except Fault Grid := do
  let t ← Operand.resultType op (.grid g) b
  if !t.keptIn g.cellType then throw .noCellOperation
  let p ← Operand.combineCells op (.grid g) b
  if p.shape ≠ g.shape then throw .badValue
  return { g with cells := ← p.cells.mapM (cast g.cellType) }

def mapCells (f : Number → Except Fault Number) (g : Grid) : Except Fault Grid := do
  return { g with cells := ← g.cells.mapM f }

/-- The opposite cells; truth values have none. -/
def neg (g : Grid) : Except Fault Grid :=
  if g.cellType = .bool then .error .wrongType else g.mapCells Number.neg

def abs (g : Grid) : Except Fault Grid := g.mapCells Number.abs

end Grid

/-! ## Comparisons -/

namespace Operand

/-- A number as it is compared with cells of a type: only floating cells round it. -/
def rounded (t : CellType) (n : Number) : Except Fault Number :=
  match t with
  | .floating p => n.toCell (.floating p)
  | _ => .ok n

/-- Compares cell by cell; `leaf` compares objects. Texts and numbers are unlike, and
where there are no axes it is not for cells to say so. -/
def compare (leaf : Value → Value → Except Fault Bool) (rel : Relation) (a b : Operand) :
    Except Fault Value := do
  let truths (p : Points Bool) : Value := .ofGrid ⟨.bool, p.shape, p.cells.map .machineBool⟩
  if a.isObjects || b.isObjects then
    return truths (← Points.zipCells leaf a.values b.values)
  if a.isWords || b.isWords then
    if rel.isOrder then throw .noCellOperation
    let p ← Points.zipCells (fun _ _ => pure (decide (rel = .ne))) a.values b.values
    return if p.shape = [] then .ofBool (decide (rel = .ne)) else truths p
  let t := a.meet b
  let x ← a.numbers (rounded t)
  let y ← b.numbers (rounded t)
  return truths (← Points.zipCells (Number.compareCells rel t) x y)

end Operand

/-! ## Arithmetic of values -/

namespace Value

def hasCells : Value → Bool
  | number n _ => n.isMachine
  | array _ _ => true
  | _ => false

def combine (op : NumberOperation) (v w : Value) : Except Fault Value :=
  match v, w with
  | number m _, number n _ => (m.combine op n).map ofNumber
  | v, w =>
    if v.hasCells || w.hasCells then do
      let a ← Operand.ofValue v
      let b ← Operand.ofValue w
      return ofGrid (← Operand.combine op a b)
    else .error .wrongType

def sub (v w : Value) : Except Fault Value := combine .subtraction v w
def div (v w : Value) : Except Fault Value := combine .division v w

end Value

end StreamStat
