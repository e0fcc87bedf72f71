import StreamStat.Number.Conversion

/-!
# Cells of arrays

The types that the cells of an array can have, and the type in which two of them meet.
A number from outside of arrays gives way to the type that it meets, as far as its
kind allows.
-/

namespace StreamStat

/-- What the cells of an array hold; objects are numbers of any kind. -/
inductive CellType where
  | bool
  | whole (width : IntWidth)
  | floating (precision : Precision)
  | object
  deriving DecidableEq

namespace CellType

def join : CellType → CellType → CellType
  | object, _ | _, object => object
  | bool, t | t, bool => t
  | whole v, whole w => whole (v.max w)
  | floating p, floating q => floating (p.max q)
  | _, _ => floating .double

/-- Whether cells of one type can be kept in an array of another one, at least by
rounding. -/
def keptIn : CellType → CellType → Bool
  | _, object => true
  | bool, _ => true
  | whole _, whole _ | whole _, floating _ | floating _, floating _ => true
  | _, _ => false

def ofNumber : Number → CellType
  | .bool _ | .machineBool _ => bool
  | .int i => if IntWidth.bits64.fits i then whole .bits64
    else if 0 ≤ i && i < 2 ^ (64 : Nat) then floating .double else object
  | .float _ => floating .double
  | .machineInt w _ => whole w
  | .machineFloat p _ => floating p
  | .fraction _ | .decimal _ | .machineFraction _ _ _ => object

/-- The type in which a number meets cells of a type. Among truth values an integer that is
too large for the widest cells is an object. -/
def meet (t : CellType) : Number → CellType
  | .bool _ => t
  | .int i =>
    match t, ofNumber (.int i) with
    | bool, object => object
    | bool, _ => whole .bits64
    | t, _ => t
  | .float _ =>
    match t with
    | bool | whole _ => floating .double
    | t => t
  | .machineBool _ => t.join bool
  | .machineInt w _ => t.join (whole w)
  | .machineFloat p _ => t.join (floating p)
  | .fraction _ | .decimal _ | .machineFraction _ _ _ => object

end CellType

/-- A number as a cell of a type; integers have to fit. -/
def Number.toCell (t : CellType) (n : Number) : Except Fault Number :=
  match t with
  | .bool => .ok (.machineBool n.isTrue)
  | .whole w => do
    let i ← n.truncate
    if w.fits i then return .machineInt w i else throw .overflow
  | .floating p => do return .machineFloat p (p.round (← n.toDouble))
  | .object => .ok n.plain

end StreamStat
