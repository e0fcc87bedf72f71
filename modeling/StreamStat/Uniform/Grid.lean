import StreamStat.Uniform.Basic

/-!
# Uniform functions over grids

A whole grid is evaluated cell by cell in doubles: the density by a comparison with
both bounds, the cumulative function by the ramp, cut off at zero and one. Bounds
meet the grid as doubles; only a fraction stays the number that it is, and makes
objects of the cells that it is subtracted from or divides.
-/

namespace StreamStat

namespace Number

def isFraction : Number → Bool
  | fraction _ | machineFraction _ _ _ => true
  | _ => false

def isSingle : Number → Bool
  | machineFloat .single _ => true
  | _ => false

/-- The form in which a number meets the cells of a grid. -/
def gridBound (n : Number) : Except Fault Number :=
  if n.isFraction then .ok n else n.toDouble.map float

end Number

/-- The number that a bound is; an array has to have no axes. -/
def Value.toNumber : Value → Except Fault Number
  | number n _ => .ok n
  | array ⟨_, [], [n]⟩ _ => .ok n
  | _ => .error .wrongType

namespace Density

def cell (lower upper : Number) (density : Double) (x : Double) : Except Fault Double := do
  let above ← lower.le (.float x)
  let below ← Number.le (.float x) upper
  return if above && below then density else 0

def evalGrid (p : Density Value) (points : Points Double) : Except Fault Grid := do
  let lower ← (← p.lower.toNumber).gridBound
  let upper ← (← p.upper.toNumber).gridBound
  let density ← p.density.toNumber
  let height ← density.toDouble
  let cells ← points.cells.mapM (cell lower upper height)
  let precision := if density.isSingle then Precision.single else .double
  return ⟨.floating precision, points.shape, cells.map (.machineFloat precision)⟩

def apply (p : Density Value) (v : Value) : Except Fault Value := do
  if (← v.shape) = [] then
    let x ← v.toDouble
    p.eval (.ofNumber (.float x))
  else
    return .array (← p.evalGrid (← v.toPoints)) 0

end Density

namespace Cumulative

/-- Cuts a double off at zero and one; a NaN passes. -/
def clip (x : Double) : Double := if x < 0 then 0 else if 1 < x then 1 else x

/-- Cuts off at zero and one where a NaN counts as too small. -/
def clipOrdered (x : Double) : Double := if x.isNaN then 0 else clip x

def ramp (lower divisor x : Double) : Double := (x - lower) / divisor

/-- The ramp at a cell that a fraction has made an object of. -/
def rampObject (lower divisor : Number) (x : Double) : Except Fault Number := do
  let y ← Number.sub (.float x) lower
  let z ← Number.div y divisor
  return .float (clipOrdered (← z.toDouble))

def evalGrid (c : Cumulative Value) (points : Points Double) : Except Fault Grid := do
  let lower ← (← c.lower.toNumber).gridBound
  let divisor ← (← c.divisor.toNumber).gridBound
  if lower.isFraction || divisor.isFraction then
    return ⟨.object, points.shape, ← points.cells.mapM (rampObject lower divisor)⟩
  else
    let ramps := points.cells.map (ramp (← lower.toDouble) (← divisor.toDouble))
    return ⟨.floating .double, points.shape, ramps.map fun x => .machineFloat .double (clip x)⟩

def apply (c : Cumulative Value) (v : Value) : Except Fault Value := do
  if (← v.shape) = [] then
    let x ← v.toDouble
    c.eval (.ofNumber (.float x))
  else
    return .array (← c.evalGrid (← v.toPoints)) 0

end Cumulative

end StreamStat
