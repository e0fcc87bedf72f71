import StreamStat.Value.Order

/-!
# Ranges

A range is the closed interval between two bounds that are both given. The bounds are
kept as they come, in whatever order; membership is decided on their doubles.
-/

namespace StreamStat

structure Range where
  min : Value
  max : Value
  min_given : min.isNone = false
  max_given : max.isNone = false

namespace Range

def make (min max : Value) : Except Fault Range :=
  match hmin : min.isNone, hmax : max.isNone with
  | true, _ => .error (.argument .missingMin)
  | false, true => .error (.argument .missingMax)
  | false, false => .ok ⟨min, max, hmin, hmax⟩

def width (r : Range) : Except Fault Double := do
  let upper ← r.max.toDouble
  let lower ← r.min.toDouble
  return upper - lower

def amend (mark : Nat) (new : Value) (r : Range) : Range where
  min := Value.amend mark new r.min
  max := Value.amend mark new r.max
  min_given := by rw [Value.isNone_amend, r.min_given]
  max_given := by rw [Value.isNone_amend, r.max_given]

/-! ## Membership -/

/-- Whether a double lies between two others; a NaN does not. -/
def between (lower upper x : Double) : Bool := lower ≤ x && x ≤ upper

/-- Which of the points of a value lie in the range. -/
def contains (r : Range) (v : Value) : Except Fault (Points Bool) := do
  let points ← v.toPoints
  let lower ← r.min.toDouble
  let upper ← r.max.toDouble
  return ⟨points.shape, points.cells.map (between lower upper)⟩

/-- Whether a single point lies in the range; grids are refused. -/
def member (r : Range) (v : Value) : Except Fault Bool := do
  let shape ← v.shape
  if shape ≠ [] then throw (.argument .membershipOfArray)
  let inside ← r.contains v
  return inside.cells.all id

/-! ## Equality and texts -/

def equal (o : ObjectView) (r s : Range) : Except Fault Bool :=
  Value.agreeAll o [r.min, r.max] [s.min, s.max]

def text (o : ObjectView) (r : Range) : Except Fault String := do
  return "[" ++ (← r.min.inlineText o) ++ ", " ++ (← r.max.inlineText o) ++ "]"

def written (o : ObjectView) (r : Range) : Except Fault String := do
  return "Range(min=" ++ (← r.min.written o) ++ ", max=" ++ (← r.max.written o) ++ ")"

end Range

end StreamStat
