import StreamStat.Value.Order

/-!
# The uniform density and its cumulative function

Both are built once from the bounds of the domain and are evaluated point by point.
They are stated for any arithmetic, so that the same definitions run on the values of
the library and on exact rationals.
-/

namespace StreamStat

/-- What the uniform functions ask of their numbers. -/
class Arithmetic (α : Type) where
  zero : α
  one : α
  sub : α → α → Except Fault α
  div : α → α → Except Fault α
  lt : α → α → Except Fault Bool
  le : α → α → Except Fault Bool
  eq : α → α → Except Fault Bool
  /-- Whether a number is infinite or no number at all. -/
  isEndless : α → Except Fault Bool
  text : α → Except Fault String

/-- The view of one who knows no objects. -/
def ObjectView.none : ObjectView where
  text _ := .error .wrongType
  written _ := .error .wrongType
  equal i j := .ok (.ofBool (i = j))

/-- Values that can be subtracted are numbers or have cells, so that no object is
met. -/
instance : Arithmetic Value where
  zero := .constant (.float 0)
  one := .constant (.float 1)
  sub := Value.sub
  div := Value.div
  lt := Value.lt .none
  le := Value.le .none
  eq := Value.equal .none
  isEndless v := v.toDouble.map fun x => !x.isFinite
  text := Value.inlineText .none

instance : Arithmetic Rat where
  zero := 0
  one := 1
  sub x y := .ok (x - y)
  div x y := if y = 0 then .error .divisionByZero else .ok (x / y)
  lt x y := .ok (x < y)
  le x y := .ok (x ≤ y)
  eq x y := .ok (x = y)
  isEndless _ := .ok false
  text x := Number.quotientText x.num x.den

section
variable {α : Type} [Arithmetic α]
open Arithmetic

/-- The width of a domain, once it is known to be finite, positive and wide enough for
its reciprocal. -/
def checkedWidth (lower upper : α) : Except Fault α := do
  let width ← sub upper lower
  if ← isEndless width then
    throw (.argument (.infiniteWidth (← text lower) (← text upper)))
  if ← eq width zero then
    throw (.degenerate (.zeroWidth (← text lower) (← text upper)))
  if ← lt width zero then
    throw (.argument (.reversedBounds (← text lower) (← text upper)))
  let density ← div one width
  if ← isEndless density then
    throw (.degenerate (.tooNarrow (← text lower) (← text upper)))
  return width

structure Density (α : Type) where
  lower : α
  upper : α
  density : α

namespace Density

def ofBounds (lower upper : α) : Except Fault (Density α) := do
  let width ← checkedWidth lower upper
  let density ← div one width
  return ⟨lower, upper, density⟩

/-- Constant on the closed domain, zero elsewhere. -/
def eval (p : Density α) (x : α) : Except Fault α := do
  if ← le p.lower x then
    if ← le x p.upper then
      return p.density
  return zero

end Density

structure Cumulative (α : Type) where
  lower : α
  upper : α
  divisor : α

namespace Cumulative

def ofBounds (lower upper : α) : Except Fault (Cumulative α) := do
  let width ← checkedWidth lower upper
  return ⟨lower, upper, width⟩

/-- Zero below the domain, one above it and a ramp inside. -/
def eval (c : Cumulative α) (x : α) : Except Fault α := do
  if ← lt x c.lower then return zero
  if ← lt c.upper x then return one
  div (← sub x c.lower) c.divisor

end Cumulative

end

/-! ## Equality and texts -/

namespace Density

def map {α β : Type} (f : α → β) (p : Density α) : Density β :=
  ⟨f p.lower, f p.upper, f p.density⟩

def fields (p : Density Value) : List Value := [p.lower, p.upper, p.density]

def equal (o : ObjectView) (p q : Density Value) : Except Fault Bool :=
  Value.agreeAll o p.fields q.fields

def text (o : ObjectView) (p : Density Value) : Except Fault String := do
  return "p(x) = " ++ (← p.density.inlineText o)

def written (o : ObjectView) (p : Density Value) : Except Fault String := do
  return "UniformPDF(min=" ++ (← p.lower.written o) ++ ", max=" ++ (← p.upper.written o) ++
    ", density=" ++ (← p.density.written o) ++ ")"

end Density

namespace Cumulative

def map {α β : Type} (f : α → β) (c : Cumulative α) : Cumulative β :=
  ⟨f c.lower, f c.upper, f c.divisor⟩

def fields (c : Cumulative Value) : List Value := [c.lower, c.upper, c.divisor]

def equal (o : ObjectView) (c d : Cumulative Value) : Except Fault Bool :=
  Value.agreeAll o c.fields d.fields

def text (o : ObjectView) (c : Cumulative Value) : Except Fault String := do
  let lower ← c.lower.inlineText o
  return "P(x) = (x - " ++ lower ++ ")/(" ++ (← c.upper.inlineText o) ++ " - " ++ lower ++ ")"

def written (o : ObjectView) (c : Cumulative Value) : Except Fault String := do
  return "UniformCDF(min=" ++ (← c.lower.written o) ++ ", max=" ++ (← c.upper.written o) ++
    ", divisor=" ++ (← c.divisor.written o) ++ ")"

end Cumulative

end StreamStat
