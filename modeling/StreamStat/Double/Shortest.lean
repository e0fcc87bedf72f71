import StreamStat.Double.Basic

/-!
# Shortest decimals

A number of a binary format is written with the fewest decimal digits that read back
as the same number, and of those with the nearest; an exact tie goes to the even digit.
-/

namespace StreamStat

structure DecimalDigits where
  digits : Nat
  exponent : Int
  deriving DecidableEq

namespace DecimalDigits

/-- The same number without zeros at the end of its digits. -/
def stripped : Nat → DecimalDigits → DecimalDigits
  | 0, x => x
  | fuel + 1, x =>
    if x.digits ≠ 0 && x.digits % 10 = 0 then stripped fuel ⟨x.digits / 10, x.exponent + 1⟩ else x

def chars (x : DecimalDigits) : List Char := Nat.toDigits 10 x.digits

def leading (x : DecimalDigits) : Int := x.exponent + x.chars.length - 1

end DecimalDigits

namespace BinaryFormat

/-- The interval of reals that round to a magnitude, in half units; its ends belong to it
when the magnitude is an even number of steps. -/
structure Neighbourhood where
  low : Nat
  high : Nat
  closed : Bool

def neighbourhood (f : BinaryFormat) (units : Nat) : Neighbourhood :=
  let s := f.step units
  -- below a power of two the grid is twice as fine
  let down := if units = 2 ^ units.log2 ∧ f.finest < s then 2 ^ (s - 1) else 2 ^ s
  { low := 2 * units - down
    high := 2 * units + 2 ^ s
    closed := units / 2 ^ s % 2 = 0 }

/-- The decimal with the given exponent that lies in the neighbourhood of `units`, if one does. -/
def decimalAt? (f : BinaryFormat) (units : Nat) (exponent : Int) : Option Nat :=
  let up := 10 ^ exponent.toNat
  let down := 10 ^ (-exponent).toNat
  let near := f.neighbourhood units
  let num := units * down
  let den := up * Double.unitsPerOne
  let below := num / den
  let inside (bound value : Nat) : Bool := bound < value || (near.closed && bound == value)
  let belowIn := inside (near.low * down) (below * (2 * den))
  let aboveIn := inside ((below + 1) * (2 * den)) (near.high * down)
  if belowIn && aboveIn then some (divNearest num den)
  else if belowIn then some below
  else if aboveIn then some (below + 1)
  else none

/-- The exponent of the first decimal digit of a magnitude that is not zero. -/
def decimalExponent (units : Nat) : Int :=
  let scaled := units * 10 ^ (343 : Nat) / Double.unitsPerOne
  (Nat.toDigits 10 scaled).length - 344

/-- Tries ever finer decimal grids, starting from one digit. -/
def shortestFrom (f : BinaryFormat) (units : Nat) (exponent : Int) : Nat → DecimalDigits
  | 0 => ⟨0, 0⟩
  | fuel + 1 =>
    match f.decimalAt? units exponent with
    | some digits => DecimalDigits.stripped 18 ⟨digits, exponent⟩
    | none => shortestFrom f units (exponent - 1) fuel

def shortest (f : BinaryFormat) (units : Nat) : DecimalDigits :=
  if units = 0 then ⟨0, 0⟩ else f.shortestFrom units (decimalExponent units) 20

end BinaryFormat

namespace DecimalDigits

/-! ## Layout -/

def positional (x : DecimalDigits) : List Char :=
  let cs := x.chars
  if 0 ≤ x.exponent then
    cs ++ List.replicate x.exponent.toNat '0' ++ ['.', '0']
  else if 0 ≤ x.leading then
    let whole := x.leading.toNat + 1
    cs.take whole ++ '.' :: cs.drop whole
  else
    '0' :: '.' :: (List.replicate (-x.leading - 1).toNat '0' ++ cs)

/-- One digit before the point; the exponent has a sign and at least two digits. -/
def scientific (x : DecimalDigits) : List Char :=
  let mantissa := match x.chars with
    | [] => []
    | [c] => [c]
    | c :: cs => c :: '.' :: cs
  let e := Nat.toDigits 10 x.leading.natAbs
  mantissa ++ 'e' :: (if x.leading < 0 then '-' else '+') :: (List.replicate (2 - e.length) '0' ++ e)

end DecimalDigits

namespace Double

/-- Whether a magnitude is written without an exponent: zero, and from `10 ^ -4` up to
but not including `10 ^ top`. -/
def isPositional (top units : Nat) : Bool :=
  units = 0 || (unitsPerOne ≤ units * 10 ^ (4 : Nat) && units < 10 ^ top * unitsPerOne)

/-- The text of a number that belongs to the format `f`, with an exponent from `10 ^ top` on. -/
def textIn (f : BinaryFormat) (top : Nat) : Double → String
  | nan => "nan"
  | inf negative => if negative then "-inf" else "inf"
  | finite negative m =>
    let digits := f.shortest m.units
    let body := if isPositional top m.units then digits.positional else digits.scientific
    String.ofList (if negative then '-' :: body else body)

def text (x : Double) : String := x.textIn .double 16

end Double

end StreamStat
