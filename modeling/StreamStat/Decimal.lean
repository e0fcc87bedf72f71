import StreamStat.Double.Basic
import StreamStat.Text.Numeral

/-!
# Decimal numbers

Decimals keep the digits and the exponent they are written with. Sums, differences
and changes of sign are exact and then fitted to 28 significant digits, a half
going to the even neighbour.
-/

namespace StreamStat

inductive Decimal where
  | nan (negative : Bool)
  | inf (negative : Bool)
  | finite (negative : Bool) (digits : Nat) (exponent : Int)
  deriving DecidableEq

namespace Decimal

def scale (negative : Bool) (digits : Nat) (exponent : Int) : Rat :=
  Text.Scientific.toRat ⟨negative, digits, exponent⟩

def toRat? : Decimal → Option Rat
  | finite negative digits exponent => some (scale negative digits exponent)
  | _ => none

/-- The nearest double; past the largest double it is infinite. -/
def toDouble : Decimal → Double
  | nan _ => .nan
  | inf negative => .inf negative
  | finite negative digits exponent =>
    .ofRatio negative (digits * 10 ^ exponent.toNat * Double.unitsPerOne) (10 ^ (-exponent).toNat)

def ofInt (i : Int) : Decimal := finite (i < 0) i.natAbs 0

/-! ## Arithmetic -/

def precision : Nat := 28

/-- Rounds to the precision; a carry out of the first digit moves the exponent. -/
def fitted (negative : Bool) (digits : Nat) (exponent : Int) : Decimal :=
  let size := (Nat.toDigits 10 digits).length
  if size ≤ precision then finite negative digits exponent
  else
    let cut := size - precision
    let q := divNearest digits (10 ^ cut)
    if q = 10 ^ precision then finite negative (10 ^ (precision - 1)) (exponent + cut + 1)
    else finite negative q (exponent + cut)

/-- The digits with the exponent lowered to `least`. -/
def lowered (negative : Bool) (digits : Nat) (exponent least : Int) : Int :=
  Text.signedValue negative (digits * 10 ^ (exponent - least).toNat)

/-- `none` for the sum of opposite infinities. -/
def add? : Decimal → Decimal → Option Decimal
  | nan a, _ => some (nan a)
  | _, nan b => some (nan b)
  | inf a, inf b => if a = b then some (inf a) else none
  | inf a, finite _ _ _ => some (inf a)
  | finite _ _ _, inf b => some (inf b)
  | finite a x e, finite b y f =>
    let least := min e f
    let sum := lowered a x e least + lowered b y f least
    some (fitted (if sum = 0 then a && b else sum < 0) sum.natAbs least)

/-- Changes the sign; a zero comes out positive. -/
def neg : Decimal → Decimal
  | nan a => nan a
  | inf a => inf !a
  | finite a x e => fitted (!a && x ≠ 0) x e

def abs : Decimal → Decimal
  | nan a => nan a
  | inf _ => inf false
  | finite _ x e => fitted false x e

/-- The other operand's sign is flipped as it stands, without rounding. -/
def sub? (x y : Decimal) : Option Decimal :=
  match y with
  | nan b => x.add? (nan b)
  | inf b => x.add? (inf !b)
  | finite b d e => x.add? (finite (!b) d e)

/-! ## Text -/

def read? (s : String) : Option Decimal :=
  let (negative, body) := Text.sign (Text.trimmed Text.isBlank s.toList)
  match String.ofList (body.map Char.toLower) with
  | "nan" => some (nan negative)
  | "inf" | "infinity" => some (inf negative)
  | _ =>
    match body with
    | '+' :: _ | '-' :: _ => none
    | _ => (Text.Scientific.ofChars? body).map fun x => finite negative x.digits x.exponent

/-- Written with its own digits and, outside of a narrow band, an exponent. -/
def text : Decimal → String
  | nan negative => if negative then "-NaN" else "NaN"
  | inf negative => if negative then "-Infinity" else "Infinity"
  | finite negative digits exponent =>
    let cs := Nat.toDigits 10 digits
    let size : Int := cs.length
    let left := exponent + size
    let plain := exponent ≤ 0 && -6 < left
    let point : Int := if plain then left else 1
    let body :=
      if point ≤ 0 then '0' :: '.' :: (List.replicate (-point).toNat '0' ++ cs)
      else if size ≤ point then cs ++ List.replicate (point - size).toNat '0'
      else cs.take point.toNat ++ '.' :: cs.drop point.toNat
    let e := left - point
    let tail := if e = 0 then [] else
      'E' :: (if e < 0 then '-' else '+') :: Nat.toDigits 10 e.natAbs
    String.ofList ((if negative then ['-'] else []) ++ body ++ tail)

end Decimal

end StreamStat
