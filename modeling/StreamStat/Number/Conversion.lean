import StreamStat.Number.Quotient

/-!
# Conversions of numbers

To doubles, to integers and to fractions, from numbers and from texts.
-/

namespace StreamStat

namespace Double

/-- The nearest double to a decimal numeral. Numerals far outside the range of
doubles are decided by the place of their first digit. -/
def ofScientific (x : Text.Scientific) : Double :=
  let top := x.exponent + (Nat.toDigits 10 x.digits).length
  if x.digits = 0 || top < -330 then .ofRatio x.negative 0 1
  else if 310 ≤ top then .inf x.negative
  else Decimal.toDouble (.finite x.negative x.digits x.exponent)

/-- Reads a double; infinity and NaN may be written in any case. -/
def ofText? (s : String) : Option Double :=
  let body := Text.trimmed Text.isBlank s.toList
  let (negative, word) := Text.sign body
  match String.ofList (word.map Char.toLower) with
  | "nan" => some nan
  | "inf" | "infinity" => some (inf negative)
  | _ => (Text.Scientific.ofChars? body).map ofScientific

def bounded (x : Double) : Except Fault Double :=
  if x.isInf then .error .overflow else .ok x

def truncate : Double → Except Fault Int
  | nan => .error .badValue
  | inf _ => .error .overflow
  | finite negative m => .ok (Text.signedValue negative (m.units / unitsPerOne))

def toFraction : Double → Except Fault Rat
  | nan => .error .badValue
  | inf _ => .error .overflow
  | x => .ok (x.toRat?.getD 0)

end Double

namespace Decimal

def truncate (d : Decimal) : Except Fault Int :=
  match d with
  | nan _ => .error .badValue
  | inf _ => .error .overflow
  | finite negative digits exponent =>
    .ok (Text.signedValue negative (digits * 10 ^ exponent.toNat / 10 ^ (-exponent).toNat))

def toFraction (d : Decimal) : Except Fault Rat :=
  match d with
  | nan _ => .error .badValue
  | inf _ => .error .overflow
  | d => .ok (d.toRat?.getD 0)

end Decimal

namespace Number

/-- The nearest double. An integer or a fraction past the largest double is an overflow. -/
def toDouble : Number → Except Fault Double
  | bool b | machineBool b => .ok (.ofInt (boolInt b))
  | int i => (Double.ofInt i).bounded
  | machineInt _ i => .ok (.ofInt i)
  | float x | machineFloat _ x => .ok x
  | fraction r => (Double.ofRat r).bounded
  | machineFraction _ num den => (Double.ofRat (mkRat num den)).bounded
  | decimal d => .ok d.toDouble

def truncate : Number → Except Fault Int
  | bool b | machineBool b => .ok (boolInt b)
  | int i | machineInt _ i => .ok i
  | float x | machineFloat _ x => x.truncate
  | fraction r => .ok (Int.tdiv r.num r.den)
  | machineFraction w num den => Quotient.truncate ⟨⟨num, some w⟩, den⟩
  | decimal d => d.truncate

/-- The exact value of a number as a fraction. A machine integer becomes a bound
numerator; truth values and single precision numbers of arrays are not taken. -/
def toFraction : Number → Except Fault Number
  | bool b => .ok (fraction (boolInt b))
  | int i => .ok (fraction i)
  | machineInt w i => .ok (machineFraction w i 1)
  | float x | machineFloat .double x => x.toFraction.map fraction
  | machineBool _ | machineFloat .single _ => .error .wrongType
  | decimal d => d.toFraction.map fraction
  | n => .ok n

/-- The number outside of arrays that is the same number. -/
def plain : Number → Number
  | machineBool b => bool b
  | machineInt _ i => int i
  | machineFloat _ x => float x
  | n => n

end Number

end StreamStat
