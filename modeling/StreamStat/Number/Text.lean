import StreamStat.Double.Shortest
import StreamStat.Number.Basic
import StreamStat.Text.Numeral

/-!
# Texts of numbers

Every number has a plain text, a text for use inside of sentences, and a written form
that also tells its kind. A whole number that is too long has none of them.
-/

namespace StreamStat

def IntWidth.name : IntWidth → String
  | .bits32 => "int32"
  | .bits64 => "int64"

namespace Precision

def name : Precision → String
  | single => "float32"
  | double => "float64"

def format : Precision → BinaryFormat
  | single => .single
  | double => .double

/-- From this power of ten on, a number of an array is written with an exponent. -/
def topExponent : Precision → Nat
  | single => 6
  | double => 16

end Precision

def intText (i : Int) : String :=
  String.ofList ((if i < 0 then ['-'] else []) ++ Nat.toDigits 10 i.natAbs)

/-- The digits of a whole number, unless there are too many. -/
def wholeText (i : Int) : Except Fault String :=
  if i.natAbs < 10 ^ Text.maxDigits then .ok (intText i) else .error .badValue

def truthText (b : Bool) : String := if b then "True" else "False"

namespace Number

/-- A quotient, whole numbers without the bar. -/
def quotientText (num : Int) (den : Nat) : Except Fault String := do
  if den = 1 then wholeText num
  else return (← wholeText num) ++ "/" ++ (← wholeText den)

def cellText (p : Precision) (x : Double) : String := x.textIn p.format p.topExponent

def text : Number → Except Fault String
  | bool b | machineBool b => .ok (truthText b)
  | int i | machineInt _ i => wholeText i
  | float x => .ok x.text
  | fraction r => quotientText r.num r.den
  | machineFraction _ num den => quotientText num den
  | decimal d => .ok d.text
  | machineFloat p x => .ok (cellText p x)

/-- The text inside of a sentence, where a single precision number shows as a double. -/
def inlineText : Number → Except Fault String
  | machineFloat _ x => .ok x.text
  | n => n.text

def fractionWritten (num : Int) (den : Nat) : Except Fault String := do
  return "Fraction(" ++ (← wholeText num) ++ ", " ++ (← wholeText den) ++ ")"

def written : Number → Except Fault String
  | fraction r => fractionWritten r.num r.den
  | machineFraction _ num den => fractionWritten num den
  | decimal d => .ok ("Decimal('" ++ d.text ++ "')")
  | machineBool b => .ok ("np." ++ truthText b ++ "_")
  | machineInt w i => .ok ("np." ++ w.name ++ "(" ++ intText i ++ ")")
  | machineFloat p x => .ok ("np." ++ p.name ++ "(" ++ cellText p x ++ ")")
  | n => n.text

end Number

end StreamStat
