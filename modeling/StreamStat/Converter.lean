import StreamStat.Uniform.Distribution

/-!
# Conversions and converters

A conversion turns a sample into another value or refuses it. A converter is what a
view is made with, a small program that may feed other accounts on the way.
-/

namespace StreamStat

inductive Conversion where
  | float
  | int
  | str
  | len
  | abs
  | fraction
  | double
  | neg
  | id
  | none
  | fail
  deriving DecidableEq

namespace Value

/-- A value as a whole number; an integer stays the occurrence that it is. -/
def truncated : Value → Except Fault Value
  | number (.int i) mark => .ok (.number (.int i) mark)
  | number n _ => n.truncate.map ofInt
  | text s _ => (readInteger s).map ofInt
  | array ⟨_, [], [n]⟩ _ => n.truncate.map ofInt
  | _ => .error .wrongType

def length : Value → Except Fault Nat
  | text s _ => .ok s.length
  | list items _ => .ok items.length
  | array ⟨_, n :: _, _⟩ _ => .ok n
  | _ => .error .wrongType

/-- The opposite of a number, or of every cell of an array. -/
def neg : Value → Except Fault Value
  | number n _ => n.neg.map ofNumber
  | array g _ => g.neg.map ofGrid
  | _ => .error .wrongType

/-- The magnitude of a number, or of every cell of an array; an integer that is not
negative stays the occurrence that it is. -/
def abs : Value → Except Fault Value
  | number (.int i) mark => .ok (if 0 ≤ i then .number (.int i) mark else ofInt i.natAbs)
  | number n _ => n.abs.map ofNumber
  | array g _ => g.abs.map ofGrid
  | _ => .error .wrongType

def readFraction (s : String) : Except Fault Rat :=
  match Text.fraction? s with
  | some (.quotient num den) => if den = 0 then .error .divisionByZero else .ok (mkRat num den)
  | some (.decimal x) => .ok x.toRat
  | .none => .error .badValue

def toFraction : Value → Except Fault Value
  | number n _ => n.toFraction.map ofNumber
  | text s _ => (readFraction s).map fun r => ofNumber (.fraction r)
  | _ => .error .wrongType

/-- The text of a value; a text stays the occurrence that it is. -/
def toText (o : ObjectView) : Value → Except Fault Value
  | text s mark => .ok (.text s mark)
  | v => (v.plainText o).map ofText

end Value

namespace Conversion

def shown : Conversion → String
  | float => "<class 'float'>"
  | int => "<class 'int'>"
  | str => "<class 'str'>"
  | len => "<built-in function len>"
  | abs => "<built-in function abs>"
  | fraction => "<class 'fractions.Fraction'>"
  | double => "<conv double>"
  | neg => "<conv neg>"
  | id => "<conv id>"
  | none => "<conv none>"
  | fail => "<conv fail>"

def teeShown : String := "<conv tee>"

/-- Whether a conversion stands for a kind of numbers, which can be put in order. -/
def isNumeric : Conversion → Bool
  | float | int | fraction => true
  | _ => false

/-- What a conversion makes of a value; `o` tells how objects look. -/
def apply (c : Conversion) (o : ObjectView) (v : Value) : Except Fault Value :=
  match c with
  | float => v.toFloat
  | int => v.truncated
  | str => v.toText o
  | len => v.length.map fun n => .ofInt n
  | abs => v.abs
  | fraction => v.toFraction
  | double => v.toDouble.map fun x => .ofNumber (.float (x * 2))
  | neg => v.neg
  | id => .ok v
  | none => .ok .none
  | fail => .error .badValue

end Conversion

/-! ## Converters -/

/-- What a converter does with its argument. It may look at objects, and it may give any
sample to any target; it goes on by what it sees, and by what becomes of the sample. -/
inductive Program where
  | finish (result : Except Fault Value)
  | look (next : ObjectView → Program)
  /-- What comes next is told the occurrence that the target was given, and the fault of the
  call if it failed. -/
  | feed (target sample : Value) (next : Value → Option Fault → Program)

structure Converter where
  shown : ObjectView → Except Fault String
  object : Value
  /-- Whether the converter stands for a kind of numbers. -/
  isNumeric : Bool
  program : Value → Program

namespace Converter

/-- Makes of its argument what a function does, and nothing else. -/
def ofFunction (shown : ObjectView → Except Fault String) (object : Value) (isNumeric : Bool)
    (f : ObjectView → Value → Except Fault Value) : Converter where
  shown := shown
  object := object
  isNumeric := isNumeric
  program v := .look fun o => .finish (f o v)

def ofConversion (object : Value) (c : Conversion) : Converter :=
  ofFunction (fun _ => .ok c.shown) object c.isNumeric c.apply

/-- Gives its argument to a target and returns it unchanged. -/
def tee (object target : Value) : Converter where
  shown _ := .ok Conversion.teeShown
  object := object
  isNumeric := false
  program v := .feed target v fun v fault => .finish (fault.elim (.ok v) .error)

def ofDensity (object : Value) (p : Density Value) : Converter :=
  ofFunction p.written object false fun _ v => p.apply v

def ofCumulative (object : Value) (c : Cumulative Value) : Converter :=
  ofFunction c.written object false fun _ v => c.apply v

end Converter

end StreamStat
