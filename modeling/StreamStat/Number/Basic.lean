import StreamStat.Decimal
import StreamStat.Fault

/-!
# Numbers

The kinds of numbers that bounds, points and samples may be, and their exact values.
Machine numbers are what the cells of arrays hold: truth values, integers of fixed
width and floating numbers of either precision. A fraction that is made of a machine
integer keeps its numerator bound to the width.
-/

namespace StreamStat

inductive IntWidth where
  | bits32
  | bits64
  deriving DecidableEq

inductive Precision where
  | single
  | double
  deriving DecidableEq

inductive Number where
  | bool (b : Bool)
  | int (i : Int)
  | float (x : Double)
  | fraction (r : Rat)
  | decimal (d : Decimal)
  | machineBool (b : Bool)
  | machineInt (width : IntWidth) (i : Int)
  | machineFloat (precision : Precision) (x : Double)
  | machineFraction (width : IntWidth) (num : Int) (den : Nat)
  deriving DecidableEq

/-! ## Exact values -/

inductive Extended where
  | negInf
  | finite (r : Rat)
  | posInf
  deriving DecidableEq

namespace Extended

def lt : Extended → Extended → Bool
  | negInf, negInf => false
  | negInf, _ => true
  | finite x, finite y => x < y
  | finite _, posInf => true
  | _, _ => false

def le (x y : Extended) : Bool := !lt y x

end Extended

def Double.extended? : Double → Option Extended
  | .nan => none
  | .inf negative => some (if negative then .negInf else .posInf)
  | x => x.toRat?.map .finite

def Decimal.extended? : Decimal → Option Extended
  | .nan _ => none
  | .inf negative => some (if negative then .negInf else .posInf)
  | d => d.toRat?.map .finite

def boolInt (b : Bool) : Int := if b then 1 else 0

namespace Number

/-- The exact value of a number; a NaN has none. -/
def extended? : Number → Option Extended
  | bool b | machineBool b => some (.finite (boolInt b))
  | int i | machineInt _ i => some (.finite i)
  | float x | machineFloat _ x => x.extended?
  | fraction r => some (.finite r)
  | decimal d => d.extended?
  | machineFraction _ num den => some (.finite (mkRat num den))

def isNaN (n : Number) : Bool := n.extended?.isNone

def isDecimal : Number → Bool
  | decimal _ => true
  | _ => false

/-- Whether a number is the cell of an array. -/
def isMachine : Number → Bool
  | machineBool _ | machineInt _ _ | machineFloat _ _ => true
  | _ => false

/-- Whether there is one occurrence only of a number of this kind and value. -/
def isShared : Number → Bool
  | bool _ | machineBool _ => true
  | int i => -5 ≤ i && i ≤ 256
  | _ => false

/-- Whether a number counts as true; a NaN does. -/
def isTrue (n : Number) : Bool := n.extended? ≠ some (.finite 0)

end Number

/-! ## Relations -/

/-- How two things can be compared. -/
inductive Relation where
  | eq
  | ne
  | lt
  | le
  deriving DecidableEq

namespace Relation

/-- Whether a relation puts things in order. -/
def isOrder : Relation → Bool
  | lt | le => true
  | eq | ne => false

def ofExtended : Relation → Extended → Extended → Bool
  | eq, x, y => x = y
  | ne, x, y => x ≠ y
  | lt, x, y => x.lt y
  | le, x, y => x.le y

def ofInt : Relation → Int → Int → Bool
  | eq, i, j => i = j
  | ne, i, j => i ≠ j
  | lt, i, j => i < j
  | le, i, j => i ≤ j

end Relation

namespace Number

/-- Compares two numbers by their exact values. A NaN differs from everything. -/
def related (rel : Relation) (a b : Number) : Bool :=
  match a.extended?, b.extended? with
  | some x, some y => rel.ofExtended x y
  | _, _ => rel = .ne

/-- Equality of exact values. -/
def eq (a b : Number) : Bool := related .eq a b

end Number

/-! ## Integers of fixed width -/

namespace IntWidth

def bits : IntWidth → Nat
  | bits32 => 32
  | bits64 => 64

/-- The integer of this width that is equal modulo the power of two. -/
def wrap (w : IntWidth) (i : Int) : Int := i.bmod (2 ^ w.bits)

def fits (w : IntWidth) (i : Int) : Bool := w.wrap i = i

def max : IntWidth → IntWidth → IntWidth
  | bits32, bits32 => bits32
  | _, _ => bits64

end IntWidth

namespace Precision

/-- Rounds a double to a precision. -/
def round : Precision → Double → Double
  | single, x => x.toSingle
  | double, x => x

def max : Precision → Precision → Precision
  | single, single => single
  | _, _ => double

end Precision

end StreamStat
