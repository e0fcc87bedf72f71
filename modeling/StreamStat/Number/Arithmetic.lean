import StreamStat.Number.Order

/-!
# Mixed arithmetic

Sums, differences and quotients of numbers of any two kinds. Integers and fractions
stay exact among themselves, meet doubles as doubles, and decimals take integers only.
A cell of an array keeps its type where the other operand allows it; with a fraction
or a decimal it is taken as a number outside of arrays.
-/

namespace StreamStat

structure NumberOperation where
  ints : Int → Int → Except Fault Number
  doubles : Double → Double → Except Fault Double
  quotients : Quotient → Quotient → Except Fault Quotient
  decimals : Decimal → Decimal → Except Fault Decimal
  /-- How truth values of arrays are combined, if they are at all. -/
  truths : Bool → Bool → Except Fault Number
  /-- How integer cells are combined, if the result is an integer again. -/
  wholeCells : Option (Int → Int → Int)
  /-- How floating cells are combined; nothing is refused there. -/
  cells : Double → Double → Double

namespace NumberOperation

def valid (d : Option Decimal) : Except Fault Decimal :=
  match d with
  | some d => .ok d
  | none => .error .invalidOperation

/-- Truth values add up to their disjunction. -/
def addition : NumberOperation where
  ints i j := .ok (.int (i + j))
  doubles x y := .ok (x + y)
  quotients := Quotient.combine Term.add
  decimals d e := valid (d.add? e)
  truths a b := .ok (.machineBool (a || b))
  wholeCells := some (· + ·)
  cells x y := x + y

def subtraction : NumberOperation where
  ints i j := .ok (.int (i - j))
  doubles x y := .ok (x - y)
  quotients := Quotient.combine Term.sub
  decimals d e := valid (d.sub? e)
  truths _ _ := .error .wrongType
  wholeCells := some (· - ·)
  cells x y := x - y

/-- Quotients of decimals are not taken. -/
def division : NumberOperation where
  ints i j :=
    if j = 0 then .error .divisionByZero
    else (Double.ofRat (mkRat i 1 / mkRat j 1)).bounded.map .float
  doubles x y := if y.eq 0 then .error .divisionByZero else .ok (x / y)
  quotients p q :=
    if q.num.value = 0 then .error .divisionByZero else .ok (.ofRat (p.toRat / q.toRat))
  decimals _ _ := .error .wrongType
  truths a b := .ok (.machineFloat .double (.ofInt (boolInt a) / .ofInt (boolInt b)))
  wholeCells := none
  cells x y := x / y

end NumberOperation

namespace Number

/-- A number as a decimal, where the two kinds mix. -/
def toDecimal : Number → Except Fault Decimal
  | bool b => .ok (.ofInt (boolInt b))
  | int i => .ok (.ofInt i)
  | decimal d => .ok d
  | _ => .error .wrongType

/-- An operation on two numbers outside of arrays. -/
def combinePlain (op : NumberOperation) (a b : Number) : Except Fault Number :=
  match a, b with
  | decimal _, _ | _, decimal _ => do
    let d ← a.toDecimal
    let e ← b.toDecimal
    return decimal (← op.decimals d e)
  | float _, _ | _, float _ => do
    let x ← a.toDouble
    let y ← b.toDouble
    return float (← op.doubles x y)
  | fraction _, _ | _, fraction _ | machineFraction _ _ _, _ | _, machineFraction _ _ _ =>
    match a.quotient?, b.quotient? with
    | some p, some q => (op.quotients p q).map Quotient.toNumber
    | _, _ => .error .wrongType
  | _, _ => do
    let i ← a.truncate
    let j ← b.truncate
    op.ints i j

def combineCells (op : NumberOperation) (t : CellType) (a b : Number) : Except Fault Number :=
  match t with
  | .bool => op.truths a.isTrue b.isTrue
  | .whole w =>
    match op.wholeCells with
    | some f => do
      let i ← a.truncate
      let j ← b.truncate
      if w.fits i && w.fits j then return machineInt w (w.wrap (f i j)) else throw .overflow
    | none => do
      let x ← a.toDouble
      let y ← b.toDouble
      return machineFloat .double (op.cells x y)
  | .floating p => do
    let x ← a.toDouble
    let y ← b.toDouble
    return machineFloat p (p.round (op.cells (p.round x) (p.round y)))
  | .object => combinePlain op a.plain b.plain

/-- An operation on two numbers of any kinds. A fraction takes a double of an array as
the double that it is. -/
def combine (op : NumberOperation) (a b : Number) : Except Fault Number :=
  if a.isMachine then
    combineCells op ((CellType.ofNumber a).meet b) a b
  else if b.isMachine then
    match a, b with
    | fraction _, machineFloat .double _ | machineFraction _ _ _, machineFloat .double _ => do
      combineCells op (.floating .double) (float (← a.toDouble)) b
    | a, b => combineCells op ((CellType.ofNumber b).meet a) a b
  else
    combinePlain op a b

def sub (a b : Number) : Except Fault Number := combine .subtraction a b
def div (a b : Number) : Except Fault Number := combine .division a b

/-! ## Change of sign -/

/-- The opposite number; truth values of arrays have none. -/
def neg : Number → Except Fault Number
  | bool b => .ok (int (-boolInt b))
  | int i => .ok (int (-i))
  | float x => .ok (float (-x))
  | fraction r => .ok (fraction (-r))
  | decimal d => .ok (decimal d.neg)
  | machineBool _ => .error .wrongType
  | machineInt w i => .ok (machineInt w (w.wrap (-i)))
  | machineFloat p x => .ok (machineFloat p (-x))
  | machineFraction w num den => .ok (machineFraction w (w.wrap (-num)) den)

def abs : Number → Except Fault Number
  | bool b => .ok (int (boolInt b))
  | int i => .ok (int i.natAbs)
  | float x => .ok (float x.abs)
  | fraction r => .ok (fraction (if r < 0 then -r else r))
  | decimal d => .ok (decimal d.abs)
  | machineBool b => .ok (machineBool b)
  | machineInt w i => .ok (machineInt w (w.wrap i.natAbs))
  | machineFloat p x => .ok (machineFloat p x.abs)
  | machineFraction w num den => .ok (machineFraction w (w.wrap num.natAbs) den)

end Number

end StreamStat
