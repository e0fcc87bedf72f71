import StreamStat.Number.Cell

/-!
# Order of numbers

Numbers outside of arrays compare by their exact values; a decimal refuses to be put in
order with a NaN. A number that meets a cell of an array is first rounded to the type
in which the two meet, and the answer is a cell itself.
-/

namespace StreamStat.Number

def unordered (a b : Number) : Bool :=
  (a.isDecimal || b.isDecimal) && (a.isNaN || b.isNaN)

def isBound : Number → Bool
  | machineFraction _ _ _ => true
  | _ => false

/-- Compares numbers of which one is a fraction with a bound numerator. Decimals do not
know such fractions. -/
def compareBound (rel : Relation) (a b : Number) : Except Fault Bool :=
  if a.isDecimal || b.isDecimal then .error .wrongType
  else
    match a.quotient?, b.quotient? with
    | some p, some q => p.compare rel q
    | _, _ => .ok (related rel a b)

def comparePlain (rel : Relation) (a b : Number) : Except Fault Bool :=
  if a.isBound || b.isBound then compareBound rel a b
  else if rel.isOrder && unordered a b then .error .invalidOperation
  else .ok (related rel a b)

def compareCells (rel : Relation) (t : CellType) (a b : Number) : Except Fault Bool :=
  match t with
  | .object => comparePlain rel a.plain b.plain
  | .floating p => do
    let a ← a.toCell (.floating p)
    let b ← b.toCell (.floating p)
    return related rel a b
  | _ => .ok (related rel a b)

/-- Compares a fraction with a cell. A double is taken as a number of its own, and a
machine integer enters the products. -/
def compareFraction (rel : Relation) (a b : Number) : Except Fault Number :=
  match a.quotient?, b with
  | some q, machineInt w i => do
    let r : Quotient := ⟨⟨i, some w⟩, 1⟩
    match rel with
    | .eq => return if q.num.value = i then bool (q.den = 1) else machineBool false
    | .ne => return bool (← q.compare .ne r)
    | rel => return machineBool (← q.compare rel r)
  | _, machineFloat .double x => (comparePlain rel a (float x)).map bool
  | _, b => (comparePlain rel a b.plain).map machineBool

/-- Compares a decimal with a cell; machine integers are not taken. -/
def compareDecimal (rel : Relation) (a b : Number) : Except Fault Number :=
  match b with
  | machineInt _ _ => .error .wrongType
  | machineFloat .double x => (comparePlain rel a (float x)).map bool
  | b => (comparePlain rel a b.plain).map machineBool

/-- Compares two numbers of any kinds. The answer is a truth value, as a cell if a cell
has given it. -/
def compare (rel : Relation) (a b : Number) : Except Fault Number :=
  if a.isMachine then
    (compareCells rel ((CellType.ofNumber a).meet b) a b).map machineBool
  else if b.isMachine then
    match a with
    | fraction _ | machineFraction _ _ _ => compareFraction rel a b
    | decimal _ => compareDecimal rel a b
    | a => (compareCells rel ((CellType.ofNumber b).meet a) a b).map machineBool
  else
    (comparePlain rel a b).map bool

def le (a b : Number) : Except Fault Bool := (compare .le a b).map isTrue

end StreamStat.Number
