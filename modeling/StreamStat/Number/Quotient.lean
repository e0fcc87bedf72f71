import StreamStat.Number.Basic

/-!
# Quotients with bound terms

A term is a whole number that may be bound to a machine width: it then wraps around,
and an unbound number that meets it has to fit. A quotient has a term over a
denominator that is never bound, and it is not reduced again once its numerator has
wrapped.
-/

namespace StreamStat

structure Term where
  value : Int
  width : Option IntWidth

namespace Term

def plain (i : Int) : Term := ⟨i, none⟩

/-- The width in which two terms meet; an unbound one has to fit. -/
def meet (a b : Term) : Except Fault (Option IntWidth) :=
  match a.width, b.width with
  | none, none => .ok none
  | some w, none => if w.fits b.value then .ok (some w) else .error .overflow
  | none, some w => if w.fits a.value then .ok (some w) else .error .overflow
  | some v, some w => .ok (some (v.max w))

def bound (width : Option IntWidth) (i : Int) : Term :=
  match width with
  | none => plain i
  | some w => ⟨w.wrap i, some w⟩

def combine (f : Int → Int → Int) (a b : Term) : Except Fault Term := do
  return bound (← a.meet b) (f a.value b.value)

def add : Term → Term → Except Fault Term := combine (· + ·)
def sub : Term → Term → Except Fault Term := combine (· - ·)
def mul : Term → Term → Except Fault Term := combine (· * ·)

def floorDiv : Term → Term → Except Fault Term := combine Int.fdiv

def neg (a : Term) : Term := bound a.width (-a.value)

end Term

structure Quotient where
  num : Term
  den : Nat

namespace Quotient

def ofRat (r : Rat) : Quotient := ⟨.plain r.num, r.den⟩

def toNumber (q : Quotient) : Number :=
  match q.num.width with
  | none => .fraction (mkRat q.num.value q.den)
  | some w => .machineFraction w q.num.value q.den

/-- A sum or difference, over the least common denominator. -/
def combine (f : Term → Term → Except Fault Term) (a b : Quotient) : Except Fault Quotient := do
  let g := Nat.gcd a.den b.den
  let s := a.den / g
  let left ← a.num.mul (.plain (b.den / g : Nat))
  let right ← b.num.mul (.plain s)
  let t ← f left right
  let h := Nat.gcd t.value.natAbs g
  if h = 1 then return ⟨t, s * b.den⟩
  return ⟨← t.floorDiv (.plain h), s * (b.den / h)⟩

/-- Quotients are put in order by the products across. -/
def compare (rel : Relation) (a b : Quotient) : Except Fault Bool :=
  match rel with
  | .eq => .ok (a.num.value = b.num.value && a.den = b.den)
  | .ne => .ok (!(a.num.value = b.num.value && a.den = b.den))
  | rel => do
    let left ← a.num.mul (.plain b.den)
    let right ← (Term.plain a.den).mul b.num
    return rel.ofInt left.value right.value

def toRat (q : Quotient) : Rat := mkRat q.num.value q.den

def truncate (q : Quotient) : Except Fault Int :=
  if q.num.value < 0 then do
    return (← q.num.neg.floorDiv (.plain q.den)).neg.value
  else do
    return (← q.num.floorDiv (.plain q.den)).value

end Quotient

/-- A rational number as a quotient, its numerator bound if it is. -/
def Number.quotient? : Number → Option Quotient
  | .bool b => some ⟨.plain (boolInt b), 1⟩
  | .int i => some ⟨.plain i, 1⟩
  | .fraction r => some (.ofRat r)
  | .machineInt w i => some ⟨⟨i, some w⟩, 1⟩
  | .machineFraction w num den => some ⟨⟨num, some w⟩, den⟩
  | .float x => x.toRat?.map .ofRat
  | _ => none

end StreamStat
