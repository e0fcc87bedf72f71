import StreamStat.Rounding

/-!
# Double precision numbers

A finite double is a sign and a magnitude on the double grid, counted in units of
`2 ^ -1074`; zero carries a sign. Every operation is the exact result, rounded
once by `Double.ofRatio`.
-/

namespace StreamStat

/-- A magnitude that double precision holds, in units of `2 ^ -1074`. -/
structure Magnitude where
  units : Nat
  holds : BinaryFormat.double.Holds units
  deriving DecidableEq

inductive Double where
  | nan
  | inf (negative : Bool)
  | finite (negative : Bool) (magnitude : Magnitude)
  deriving DecidableEq

namespace Double

def unitsPerOne : Nat := 2 ^ (1074 : Nat)

/-! ## From exact numbers -/

/-- The double nearest to `num / den` units; past the largest double it is infinite. -/
def ofRatio (negative : Bool) (num den : Nat) : Double :=
  if h : BinaryFormat.double.round num den < 2 ^ BinaryFormat.double.ceiling then
    .finite negative ⟨_, BinaryFormat.holds_round (by decide) h⟩
  else
    .inf negative

def zero : Double := ofRatio false 0 1

def ofInt (i : Int) : Double := ofRatio (i < 0) (i.natAbs * unitsPerOne) 1

def ofNat (n : Nat) : Double := ofRatio false (n * unitsPerOne) 1

def ofRat (r : Rat) : Double := ofRatio (r < 0) (r.num.natAbs * unitsPerOne) r.den

instance : Inhabited Double := ⟨zero⟩
instance : NatCast Double := ⟨ofNat⟩
instance (n : Nat) : OfNat Double n := ⟨ofNat n⟩

/-! ## To exact numbers -/

def isNaN : Double → Bool
  | nan => true
  | _ => false

def isInf : Double → Bool
  | inf _ => true
  | _ => false

def isFinite : Double → Bool
  | finite _ _ => true
  | _ => false

def toRat? : Double → Option Rat
  | finite negative m =>
    let r := mkRat m.units unitsPerOne
    some (if negative then -r else r)
  | _ => none

def signed (negative : Bool) (m : Magnitude) : Int :=
  if negative then -(m.units : Int) else m.units

/-! ## Order

Comparisons are exact; a NaN compares false with everything, itself included. -/

def lt : Double → Double → Bool
  | nan, _ | _, nan => false
  | inf a, inf b => a && !b
  | inf a, finite _ _ => a
  | finite _ _, inf b => !b
  | finite a x, finite b y => signed a x < signed b y

def le : Double → Double → Bool
  | nan, _ | _, nan => false
  | inf a, inf b => a || !b
  | inf a, finite _ _ => a
  | finite _ _, inf b => !b
  | finite a x, finite b y => signed a x ≤ signed b y

/-- Numerical equality: the two zeros are equal, a NaN is equal to nothing. -/
def eq (x y : Double) : Bool := le x y && le y x

instance : LT Double := ⟨fun x y => lt x y⟩
instance : LE Double := ⟨fun x y => le x y⟩
instance : DecidableLT Double := fun x y => inferInstanceAs (Decidable (lt x y = true))
instance : DecidableLE Double := fun x y => inferInstanceAs (Decidable (le x y = true))

/-! ## Arithmetic

Overflow goes to infinity; an operation without a value gives NaN. -/

def neg : Double → Double
  | nan => nan
  | inf a => inf !a
  | finite a x => finite (!a) x

def abs : Double → Double
  | nan => nan
  | inf _ => inf false
  | finite _ x => finite false x

/-- An exact zero sum is negative only if both operands are. -/
def add : Double → Double → Double
  | nan, _ | _, nan => nan
  | inf a, inf b => if a = b then inf a else nan
  | inf a, finite _ _ => inf a
  | finite _ _, inf b => inf b
  | finite a x, finite b y =>
    let sum := signed a x + signed b y
    ofRatio (if sum = 0 then a && b else sum < 0) sum.natAbs 1

def sub (x y : Double) : Double := add x y.neg

def mul : Double → Double → Double
  | nan, _ | _, nan => nan
  | inf a, inf b => inf (a != b)
  | inf a, finite b y => if y.units = 0 then nan else inf (a != b)
  | finite a x, inf b => if x.units = 0 then nan else inf (a != b)
  | finite a x, finite b y => ofRatio (a != b) (x.units * y.units) unitsPerOne

def div : Double → Double → Double
  | nan, _ | _, nan => nan
  | inf _, inf _ => nan
  | inf a, finite b _ => inf (a != b)
  | finite a _, inf b => ofRatio (a != b) 0 1
  | finite a x, finite b y =>
    if y.units = 0 then
      if x.units = 0 then nan else inf (a != b)
    else
      ofRatio (a != b) (x.units * unitsPerOne) y.units

instance : Neg Double := ⟨neg⟩
instance : Add Double := ⟨add⟩
instance : Sub Double := ⟨sub⟩
instance : Mul Double := ⟨mul⟩
instance : Div Double := ⟨div⟩

/-! ## Single precision

A single is kept as the double of the same value. -/

/-- The single precision number nearest to a double. -/
def toSingle : Double → Double
  | nan => nan
  | inf a => inf a
  | finite a x =>
    let q := BinaryFormat.single.round x.units 1
    if q < 2 ^ BinaryFormat.single.ceiling then ofRatio a q 1 else inf a

end Double

end StreamStat
