import StreamStat.Account.Class

/-!
# Scripts

The steps that a script is made of. Operands are literals, in which names refer to the
objects and values bound by earlier steps.
-/

namespace StreamStat

inductive Literal where
  | none
  | number (n : Number)
  | text (s : String)
  | list (items : List Literal)
  | array (cells : CellType) (content : Literal)
  | ref (name : String)

inductive ConverterLiteral where
  | named (c : Conversion)
  | tee (account : String)
  | value (v : Literal)

/-- What a distribution gives access to. -/
inductive Part where
  | domain
  | pdf
  | cdf
  deriving DecidableEq

inductive Capability where
  | orderedNumber
  | accumulator
  | distribution
  deriving DecidableEq

/-- The factories that a script can give to the register. -/
inductive Factory where
  | uniform
  | distribution
  | unit
  | notCallable
  deriving DecidableEq

inductive Step where
  | range (min max : Literal)
  | uniform (args : List Literal)
  | density (lower upper : Literal)
  | cumulative (lower upper : Literal)
  | part (p : Part) (of : String)
  | call (of : String) (x : Literal)
  | contains (of : String) (x : Literal)
  | member (x : Literal) (of : String)
  | create (c : AccountClass)
  | tally
  | map (of : String) (converter : ConverterLiteral)
  | adapt (adoptee : Literal) (converter : ConverterLiteral)
  | copy (of : String)
  | add (target : String) (x : Literal)
  | accumulate (values : Literal) (targets : List String)
  | iterate (values : Literal)
  | bind (x : Literal)
  | get (of : String) (field : String)
  | set (of : String) (field : String) (x : Literal)
  | str (of : String)
  | repr (of : String)
  | equal (a b : Literal)
  | unequal (a b : Literal)
  | same (a b : String)
  | distinct (of : List Literal)
  | satisfies (x : Literal) (c : Capability)
  | configure
  | registerObject
  | reset
  | resetSingleton
  | register (name : String) (f : Factory)
  | build (name : String) (args : List Literal)
  | names
  | version
  | exports

/-- A step, and the name its result is bound to if it succeeds. -/
structure Command where
  step : Step
  name : Option String

end StreamStat
