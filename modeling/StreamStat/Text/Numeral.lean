import StreamStat.Rounding
import StreamStat.Text.Blank
import StreamStat.Text.Digit

/-!
# Numerals

Reading integers, decimals with an exponent and fractions. Single underscores may
stand between digits; blanks around the numeral are skipped, inside it they are not.
-/

namespace StreamStat.Text

/-! ## Digits -/

/-- The digits at the front, and what follows them. -/
def digitRun : List Char → List Nat × List Char
  | [] => ([], [])
  | c :: rest =>
    match digit? c with
    | none => ([], c :: rest)
    | some d =>
      match rest with
      | '_' :: tail =>
        if (tail.head?.bind digit?).isSome then
          let (ds, after) := digitRun tail
          (d :: ds, after)
        else
          ([d], '_' :: tail)
      | rest =>
        let (ds, after) := digitRun rest
        (d :: ds, after)

def digitsValue (ds : List Nat) : Nat := ds.foldl (fun n d => 10 * n + d) 0

/-- A sign at the front, `true` for minus, and what follows it. -/
def sign : List Char → Bool × List Char
  | '-' :: rest => (true, rest)
  | '+' :: rest => (false, rest)
  | rest => (false, rest)

def signedValue (negative : Bool) (n : Nat) : Int := if negative then -(n : Int) else n

/-! ## Integers -/

/-- Whole numbers are read and written with at most this many digits. -/
def maxDigits : Nat := 4300

/-- The number that a row of digits stands for, unless the row is too long. -/
def wholeValue? (ds : List Nat) : Option Nat :=
  if ds.length ≤ maxDigits then some (digitsValue ds) else none

/-- An integer: a sign and at least one digit. -/
def integer? (s : String) : Option Int :=
  let (negative, body) := sign (trimmed isBlank s.toList)
  match digitRun body with
  | ([], _) => none
  | (ds, []) => (wholeValue? ds).map (signedValue negative)
  | (_, _ :: _) => none

/-! ## Decimals -/

structure Scientific where
  negative : Bool
  digits : Nat
  exponent : Int
  deriving DecidableEq

namespace Scientific

/-- The exponent part, zero if there is none. -/
def exponent? : List Char → Option Int
  | [] => some 0
  | c :: rest =>
    if c = 'e' || c = 'E' then
      let (negative, body) := sign rest
      match digitRun body with
      | ([], _) => none
      | (ds, []) => some (signedValue negative (digitsValue ds))
      | (_, _ :: _) => none
    else
      none

/-- Digits with or without a point, then an exponent; one digit at least stands before it. -/
def ofChars? (s : List Char) : Option Scientific :=
  let (negative, body) := sign s
  let (whole, rest) := digitRun body
  let (part, rest) := match rest with
    | '.' :: rest => digitRun rest
    | rest => ([], rest)
  if whole.isEmpty && part.isEmpty then none
  else (exponent? rest).map fun e => ⟨negative, digitsValue (whole ++ part), e - part.length⟩

def toRat (x : Scientific) : Rat :=
  let r : Rat := if 0 ≤ x.exponent then ((x.digits * 10 ^ x.exponent.toNat : Nat) : Rat)
    else mkRat x.digits (10 ^ (-x.exponent).toNat)
  if x.negative then -r else r

end Scientific

/-! ## Fractions -/

/-- What a text says a fraction is: a quotient as written, or a decimal. -/
inductive FractionNumeral where
  | quotient (num : Int) (den : Nat)
  | decimal (x : Scientific)

def quotient? (s : List Char) : Option (Int × Nat) :=
  let (negative, body) := sign s
  match digitRun body with
  | ([], _) => none
  | (num, '/' :: rest) =>
    match digitRun rest with
    | ([], _) => none
    | (den, []) => some (signedValue negative (digitsValue num), digitsValue den)
    | (_, _ :: _) => none
  | _ => none

/-- The length of the digits at the front of a text, and of its longest row of digits. -/
def rowLengths (s : List Char) : Nat × Nat :=
  s.foldr
    (fun c (current, longest) =>
      if c = '_' then (current, longest)
      else if (digit? c).isSome then (current + 1, max longest (current + 1))
      else (0, longest))
    (0, 0)

def fraction? (s : String) : Option FractionNumeral :=
  let body := trimmed (fun c => isBlank c || isSeparator c) s.toList
  if maxDigits < (rowLengths body).2 then none
  else
    match quotient? body with
    | some (num, den) => some (.quotient num den)
    | none => (Scientific.ofChars? body).map .decimal

end StreamStat.Text
