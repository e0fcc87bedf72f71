import StreamStat.Account.Class
import StreamStat.Account.Tally

/-!
# The store of objects

All objects live in one store and are referred to by handle, so that several views can
share an account. An object is listed once, so that equal handles mean the same object.
Recorders write to tapes, which copies of a recorder share.
-/

namespace StreamStat

inductive Object where
  | range (r : Range)
  | density (p : Density Value)
  | cumulative (c : Cumulative Value)
  /-- A distribution with the handles of its domain, density and cumulative function. -/
  | distribution (d : UniformDistribution) (domain pdf cdf : Nat)
  | account (a : Account)
  | tally (t : Tally)
  | conversion (c : Conversion)
  /-- A converter that gives its argument to a target and returns it. -/
  | tee (target : Value)
  /-- The ledger of factories with this serial number. -/
  | register (serial : Nat) (notes : Notes)
  /-- A pass through what a value holds, of which so many items have been taken. -/
  | stream (source : Value) (taken : Nat)

structure Store where
  objects : List Object
  tapes : List (List Value)
  /-- The next mark that is free. -/
  marks : Nat
  /-- The lists and arrays that have been changed in place, by mark. -/
  changes : List (Nat × Value)

namespace Store

def empty : Store := ⟨[], [], Value.constantMark + 1, []⟩

instance : Inhabited Store := ⟨empty⟩

/-! ## Objects -/

def object? (s : Store) (handle : Nat) : Option Object := s.objects[handle]?

def objectOf? (s : Store) : Value → Option Object
  | .handle h => s.object? h
  | _ => none

def account? (s : Store) (handle : Nat) : Option Account :=
  match s.object? handle with
  | some (.account a) => some a
  | _ => none

def tally? (s : Store) (handle : Nat) : Option Tally :=
  match s.object? handle with
  | some (.tally t) => some t
  | _ => none

def put (s : Store) (handle : Nat) (o : Object) : Store :=
  { s with objects := s.objects.set handle o }

def next (s : Store) : Nat := s.objects.length

def push (s : Store) (o : Object) : Store := { s with objects := s.objects ++ [o] }

/-- The converter that a value is, if it can be called. -/
def converter? (s : Store) (v : Value) : Option Converter :=
  match s.objectOf? v with
  | some (.density p) => some (.ofDensity v p)
  | some (.cumulative c) => some (.ofCumulative v c)
  | some (.conversion c) => some (.ofConversion v c)
  | some (.tee target) => some (.tee v target)
  | _ => none

def takesSamples (s : Store) (v : Value) : Bool :=
  match s.objectOf? v with
  | some (.account _) | some (.tally _) => true
  | _ => false

/-! ## Accounts -/

def create (s : Store) (c : AccountClass) : Store :=
  let s' := s.push (.account (.opened c s.tapes.length))
  match c with
  | .recorder => { s' with tapes := s.tapes ++ [[]] }
  | _ => s'

def adapt (s : Store) (adoptee : Value) (converter : Converter) : Store :=
  s.push (.account (.view adoptee converter))

/-- Duplicates an account with its statistic and its count. A view keeps its adoptee, a
recorder its tape. -/
def copy (s : Store) (handle : Nat) : Except Fault Store :=
  match s.account? handle with
  | some a => .ok (s.push (.account a))
  | none => .error .noAttribute

/-! ## Tapes -/

def tape (s : Store) (tape : Nat) : List Value := s.tapes[tape]?.getD []

def record (s : Store) (tape : Nat) (v : Value) : Store :=
  { s with tapes := s.tapes.modify tape fun vs => vs ++ [v] }

/-! ## Marks -/

/-- Reserves a number of marks; they start at the mark that was free before. -/
def reserve (s : Store) (count : Nat) : Store := { s with marks := s.marks + count }

def stamp (s : Store) (v : Value) : Value × Store := (v.stamp s.marks, s.reserve 1)

def stampAll (s : Store) (vs : List Value) : List Value × Store :=
  (vs.zipIdx.map fun (v, i) => v.stamp (s.marks + i), s.reserve vs.length)

end Store

/-! ## Changes in place -/

section
variable (mark : Nat) (new : Value)

def UniformDistribution.amend (d : UniformDistribution) : UniformDistribution where
  domain := d.domain.amend mark new
  pdf := d.pdf.map (Value.amend mark new)
  cdf := d.cdf.map (Value.amend mark new)

def Body.amend (b : Body) : Body :=
  match b with
  | .min least => .min (Value.amend mark new least)
  | .max greatest => .max (Value.amend mark new greatest)
  | .minMax least greatest => .minMax (Value.amend mark new least) (Value.amend mark new greatest)
  | .view adoptee converter => .view (Value.amend mark new adoptee) converter
  | b => b

def Notes.amend (notes : Notes) : Notes :=
  notes.map fun (k, v) => (k, Value.amend mark new v)

def Object.amend (o : Object) : Object :=
  match o with
  | .range r => .range (r.amend mark new)
  | .density p => .density (p.map (Value.amend mark new))
  | .cumulative c => .cumulative (c.map (Value.amend mark new))
  | .distribution d domain pdf cdf => .distribution (d.amend mark new) domain pdf cdf
  | .account a =>
    .account { a with body := a.body.amend mark new, notes := a.notes.amend mark new }
  | .tally t =>
    .tally ⟨Value.amend mark new t.sum, Value.amend mark new t.count, t.notes.amend mark new⟩
  | .register serial notes => .register serial (notes.amend mark new)
  | .stream source taken => .stream (Value.amend mark new source) taken
  | o => o

def Store.amend (s : Store) : Store :=
  { s with
    objects := s.objects.map (Object.amend mark new)
    tapes := s.tapes.map fun vs => vs.map (Value.amend mark new)
    changes := s.changes ++ [(mark, new)] }

end

namespace Value

/-- The mark of a value, zero if it has none. -/
def mark : Value → Nat
  | number _ m | text _ m | list _ m | array _ m => m
  | none | handle _ => 0

def amendBy (changes : List (Nat × Value)) (v : Value) : Value :=
  changes.foldl (fun v (mark, new) => amend mark new v) v

end Value

end StreamStat
