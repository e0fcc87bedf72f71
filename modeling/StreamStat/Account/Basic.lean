import StreamStat.Converter
import StreamStat.Moments

/-!
# Accounts

An account takes samples one at a time, counts them, and keeps a statistic of them.
A view keeps none: it converts each sample and forwards it to the account it was made
of.
-/

namespace StreamStat

/-- The class of an account: its name, and the module that the plain counters show. -/
structure Title where
  name : String
  home : String
  deriving DecidableEq

inductive Body where
  | counter
  | recorder (tape : Nat)
  | min (least : Value)
  | max (greatest : Value)
  | minMax (least greatest : Value)
  | mean (mean : Double)
  | variance (moments : Moments Double)
  | view (adoptee : Value) (converter : Converter)

structure Account where
  title : Title
  samples : Nat
  body : Body
  /-- The mark of the mean that is kept. -/
  stamp : Nat
  notes : Notes

/-! ## Taking a sample -/

/-- The lesser of two samples; of equal ones the first. -/
def keepLess (o : ObjectView) (least v : Value) : Except Fault Value :=
  if least.isNone then .ok v
  else (v.lt o least).map fun less => if less then v else least

/-- The greater of two samples; of equal ones the first. -/
def keepGreater (o : ObjectView) (greatest v : Value) : Except Fault Value :=
  if greatest.isNone then .ok v
  else (greatest.lt o v).map fun less => if less then v else greatest

namespace Account

def count (a : Account) : Account := { a with samples := a.samples + 1 }

def keep (a : Account) (body : Body) : Account := { a with body := body }

/-- Folds a sample into the account's own statistic and counts it; if the sample is
refused, what the account has become by then. A mean that is computed gets the mark. -/
def receive (o : ObjectView) (mark : Nat) (a : Account) (v : Value) : Account × Option Fault :=
  match a.body with
  | .counter | .recorder _ | .view _ _ => (a.count, none)
  | .min least =>
    match keepLess o least v with
    | .error f => (a, some f)
    | .ok least => ((a.keep (.min least)).count, none)
  | .max greatest =>
    match keepGreater o greatest v with
    | .error f => (a, some f)
    | .ok greatest => ((a.keep (.max greatest)).count, none)
  | .minMax least greatest =>
    match keepLess o least v with
    | .error f => (a, some f)
    | .ok least =>
      let a := a.keep (.minMax least greatest)
      match keepGreater o greatest v with
      | .error f => (a, some f)
      | .ok greatest => ((a.keep (.minMax least greatest)).count, none)
  | .mean m =>
    match v.toDouble with
    | .error f => (a, some f)
    | .ok x => ({ a.count.keep (.mean (nextMean m (a.samples + 1) x)) with stamp := mark }, none)
  | .variance m =>
    match v.toDouble with
    | .error f => (a, some f)
    | .ok x => ({ a.count.keep (.variance (m.push (a.samples + 1) x)) with stamp := mark }, none)

/-! ## What an account tells -/

/-- The mean of the samples; while there are none, the NaN that stands for no mean. -/
def meanOf (samples : Nat) (mean : Double) (mark : Nat) : Value :=
  if samples = 0 then .constant (.float .nan) else .number (.float mean) mark

/-- The unbiased variance of the samples, computed when it is asked for; while there are
fewer than two, the NaN that stands for no variance. -/
def varianceOf (samples : Nat) (m : Moments Double) : Value :=
  if samples < 2 then .constant (.float .nan) else .ofNumber (.float (m.variance samples))

def statistics (a : Account) : List (String × Value) :=
  match a.body with
  | .min least => [("min", least)]
  | .max greatest => [("max", greatest)]
  | .minMax least greatest => [("min", least), ("max", greatest)]
  | .mean m => [("mean", meanOf a.samples m a.stamp)]
  | .variance m =>
    [("mean", meanOf a.samples m.mean a.stamp), ("variance", varianceOf a.samples m)]
  | .counter | .recorder _ | .view _ _ => []

/-- The fields that the class gives and nobody can assign. -/
def fields (a : Account) : List (String × Value) :=
  ("sample_count", .ofInt a.samples) :: a.statistics ++
    match a.body with
    | .view adoptee converter => [("adoptee", adoptee), ("converter", converter.object)]
    | _ => []

def field? (a : Account) (name : String) : Option Value :=
  (a.fields ++ a.notes).lookup name

/-- Assigns a field, unless it is one that the class gives. -/
def setField (a : Account) (name : String) (v : Value) : Except Fault Account :=
  match a.fields.lookup name with
  | some _ => .error .noAttribute
  | none => .ok { a with notes := a.notes.assign name v }

/-! ## Equality -/

/-- What comparing the statistics gives; a NaN is not even equal to itself. -/
def compareStatistics (o : ObjectView) (a b : Account) : Except Fault Value := do
  match a.body, b.body with
  | .min x, .min y | .max x, .max y => Value.compare o .eq x y
  | .minMax x y, .minMax z w => do
    let first ← Value.compare o .eq x z
    if ← first.truth then Value.compare o .eq y w else return first
  | .mean x, .mean y => return .ofBool (x.eq y)
  | .variance m, .variance n => return .ofBool (m.mean.eq n.mean && m.spread.eq n.spread)
  | .counter, .counter | .recorder _, .recorder _ | .view _ _, .view _ _ => return .ofBool true
  | _, _ => return .ofBool false

def compare (o : ObjectView) (a b : Account) : Except Fault Value :=
  if a.title = b.title && a.samples = b.samples then compareStatistics o a b
  else .ok (.ofBool false)

end Account

end StreamStat
