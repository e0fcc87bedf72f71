import StreamStat.Store.Basic

/-!
# How the objects of a store look

Every object has a plain text and a written form, and two objects compare by what they
hold at the time; a converter, a tally or a stream equals only itself. No object nests
deeper than the store has objects.
-/

namespace StreamStat

def bracketed (head : String) (fields : List (String × String)) : String :=
  head ++ "[" ++ ", ".intercalate (fields.map fun (k, v) => k ++ "=" ++ v) ++ "]"

/-! ## Accounts -/

namespace Account

/-- An account shows its class, its count and its statistics; a view shows its adoptee
and its converter instead. -/
def written (o : ObjectView) (a : Account) : Except Fault String := do
  let samples := ("samples", intText a.samples)
  match a.body with
  | .counter | .recorder _ => return bracketed (a.title.home ++ "." ++ a.title.name) [samples]
  | .view adoptee converter =>
    let adoptee ← adoptee.written o
    return bracketed a.title.name [("a", adoptee), ("c", ← converter.shown o)]
  | _ =>
    let statistics ← a.statistics.mapM fun (k, v) => return (k, ← v.inlineText o)
    return bracketed a.title.name (samples :: statistics)

/-- The extremes that an account keeps; they have to fit into a set with it. -/
def extremes (a : Account) : List Value :=
  match a.body with
  | .min v | .max v => [v]
  | .minMax v w => [v, w]
  | _ => []

end Account

namespace Object

/-! ## Texts -/

def registerText : String := "<evostat.distributions.registry.DistributionRegister object>"

def tallyText : String := "<harness." ++ Tally.title ++ " object>"

def streamText : String := "<iterator object>"

def written (o : ObjectView) : Object → Except Fault String
  | range r => r.written o
  | density p => p.written o
  | cumulative c => c.written o
  | distribution d _ _ _ => d.written o
  | account a => a.written o
  | tally _ => .ok tallyText
  | conversion c => .ok c.shown
  | tee _ => .ok Conversion.teeShown
  | register _ _ => .ok registerText
  | stream _ _ => .ok streamText

def text (o : ObjectView) : Object → Except Fault String
  | range r => r.text o
  | density p => p.text o
  | cumulative c => c.text o
  | x => x.written o

/-! ## Equality -/

/-- What comparing two objects gives, knowing whether they are the same one. -/
def compare (o : ObjectView) (same : Bool) (x y : Object) : Except Fault Value :=
  match x, y with
  | range r, range q => (r.equal o q).map .ofBool
  | density p, density q => (p.equal o q).map .ofBool
  | cumulative c, cumulative d => (c.equal o d).map .ofBool
  | distribution d _ _ _, distribution e _ _ _ =>
    if same then .ok (.ofBool true) else (d.domain.equal o e.domain).map .ofBool
  | account a, account b => a.compare o b
  | _, _ => .ok (.ofBool same)

/-! ## Membership in sets -/

/-- The values that decide where an object goes in a set. -/
def keys : Object → List Value
  | range r => [r.min, r.max]
  | density p => p.fields
  | cumulative c => c.fields
  | distribution d _ _ _ => [d.domain.min, d.domain.max]
  | account a => a.extremes
  | _ => []

end Object

namespace Store

/-- What can be said of objects that are nested at most `depth` deep. -/
def viewWithin (s : Store) : Nat → ObjectView
  | 0 => ⟨fun _ => .error .endless, fun _ => .error .endless, fun _ _ => .error .endless⟩
  | depth + 1 =>
    let o := s.viewWithin depth
    { text h := (s.object? h).elim (.error .noAttribute) (Object.text o)
      written h := (s.object? h).elim (.error .noAttribute) (Object.written o)
      equal i j :=
        match s.object? i, s.object? j with
        | some x, some y => x.compare o (i = j) y
        | _, _ => .error .noAttribute }

/-- How objects look, with what they hold now. -/
def view (s : Store) : ObjectView := s.viewWithin (s.objects.length + 1)

/-! ## Sets -/

/-- Whether a value can be put into a set, through objects nested `depth` deep. -/
def isHashableWithin (s : Store) : Nat → Value → Bool
  | 0, v => v.isHashable
  | depth + 1, v =>
    match s.objectOf? v with
    | some x => x.keys.all (s.isHashableWithin depth)
    | none => v.isHashable

def isHashable (s : Store) (v : Value) : Bool := s.isHashableWithin (s.objects.length + 1) v

/-- Whether two objects would meet in a set, through objects nested `depth` deep. -/
def meetsWithin (s : Store) : Nat → Nat → Nat → Bool
  | 0, i, j => i = j
  | depth + 1, i, j =>
    match s.object? i, s.object? j with
    | some x, some y =>
      let met := (x.keys.zip y.keys).all fun (v, w) => v.meets (s.meetsWithin depth) w
      i = j || (x.keys.length = y.keys.length && met)
    | _, _ => false

def meets (s : Store) (v w : Value) : Bool := v.meets (s.meetsWithin (s.objects.length + 1)) w

/-- Whether a value is one of a set already: it is the same as a member, or meets it there
and equals it. -/
def isAmong (s : Store) (kept : List Value) (v : Value) : Except Fault Bool :=
  kept.anyM fun w => if w.same v then .ok true else if s.meets w v then w.equal s.view v else .ok false

/-- The set of some values, which have to fit into one. -/
def collect (s : Store) (vs : List Value) : Except Fault (List Value) :=
  vs.foldlM (fun kept v => do
    if !s.isHashable v then throw .wrongType
    if ← s.isAmong kept v then return kept else return v :: kept) []

def distinct (s : Store) (vs : List Value) : Except Fault Nat := (s.collect vs).map List.length

end Store

end StreamStat
