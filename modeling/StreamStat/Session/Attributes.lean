import StreamStat.Session.Action

/-!
# Attributes of objects

Which fields an object has, what they hold, and what happens on assignment.
-/

namespace StreamStat

namespace Object

/-- The fields of an object that is made once and for all, by name. -/
def parts : Object → List (String × Value)
  | range r => [("min", r.min), ("max", r.max)]
  | density p => [("min", p.lower), ("max", p.upper), ("density", p.density)]
  | cumulative c => [("min", c.lower), ("max", c.upper), ("divisor", c.divisor)]
  | _ => []

def field (x : Object) (name : String) : Except Fault Value :=
  match x, name with
  | range r, "width" => r.width.map fun w => .ofNumber (.float w)
  | account a, name => (a.field? name).elim (.error .noAttribute) .ok
  | tally t, name => (t.field? name).elim (.error .noAttribute) .ok
  | register _ notes, name => (notes.lookup name).elim (.error .noAttribute) .ok
  | x, name => (x.parts.lookup name).elim (.error .noAttribute) .ok

/-- The object after an assignment to a field. Ranges and uniform functions are frozen,
and the kinds of numbers take no fields. -/
def setField (x : Object) (name : String) (v : Value) : Except Fault Object :=
  match x with
  | account a => (a.setField name v).map account
  | tally t => .ok (tally (t.setField name v))
  | register serial notes => .ok (register serial (notes.assign name v))
  | range _ | density _ | cumulative _ =>
    .error (if (x.parts.lookup name).isSome then .frozenField else .wrongType)
  | conversion .float | conversion .int | conversion .str => .error .wrongType
  | _ => .error .noAttribute

end Object

namespace Action

def getField (v : Value) (name : String) : Action Value := do
  match ← object? v with
  | some x => lift (x.field name)
  | none => fail .noAttribute

def setField (v : Value) (name : String) (w : Value) : Action Value := do
  match v, ← object? v with
  | .handle h, some x => do
    let x ← lift (x.setField name w)
    onStore fun s => (.none, s.put h x)
  | _, _ => fail .noAttribute

def satisfies (v : Value) (c : Capability) : Action Value := do
  let holds := match c, v, ← object? v with
    | .orderedNumber, .number _ _, _ | .orderedNumber, .array _ _, _ => true
    | .orderedNumber, _, some (.conversion c) => c.isNumeric
    | .accumulator, _, some (.account _) | .accumulator, _, some (.tally _) => true
    | .distribution, _, some (.distribution _ _ _ _) => true
    | _, _, _ => false
  pure (.ofBool holds)

end Action

end StreamStat
