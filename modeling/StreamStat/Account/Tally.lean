import StreamStat.Value.Cells

/-!
# Tallies

A tally adds up whatever it is given. It is no account of the library's own classes:
its sum and its count are plain fields that anyone can assign.
-/

namespace StreamStat

structure Tally where
  sum : Value
  count : Value
  notes : Notes

namespace Tally

def empty : Tally := ⟨.ofInt 0, .ofInt 0, []⟩

def title : String := "Total"

def field? (t : Tally) (name : String) : Option Value :=
  ([("sample_count", t.count), ("total", t.sum)] ++ t.notes).lookup name

def setField (t : Tally) (name : String) (v : Value) : Tally :=
  match name with
  | "sample_count" => { t with count := v }
  | "total" => { t with sum := v }
  | name => { t with notes := t.notes.assign name v }

end Tally

/-! ## Adding up -/

/-- What adding a value to another one leaves in its place. -/
inductive Sum where
  /-- A value of its own. -/
  | made (v : Value)
  /-- The same list or array with new contents. -/
  | changed (v : Value)

namespace Value

/-- Adds a value to a sum; `items` are what one meets when going through the value. Texts
are joined, arrays add up in their place, and a list takes up the items unless the
value brings cells. -/
def addTo (sum v : Value) (items : Option (List Value)) : Except Fault Sum :=
  match sum, v with
  | text s _, text t _ => .ok (.made (ofText (s ++ t)))
  | text _ _, number _ _ => .error .wrongType
  | array g mark, v => do
    let g ← g.combineInPlace .addition (← Operand.ofValue v)
    return .changed (array g mark)
  | list olds mark, v =>
    if v.hasCells then (combine .addition sum v).map .made
    else
      match items with
      | some news => .ok (.changed (list (olds ++ news) mark))
      | Option.none => .error .wrongType
  | sum, v => (combine .addition sum v).map .made

end Value

end StreamStat
