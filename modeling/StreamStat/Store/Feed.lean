import StreamStat.Store.View

/-!
# Feeding samples

A sample given to an account is folded in and counted; given to a view it goes through
the program of its converter, is forwarded, and then counted by the view as well. A call
that fails keeps what has happened up to the failure.
-/

namespace StreamStat

/-- What a call leaves: the store, and the fault that ended the call if one did. -/
structure Outcome where
  store : Store
  fault : Option Fault

namespace Outcome

/-- Goes on with the store unless a fault has ended the call. -/
def andThen (o : Outcome) (f : Store → Outcome) : Outcome :=
  match o.fault with
  | none => f o.store
  | some _ => o

end Outcome

/-- What a program leaves: the store, and what the program has ended with. -/
structure Exit where
  store : Store
  result : Except Fault Value

namespace Exit

/-- Goes on with the value that a program has returned. -/
def andThen (e : Exit) (f : Value → Store → Outcome) : Outcome :=
  match e.result with
  | .ok v => f v e.store
  | .error x => ⟨e.store, some x⟩

end Exit

namespace Program

/-- Runs a program; `call` gives a sample to a target. -/
def run (call : Value → Value → Store → Outcome) : Program → Store → Exit
  | finish result, s => ⟨s, result⟩
  | look next, s => (next s.view).run call s
  | feed target sample next, s =>
    let (v, s) := s.stamp sample
    let o := call v target s
    -- nothing comes after a call that goes on for ever
    if o.fault = some .endless then ⟨o.store, .error .endless⟩
    else (next v o.fault).run call o.store

end Program

namespace Store

/-- Does one thing after the other for each target, until a fault. -/
def forEach (f : Value → Store → Outcome) : List Value → Store → Outcome
  | [], s => ⟨s, none⟩
  | t :: ts, s => (f t s).andThen (forEach f ts)

def count (s : Store) (handle : Nat) : Store :=
  match s.account? handle with
  | some a => s.put handle (.account a.count)
  | none => s

/-! ## Accounts -/

/-- Folds a sample into an account that is no view. A sample that has just been computed
gets a mark first. -/
def absorb (s : Store) (handle : Nat) (a : Account) (v : Value) : Outcome :=
  let (v, s) := s.stamp v
  let (a, fault) := a.receive s.view s.marks v
  let s := (s.put handle (.account a)).reserve 1
  match a.body with
  | .recorder tape => ⟨s.record tape v, fault⟩
  | _ => ⟨s, fault⟩

/-! ## Tallies -/

/-- Takes what is left of a stream, which is then at its end. -/
def drain (s : Store) (v : Value) : Option (List Value) × Store :=
  match v, s.objectOf? v with
  | .handle h, some (.stream source taken) =>
    let items := (source.items?.getD []).drop taken
    (some items, s.put h (.stream (.list [] 0) 0))
  | v, _ => (v.items?, s)

/-- Adds a value to a sum, in place if the sum is a list or an array. -/
def add (s : Store) (sum v : Value) : Except Fault (Value × Store) := do
  let (items, t) := s.drain v
  let items := items.map fun vs => t.stampAll vs
  let news := items.map Prod.fst
  let t := (items.map Prod.snd).getD t
  match ← sum.addTo v news with
  | .made w => return s.stamp w
  | .changed w => return (w, t.amend w.mark w)

def addUp (s : Store) (handle : Nat) (t : Tally) (v : Value) : Outcome :=
  match s.add t.sum v with
  | .error f => ⟨s, some f⟩
  | .ok (sum, s) =>
    let t := { (s.tally? handle).getD t with sum }
    let s := s.put handle (.tally t)
    match s.add t.count (.ofInt 1) with
    | .error f => ⟨s, some f⟩
    | .ok (count, s) =>
      ⟨s.put handle (.tally { (s.tally? handle).getD t with count }), none⟩

/-! ## Views -/

/-- Gives a sample to a target, through at most `depth` accounts one inside the other. -/
def feedWithin : Nat → Value → Value → Store → Outcome
  | 0, _, _, s => ⟨s, some .endless⟩
  | depth + 1, v, target, s =>
    match target, s.objectOf? target with
    | .handle h, some (.tally t) => s.addUp h t v
    | .handle h, some (.account a) =>
      match a.body with
      | .view adoptee converter =>
        if s.takesSamples adoptee then
          ((converter.program v).run (feedWithin depth) s).andThen fun w s =>
            (feedWithin depth w adoptee s).andThen fun s => ⟨s.count h, none⟩
        else ⟨s, some .noAttribute⟩
      | _ => s.absorb h a v
    | _, _ => ⟨s, some .noAttribute⟩

/-- Gives a sample to a target. No chain of views is longer than the store. -/
def feed (s : Store) (target v : Value) : Outcome :=
  feedWithin (s.objects.length + 1) v target s

/-! ## Runs -/

/-- What a run over a row of values leaves: its outcome, and the values not yet taken. -/
structure Run where
  outcome : Outcome
  rest : List Value

def feedAll (targets : List Value) : List Value → Store → Run
  | [], s => ⟨⟨s, none⟩, []⟩
  | v :: vs, s =>
    let o := forEach (fun target s => s.feed target (v.amendBy s.changes)) targets s
    match o.fault with
    | none => feedAll targets vs o.store
    | some _ => ⟨o, vs⟩

/-- Feeds a row of values to at least one target; without one, nothing is taken. -/
def accumulate (targets values : List Value) (s : Store) : Run :=
  if targets.isEmpty then ⟨⟨s, some (.argument .noAccumulators)⟩, values⟩
  else feedAll targets values s

end Store

end StreamStat
