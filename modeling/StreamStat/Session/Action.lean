import StreamStat.Session.Picture

/-!
# Actions on a session

An action works on a session and may fail. Operands are evaluated one after the other;
the first that fails decides.
-/

namespace StreamStat

/-- A computation on a session that may fail; what was done before the failure stays. -/
abbrev Action (α : Type) := ExceptT Fault (StateM Session) α

namespace Action

def lift {α : Type} (r : Except Fault α) : Action α := ExceptT.mk (pure r)

def fail {α : Type} (f : Fault) : Action α := lift (.error f)

def ofOption {α : Type} (f : Fault) : Option α → Action α
  | some a => pure a
  | none => fail f

/-! ## The store -/

def store : Action Store := do return (← get).store

def onStore {α : Type} (f : Store → α × Store) : Action α := do
  let s ← get
  let (a, store) := f s.store
  set { s with store }
  return a

def mint (v : Value) : Action Value := onStore fun s => s.stamp v

def make (x : Object) : Action Value := onStore fun s => (.handle s.next, s.push x)

/-- The first object that `p` accepts, or a new one. -/
def find (p : Object → Bool) (x : Object) : Action Value := do
  match (← store).objects.findIdx? p with
  | some h => pure (.handle h)
  | none => make x

def object? (v : Value) : Action (Option Object) := do return (← store).objectOf? v

def registerHandle (serial : Nat) : Action Value :=
  find
    (fun
      | .register n _ => n = serial
      | _ => false)
    (.register serial [])

/-- Keeps the store that a call leaves, and fails if the call did. -/
def settle (o : Outcome) : Action Unit := do
  modify fun s => s.keep o.store
  match o.fault with
  | some f => fail f
  | none => pure ()

def log (e : LogEntry) : Action Unit := modify fun s => { s with log := s.log ++ [e] }

/-! ## Operands -/

def resolve (name : String) : Action Value := do
  ofOption (.unbound name) ((← get).binding? name)

def resolveAll : List String → Action (List Value)
  | [] => pure []
  | n :: ns => do
    let v ← resolve n
    let vs ← resolveAll ns
    pure (v :: vs)

mutual

/-- The value of a literal. Whatever is written down is an occurrence of its own. -/
def eval : Literal → Action Value
  | .none => pure .none
  | .number n => mint (.ofNumber n)
  | .text s => mint (.ofText s)
  | .list items => do mint (.list (← evalAll items) 0)
  | .array t content => do
    let v ← eval content
    mint (.array (← lift (v.toGrid t)) 0)
  | .ref name => resolve name

def evalAll : List Literal → Action (List Value)
  | [] => pure []
  | l :: ls => do
    let v ← eval l
    let vs ← evalAll ls
    pure (v :: vs)

end

end Action

end StreamStat
