import StreamStat.Fault

/-!
# The register of distribution factories

There is at most one current ledger of factories at a time; it is opened when it is
first needed. The configured ledger, with the built-in factory in it, is remembered
until the register is reset. The register hands factories out as they were given to it.
-/

namespace StreamStat

/-- The factories by name, under the serial number of their ledger. -/
structure Ledger (φ : Type) where
  serial : Nat
  factories : List (String × φ)

structure Register (φ : Type) where
  opened : Nat
  current : Option (Ledger φ)
  configured : Option Nat

variable {φ : Type}

def Ledger.names (l : Ledger φ) : List String :=
  (l.factories.map Prod.fst).mergeSort fun a b => !decide (b < a)

namespace Register

def empty : Register φ := ⟨0, none, none⟩

instance : Inhabited (Register φ) := ⟨empty⟩

/-- The current ledger, or the one that would be opened now. -/
def ledger (r : Register φ) : Ledger φ := r.current.getD ⟨r.opened, []⟩

def ensure (r : Register φ) : Register φ :=
  match r.current with
  | some _ => r
  | none => { r with opened := r.opened + 1, current := some ⟨r.opened, []⟩ }

def find? (r : Register φ) (name : String) : Option φ := r.ledger.factories.lookup name

def get (r : Register φ) (name : String) : Register φ × Except Fault φ :=
  let r := r.ensure
  match r.find? name with
  | some f => (r, .ok f)
  | none => (r, .error (.register (.unknown name)))

/-- Adds a factory; a name is given once only. -/
def register (r : Register φ) (name : String) (f : φ) : Register φ × Except Fault Unit :=
  let r := r.ensure
  match r.find? name with
  | some _ => (r, .error (.register (.duplicate name)))
  | none =>
    let l := r.ledger
    ({ r with current := some { l with factories := l.factories ++ [(name, f)] } }, .ok ())

def names (r : Register φ) : Register φ × Except Fault (List String) :=
  let r := r.ensure
  (r, .ok r.ledger.names)

def builtin : String := "uniform"

/-- Registers the built-in factory and remembers the ledger, unless one is remembered. -/
def configure (r : Register φ) (uniform : φ) : Register φ × Except Fault Nat :=
  match r.configured with
  | some serial => (r, .ok serial)
  | none =>
    match r.register builtin uniform with
    | (r, .error f) => (r, .error f)
    | (r, .ok ()) => ({ r with configured := some r.ledger.serial }, .ok r.ledger.serial)

def close (r : Register φ) : Register φ := { r with current := none }

/-- Closes the current ledger and forgets the configured one. -/
def reset (r : Register φ) : Register φ := { r with current := none, configured := none }

end Register

end StreamStat
