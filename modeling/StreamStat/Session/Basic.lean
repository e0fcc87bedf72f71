import StreamStat.Register
import StreamStat.Session.Script
import StreamStat.Store.Feed

/-!
# Sessions

A session holds the store of the objects that a script has made, the variables that it
has bound, the register, and the log of what happened.
-/

namespace StreamStat

inductive LogEntry where
  | created (domain : String)
  | registered (name : String)
  | mapped (account converter : String)

def LogEntry.message : LogEntry → String
  | .created domain => "Created uniform distribution over " ++ domain
  | .registered name => "Registered distribution factory " ++ Text.quoted name
  | .mapped account converter => "Mapped " ++ account ++ " with converter " ++ converter

structure Session where
  store : Store
  bindings : List (String × Value)
  register : Register Factory
  log : List LogEntry

namespace Session

def empty : Session := ⟨.empty, [], .empty, []⟩

instance : Inhabited Session := ⟨empty⟩

/-- The value bound to a name; the last binding counts. -/
def binding? (s : Session) (name : String) : Option Value := s.bindings.lookup name

def bind (s : Session) (name : String) (v : Value) : Session :=
  { s with bindings := (name, v) :: s.bindings }

/-- Goes on with a store, after the changes that it lists have reached the variables. -/
def keep (s : Session) (store : Store) : Session :=
  { s with
    store := { store with changes := [] }
    bindings := s.bindings.map fun (name, v) => (name, v.amendBy store.changes) }

end Session

end StreamStat
