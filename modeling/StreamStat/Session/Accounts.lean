import StreamStat.Session.Action

/-!
# Accounts in a session

Opening, viewing, copying and feeding accounts.
-/

namespace StreamStat.Action

/-! ## Opening -/

/-- Adds an object to the store by `f`, under the handle that is next. -/
def adding (f : Store → Store) : Action Value := onStore fun s => (.handle s.next, f s)

/-- The object of a converter literal; conversions are listed once. -/
def evalConverter : ConverterLiteral → Action Value
  | .named c =>
    find
      (fun
        | .conversion d => d = c
        | _ => false)
      (.conversion c)
  | .tee name => do make (.tee (← resolve name))
  | .value v => eval v

def adapt (adoptee converter : Value) : Action Value := do
  if adoptee.isNone then fail (.argument .missingAdoptee)
  if converter.isNone then fail (.argument .missingConverter)
  let s ← store
  match s.converter? converter with
  | none => do
    let shown ← lift (converter.written s.view)
    fail (.argument (.notCallable shown))
  | some c => adding fun s => s.adapt adoptee c

/-- Makes a view of an account and logs it, if there are texts for that. -/
def map (v : Value) (converter : ConverterLiteral) : Action Value := do
  match ← object? v with
  | some (.account _) => do
    let converter ← evalConverter converter
    let view ← adapt v converter
    let o := (← store).view
    match v.written o, converter.written o with
    | .ok account, .ok converter => log (.mapped account converter)
    | _, _ => pure ()
    pure view
  | _ => fail .noAttribute

/-- Duplicates an account, or the outermost list, array or array number. -/
def copy (v : Value) : Action Value := do
  match v with
  | .handle h => do
    let s ← lift ((← store).copy h)
    adding fun _ => s
  | .list items _ => pure (.list items 0)
  | .array g _ => pure (.array g 0)
  | .number n _ => if n.isMachine then pure (.ofNumber n) else fail .noAttribute
  | _ => fail .noAttribute

/-! ## Feeding -/

def add (target : Value) (x : Literal) : Action Value := do
  if !(← store).takesSamples target then fail .noAttribute
  let v ← eval x
  settle ((← store).feed target v)
  pure .none

/-- What one meets when going through a value; for a stream, what is left of it. -/
def itemsOf (v : Value) : Action (List Value) := do
  let items ← match ← object? v with
    | some (.stream source taken) => pure ((source.items?.getD []).drop taken)
    | _ => ofOption .wrongType v.items?
  onStore fun s => s.stampAll items

/-- Leaves so many items in a stream; one that has come to its end stays there. -/
def leave (v : Value) (rest : Nat) (ended : Bool) : Action Unit := do
  match v, ← object? v with
  | .handle h, some (.stream source _) =>
    let taken := (source.items?.getD []).length - rest
    let x : Object := if ended then .stream (.list [] 0) 0 else .stream source taken
    onStore fun s => ((), s.put h x)
  | _, _ => pure ()

/-- Feeds what a value holds; what has not been taken of a stream stays for the next
time. -/
def accumulate (values : Value) (targets : List Value) : Action Value := do
  if targets.isEmpty then fail (.argument .noAccumulators)
  let items ← itemsOf values
  let run := (← store).accumulate targets items
  modify fun s => s.keep run.outcome.store
  leave values run.rest.length run.outcome.fault.isNone
  match run.outcome.fault with
  | some f => fail f
  | none => pure .none

def iterate (v : Value) : Action Value := do
  match ← object? v, v.items? with
  | some (.stream _ _), _ => pure v
  | _, some _ => make (.stream v 0)
  | _, none => fail .wrongType

end StreamStat.Action
