import StreamStat.Session.Accounts
import StreamStat.Session.Attributes
import StreamStat.Session.Distributions

/-!
# Running scripts

Each step gives a value or fails, and a step that fails does not end the script.
Operands are evaluated in the order in which they are listed before anything is done.
-/

namespace StreamStat

namespace Action

/-! ## The register -/

/-- Runs a step of the register, keeping what it leaves. -/
def onRegister {α : Type} (f : Register Factory → Register Factory × Except Fault α) :
    Action α := do
  let s ← get
  let (register, result) := f s.register
  set { s with register := register }
  lift result

def register (name : String) (f : Factory) : Action Value := do
  onRegister fun r => r.register name f
  log (.registered name)
  pure .none

def configure : Action Value := do
  let known := (← get).register.configured.isSome
  let serial ← onRegister fun r => r.configure .uniform
  if !known then log (.registered Register.builtin)
  registerHandle serial

def applyFactory (f : Factory) (args : List Value) : Action Value :=
  match f, args with
  | .uniform, [lower, upper] => uniform lower upper
  | .distribution, args => uniformOf args
  | .unit, [] => uniform (.constant (.float 0)) (.constant (.float 1))
  | _, _ => fail .wrongType

def build (name : String) (args : List Literal) : Action Value := do
  let f ← onRegister fun r => r.get name
  applyFactory f (← evalAll args)

/-! ## Steps -/

def version : String := "0.1.0"

def exports : List String := [
  "Accumulator", "AccumulatorAdapter", "ArithmeticDegenerateError", "BoolArray", "Distribution",
  "DistributionRegister", "FloatArray", "InvalidArgumentError", "MappableAccumulator", "Max",
  "Mean", "Min", "MinMax", "NumPyNumber", "Number", "NumericArray", "OrderedNumber", "Range",
  "UniformCDF", "UniformDistribution", "UniformPDF", "Variance", "__version__", "accumulate",
  "configure_distributions_register", "reset_distributions_register"]

def texts (ts : List String) : Value := .list (ts.map .ofText) 0

def perform : Step → Action Value
  | .range min max => do
    let lower ← eval min
    let upper ← eval max
    makeRange lower upper
  | .uniform args => do uniformOf (← evalAll args)
  | .density lower upper => do
    let lower ← eval lower
    let upper ← eval upper
    makeDensity lower upper
  | .cumulative lower upper => do
    let lower ← eval lower
    let upper ← eval upper
    makeCumulative lower upper
  | .part p of => do part p (← resolve of)
  | .call of x => do
    let f ← resolve of
    call f (← eval x)
  | .contains of x => do contains (← resolve of) x
  | .member x of => do
    let x ← eval x
    member x (← resolve of)
  | .create c => adding fun s => s.create c
  | .tally => make (.tally .empty)
  | .map of converter => do map (← resolve of) converter
  | .adapt adoptee converter => do
    let v ← eval adoptee
    adapt v (← evalConverter converter)
  | .copy of => do copy (← resolve of)
  | .add target x => do add (← resolve target) x
  | .accumulate values targets => do
    let v ← eval values
    accumulate v (← resolveAll targets)
  | .iterate values => do iterate (← eval values)
  | .bind x => eval x
  | .get of field => do getField (← resolve of) field
  | .set of field x => do
    let v ← resolve of
    setField v field (← eval x)
  | .str of => do
    let v ← resolve of
    .ofText <$> lift (v.plainText (← store).view)
  | .repr of => do
    let v ← resolve of
    .ofText <$> lift (v.written (← store).view)
  | .equal a b => do
    let v ← eval a
    let w ← eval b
    lift (v.compare (← store).view .eq w)
  | .unequal a b => do
    let v ← eval a
    let w ← eval b
    lift (v.compare (← store).view .ne w)
  | .same a b => do
    let v ← resolve a
    let w ← resolve b
    pure (.ofBool (v.same w))
  | .distinct of => do
    let vs ← evalAll of
    let n ← lift ((← store).distinct vs)
    pure (.ofInt n)
  | .satisfies x c => do satisfies (← eval x) c
  | .configure => configure
  | .registerObject => do
    let r := (← get).register.ensure
    modify fun s => { s with register := r }
    registerHandle r.ledger.serial
  | .reset => do
    modify fun s => { s with register := s.register.reset }
    pure .none
  | .resetSingleton => do
    modify fun s => { s with register := s.register.close }
    pure .none
  | .register name f => register name f
  | .build name args => build name args
  | .names => do pure (texts (← onRegister Register.names))
  | .version => pure (.ofText version)
  | .exports => pure (texts exports)

end Action

namespace Session

/-! ## Scripts -/

/-- What a step answers: what it gave, and for a step that feeds accounts the state of
those that it names. -/
structure Answer where
  result : Except Fault Picture
  state : Option (List Picture)

/-- The variables whose state a step shows. -/
def shownBy : Step → Option (List String)
  | .add target _ => some [target]
  | .accumulate _ targets => some targets
  | _ => none

/-- Does one command and binds its result. -/
def command (c : Command) (s : Session) : Answer × Session :=
  let (result, s) := (Action.perform c.step >>= Action.mint).run.run s
  let s := match result, c.name with
    | .ok v, some name => s.bind name v
    | _, _ => s
  let state := (shownBy c.step).map fun names =>
    names.filterMap fun n => (s.binding? n).map s.picture
  (⟨result.map s.picture, state⟩, s)

def run (script : List Command) : List Answer × Session :=
  let step := fun (answers, s) c =>
    let (answer, s) := command c s
    (answer :: answers, s)
  let (answers, s) := script.foldl step ([], empty)
  (answers.reverse, s)

end Session

end StreamStat
