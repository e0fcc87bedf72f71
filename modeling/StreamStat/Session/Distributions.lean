import StreamStat.Session.Accounts

/-!
# Ranges and distributions in a session

Making ranges, distributions and uniform functions, evaluating them, and asking what is
a member of what.
-/

namespace StreamStat.Action

/-! ## Making -/

def makeRange (lower upper : Value) : Action Value := do
  make (.range (← lift (Range.make lower upper)))

/-- Lists the density on two bounds, with a mark for its height. -/
def makeDensity (lower upper : Value) : Action Value := do
  let p ← lift (Density.ofBounds lower upper)
  let height ← mint p.density
  make (.density { p with density := height })

/-- Lists the cumulative function on two bounds, with a mark for its divisor. -/
def makeCumulative (lower upper : Value) : Action Value := do
  let c ← lift (Cumulative.ofBounds lower upper)
  let divisor ← mint c.divisor
  make (.cumulative { c with divisor := divisor })

def handleOf : Value → Action Nat
  | .handle h => pure h
  | _ => fail .wrongType

/-- Lists a distribution on a domain together with its two functions. -/
def makeDistribution (domain : Range) (handle : Option Nat) : Action Value := do
  let d ← lift (UniformDistribution.ofRange domain)
  let d ← onStore fun s => (d.stamp s.marks, s.reserve 4)
  let range ← match handle with
    | some h => pure h
    | none => do handleOf (← make (.range domain))
  let pdf ← handleOf (← make (.density d.pdf))
  let cdf ← handleOf (← make (.cumulative d.cdf))
  let v ← make (.distribution d range pdf cdf)
  match domain.text (← store).view with
  | .ok text => log (.created text)
  | .error _ => pure ()
  pure v

/-- The distribution of a domain, or of two bounds; the second argument may be missing. -/
def uniform (first second : Value) : Action Value := do
  match first, ← object? first with
  | .handle h, some (.range r) =>
    if second.isNone then makeDistribution r (some h)
    else fail (.argument .domainAndBounds)
  | _, _ => do
    let domain ← lift (UniformDistribution.domainOfBounds first second)
    makeDistribution domain none

def uniformOf : List Value → Action Value
  | [first] => uniform first .none
  | [first, second] => uniform first second
  | _ => fail .wrongType

/-! ## Evaluating -/

def part (p : Part) (v : Value) : Action Value := do
  match ← object? v, p with
  | some (.distribution _ domain _ _), .domain => pure (.handle domain)
  | some (.distribution _ _ pdf _), .pdf => pure (.handle pdf)
  | some (.distribution _ _ _ cdf), .cdf => pure (.handle cdf)
  | _, _ => fail .noAttribute

def call (f x : Value) : Action Value := do
  let s ← store
  match s.converter? f with
  | some c => do
    let e := (c.program x).run (fun v target s => s.feed target v) s
    modify fun s => s.keep e.store
    lift (e.result.map (Value.amendBy e.store.changes))
  | none => fail .wrongType

def contains (v : Value) (x : Literal) : Action Value := do
  match ← object? v with
  | some (.range r) => do
    let inside ← lift (r.contains (← eval x))
    match inside.shape, inside.cells with
    | [], [b] => pure (.ofBool b)
    | shape, cells => pure (.array ⟨.bool, shape, cells.map .machineBool⟩ 0)
  | _ => fail .noAttribute

/-! ## Membership -/

def occursIn (part whole : String) : Bool := part.isEmpty || (whole.splitOn part).length > 1

/-- How many of some items there are up to the first that agrees with a value, and
whether there is one. -/
def search (o : ObjectView) (x : Value) : List Value → Except Fault (Nat × Bool)
  | [] => .ok (0, false)
  | v :: vs => do
    if ← v.agree o x then return (1, true)
    let (n, found) ← search o x vs
    return (n + 1, found)

/-- Whether any of the truths that a comparison gives is true. -/
def anyTrue : Value → Except Fault Bool
  | .array g _ => .ok (g.cells.any Number.isTrue)
  | v => v.truth

/-- Whether a value is a member of another one: of a range, a list or an array, a part of
a text, or one of the items that are still to come of a stream. -/
def member (x v : Value) : Action Value := do
  let o := (← store).view
  match ← object? v, v, x with
  | some (.range r), _, _ => .ofBool <$> lift (r.member x)
  | some (.stream _ _), _, _ => do
    let items ← itemsOf v
    let (taken, found) ← lift (search o x items)
    leave v (items.length - taken) (!found)
    pure (.ofBool found)
  | _, .list items _, _ => do return .ofBool (← lift (search o x items)).2
  | _, .text whole _, .text part _ => pure (.ofBool (occursIn part whole))
  | _, .array _ _, _ => do return .ofBool (← lift ((← lift (v.compare o .eq x)) |> anyTrue))
  | _, _, _ => fail .wrongType

end StreamStat.Action
