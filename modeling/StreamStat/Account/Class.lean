import StreamStat.Account.Basic

/-!
# Classes of accounts

The accounts that can be opened. Each statistic comes as a class of its own and as a
logged one, which differs in name only.
-/

namespace StreamStat

inductive Statistic where
  | min
  | max
  | minMax
  | mean
  | variance
  deriving DecidableEq

inductive AccountClass where
  | plain
  | counter
  | recorder
  | statistic (s : Statistic) (logged : Bool)
  deriving DecidableEq

namespace Statistic

def name : Statistic → String
  | min => "Min"
  | max => "Max"
  | minMax => "MinMax"
  | mean => "Mean"
  | variance => "Variance"

def initial : Statistic → Body
  | min => .min .none
  | max => .max .none
  | minMax => .minMax .none .none
  | mean => .mean 0
  | variance => .variance ⟨0, 0⟩

end Statistic

namespace AccountClass

def title : AccountClass → Title
  | plain => ⟨"MappableAccumulator", "evostat.accumulators.accumulator"⟩
  | counter => ⟨"Counter", "harness"⟩
  | recorder => ⟨"Recorder", "harness"⟩
  | statistic s logged =>
    if logged then ⟨"Logged" ++ s.name, "harness"⟩
    else ⟨s.name, "evostat.accumulators.builtins"⟩

/-- The body of a new account; `tape` is where a recorder would write. -/
def initial (tape : Nat) : AccountClass → Body
  | plain | counter => .counter
  | recorder => .recorder tape
  | statistic s _ => s.initial

end AccountClass

namespace Account

def opened (c : AccountClass) (tape : Nat) : Account := ⟨c.title, 0, c.initial tape, 0, []⟩

def viewTitle : Title := ⟨"AccumulatorAdapter", "evostat.accumulators.accumulator"⟩

def view (adoptee : Value) (converter : Converter) : Account :=
  ⟨viewTitle, 0, .view adoptee converter, 0, []⟩

end Account

end StreamStat
