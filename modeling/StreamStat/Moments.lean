import StreamStat.Double.Basic

/-!
# Running moments

The mean and the sum of squared deviations of a stream, each sample folded in as it
comes. Stated for any arithmetic.
-/

namespace StreamStat

section
variable {α : Type} [Add α] [Sub α] [Mul α] [Div α] [NatCast α]

/-- The mean after the `n`-th sample `x`, from the mean before it. -/
def nextMean (mean : α) (n : Nat) (x : α) : α := mean + (x - mean) / (n : α)

/-- The mean of a stream and its sum of squared deviations. -/
structure Moments (α : Type) where
  mean : α
  spread : α
  deriving DecidableEq

namespace Moments

/-- Folds in the `n`-th sample. The deviation is taken once from the old mean and once
from the new one. -/
def push (m : Moments α) (n : Nat) (x : α) : Moments α :=
  let delta := x - m.mean
  let mean := nextMean m.mean n x
  ⟨mean, m.spread + delta * (x - mean)⟩

/-- The unbiased variance of `n` samples, two at least. -/
def variance (m : Moments α) (n : Nat) : α := m.spread / ((n - 1 : Nat) : α)

end Moments

end

end StreamStat
