import StreamStat.Range
import StreamStat.Uniform.Grid

/-!
# Uniform distributions

A distribution keeps its domain as given; its density and its cumulative function are
built on the doubles of the bounds.
-/

namespace StreamStat

namespace Value

/-- A value as a double; a double stays the occurrence that it is. -/
def toFloat : Value → Except Fault Value
  | number (.float x) mark => .ok (.number (.float x) mark)
  | v => v.toDouble.map fun x => ofNumber (.float x)

end Value

structure UniformDistribution where
  domain : Range
  pdf : Density Value
  cdf : Cumulative Value

namespace UniformDistribution

/-- The distribution on a domain whose bounds are given as doubles too. -/
def onDomain (domain : Range) (lower upper : Value) : Except Fault UniformDistribution := do
  let pdf ← Density.ofBounds lower upper
  let cdf ← Cumulative.ofBounds lower upper
  return ⟨domain, pdf, cdf⟩

def ofRange (domain : Range) : Except Fault UniformDistribution := do
  let lower ← domain.min.toFloat
  let upper ← domain.max.toFloat
  onDomain domain lower upper

/-- The two bounds as a domain; a bound that is left out counts as nothing. -/
def domainOfBounds (lower upper : Value) : Except Fault Range :=
  if lower.isNone && upper.isNone then .error (.argument .missingDomain)
  else Range.make lower upper

def ofBounds (lower upper : Value) : Except Fault UniformDistribution := do
  ofRange (← domainOfBounds lower upper)

/-- Marks what the two functions have computed from the domain: the bounds, which they
share, the height of the one and the divisor of the other. -/
def stamp (mark : Nat) (d : UniformDistribution) : UniformDistribution where
  domain := d.domain
  pdf := ⟨d.pdf.lower.stamp mark, d.pdf.upper.stamp (mark + 1), d.pdf.density.stamp (mark + 2)⟩
  cdf := ⟨d.cdf.lower.stamp mark, d.cdf.upper.stamp (mark + 1), d.cdf.divisor.stamp (mark + 3)⟩

def written (o : ObjectView) (d : UniformDistribution) : Except Fault String := do
  return "UniformDistribution[" ++ (← d.domain.text o) ++ "]"

end UniformDistribution

end StreamStat
