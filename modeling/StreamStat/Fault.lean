/-!
# Faults

Why a call fails. The faults that the library raises on its own account carry a
message; the ones that come from the values themselves have a cause only.
-/

namespace StreamStat

/-- An argument is missing or breaks a precondition. -/
inductive ArgumentFault where
  | missingMin
  | missingMax
  | membershipOfArray
  | missingDomain
  | domainAndBounds
  | infiniteWidth (lower upper : String)
  | reversedBounds (lower upper : String)
  | missingAdoptee
  | missingConverter
  | notCallable (shown : String)
  | noAccumulators
  deriving DecidableEq

/-- The arguments would force a division by zero or an endless density. -/
inductive DegenerateFault where
  | zeroWidth (lower upper : String)
  | tooNarrow (lower upper : String)
  deriving DecidableEq

inductive RegisterFault where
  | unknown (name : String)
  | duplicate (name : String)
  deriving DecidableEq

inductive Fault where
  | argument (cause : ArgumentFault)
  | degenerate (cause : DegenerateFault)
  | register (cause : RegisterFault)
  | unbound (name : String)
  | wrongType
  | badValue
  | overflow
  | divisionByZero
  | invalidOperation
  | noAttribute
  | frozenField
  /-- Arrays have no such operation on cells of these types. -/
  | noCellOperation
  | endless
  deriving DecidableEq

def domainText (lower upper : String) : String := "Domain [" ++ lower ++ ", " ++ upper ++ "]"

def ArgumentFault.message : ArgumentFault → String
  | .missingMin => "Range min must not be None."
  | .missingMax => "Range max must not be None."
  | .membershipOfArray => "Membership test expects a scalar; use Range.contains for arrays."
  | .missingDomain => "Domain must not be None."
  | .domainAndBounds => "Pass either a domain Range or the two bounds, not both."
  | .infiniteWidth lower upper => domainText lower upper ++ " must have a finite width."
  | .reversedBounds lower upper => domainText lower upper ++ " must satisfy min < max."
  | .missingAdoptee => "Adoptee must not be None."
  | .missingConverter => "Converter must not be None."
  | .notCallable shown => "Converter must be callable, got " ++ shown ++ "."
  | .noAccumulators => "At least one accumulator is required."

def DegenerateFault.message : DegenerateFault → String
  | .zeroWidth lower upper =>
    domainText lower upper ++ " has zero width; the density is undefined."
  | .tooNarrow lower upper => domainText lower upper ++ " is too narrow; the density overflows."

def RegisterFault.message : RegisterFault → String
  | .unknown name => "No distribution " ++ name ++ " found in register"
  | .duplicate name => "Distribution " ++ name ++ " already found in register"

namespace Fault

/-- The message of a fault that the library raises itself; for an unbound name, the name. -/
def message? : Fault → Option String
  | argument cause => some cause.message
  | degenerate cause => some cause.message
  | register cause => some cause.message
  | unbound name => some name
  | _ => none

end Fault

end StreamStat
