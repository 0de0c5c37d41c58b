import SemanticLayer.Formula.DataType
import SemanticLayer.Formula.Phase

/-!
# Faults of formulas

What can be wrong with a formula that parses, and where.  The positions of arguments count from
zero; most texts count them from one.
-/

namespace SemanticLayer.Formula

/-- A place in a formula: its character and line, both counted from one, and the whole text. -/
structure Location where
  position : Nat
  line : Nat
  text : String
  deriving DecidableEq, Inhabited

inductive Fault where
  | unknownFunction (name : String)
  | negatedOperandNotBoolean
  | requiredTaxonOutOfScope (slug : String)
  | taxonNotFound (slug : String)
  | operandNotNumber (operand : Nat) (operation : String)
  | incompatibleOperands
  | notForSubrequest
  | metricCalculation (type : TaxonType)
  | unknownAggregation
  | incompatibleArguments (function : String)
  | argumentNotConstant (position : Nat) (function : String) (expected : TypeCheck)
  | argumentType (position : Nat) (function : String) (expected : TypeCheck)
  | argumentPhase (position : Nat) (function : String) (expected : PhaseRange)
  | tooFewArguments (function : String) (required optional : List String) (given : Nat)
  | missingArgument (position : Nat) (function : String)
  | argumentCount (function : String) (given expected : Nat)
  | concatSources
  | timezoneName (position : Nat)
  | timeUnit (function : String) (unit : String) (supported : List String)
  | dateFormatMissing (function : String)
  | dateFormatOfNumber (function : String)
  | flagNotConstant (function : String)
  | unsupportedDialect (dialect function : String)
  | dateDifferenceSources
  | mergedTwice (sources : List String)
  | mixedOutcomes (function : String)
  | metricCondition (function : String)
  | dimensionCondition (function : String)
  | incompatibleOutcomes (function : String)
  deriving DecidableEq

namespace Fault

def quoted (s : String) : String := "\"" ++ s ++ "\""

def ordinal (position : Nat) : String := toString (position + 1)

def message : Fault → String
  | .unknownFunction name => "Unknown function " ++ name
  | .negatedOperandNotBoolean => "Operand in not expression must be of type: boolean"
  | .requiredTaxonOutOfScope slug => "Missing required taxon " ++ quoted slug
  | .taxonNotFound slug => "Taxon " ++ quoted slug ++ " not found"
  | .operandNotNumber operand operation =>
    "Operand " ++ toString operand ++ " in " ++ operation ++ " expression must be of type: number"
  | .incompatibleOperands => "Operands in logical expression must have compatible data types"
  | .notForSubrequest =>
    "Taxon used for subrequest cannot use complex calculation logic after merge() function."
  | .metricCalculation type =>
    "Taxon is of type " ++ type.name ++ ", but calculation is for type " ++ TaxonType.metric.name
  | .unknownAggregation => "It was not possible to deduce aggregation type"
  | .incompatibleArguments f => "Arguments in function " ++ f ++ " must have compatible data types"
  | .argumentNotConstant position f expected =>
    "Argument " ++ ordinal position ++ " in function " ++ f ++ " must be a constant of type: " ++
      expected.description
  | .argumentType position f expected =>
    "Argument " ++ ordinal position ++ " in function " ++ f ++ " must be of type: " ++
      expected.description
  | .argumentPhase position f expected =>
    "Argument " ++ ordinal position ++ " in function " ++ f ++ " must have a phase " ++
      expected.description
  | .tooFewArguments f required optional given =>
    f ++ " requires " ++ toString required.length ++
      (if optional.isEmpty then "" else " or " ++ toString (required.length + optional.length)) ++
      " arguments: " ++ ", ".intercalate required ++
      (if optional.isEmpty then ""
        else "(optionally also, " ++ ", ".intercalate optional ++ ")") ++
      (match given with
        | 0 => ", but none were given"
        | 1 => ", but only one was given"
        | n => ", but " ++ toString n ++ " were given")
  | .missingArgument position f =>
    "Missing required argument " ++ toString position ++ " in function " ++ f
  | .argumentCount f given expected =>
    "Function " ++ f ++ " was provided with an incorrect number of arguments " ++ toString given ++
      ", instead of expected " ++ toString expected
  | .concatSources =>
    "concat accepts only taxons from same data source or after merge() is applied"
  | .timezoneName position =>
    "Argument " ++ ordinal position ++
      " in function convert_timezone is not a valid timezone name"
  | .timeUnit f unit supported =>
    "Function " ++ f ++ " does not support time unit " ++ quoted unit ++
      ". Supported values are: " ++ ", ".intercalate supported
  | .dateFormatMissing f =>
    "Argument 2 in function " ++ f ++ " is required, if the first argument is not a number"
  | .dateFormatOfNumber f =>
    "Argument 2 in function " ++ f ++
      " is allowed only if the first argument is not a number"
  | .flagNotConstant f => "Argument 3 in function " ++ f ++ " must be a boolean constant"
  | .unsupportedDialect dialect f =>
    "Dialect " ++ dialect ++ " is not supported by function " ++ f
  | .dateDifferenceSources =>
    "date_diff accepts only taxons from the same data source or after merge() is applied"
  | .mergedTwice sources =>
    "merge() accepts only one taxon per distinct data source, but more taxons were provided " ++
      "for following data sources: " ++ ", ".intercalate sources
  | .mixedOutcomes f => f ++ " cannot combine dimension and metric outcomes"
  | .metricCondition f =>
    "Condition arguments in function " ++ f ++
      " must be dimension taxons when the outcome is dimension"
  | .dimensionCondition f =>
    "Condition arguments in function " ++ f ++
      " must be metric taxons when the outcome is post-aggregation metric"
  | .incompatibleOutcomes f =>
    "Outcome arguments in function " ++ f ++ " must have compatible data types"

end Fault

/-- A fault and its place. -/
structure LocatedFault where
  fault : Fault
  location : Location
  deriving DecidableEq

/-- A text with the place it speaks of. -/
def Location.describe (l : Location) (message : String) : String :=
  message ++ ". Occurred at position " ++ toString l.position ++ ", line " ++ toString l.line ++
    " in expression " ++ Fault.quoted l.text

def LocatedFault.message (f : LocatedFault) : String := f.location.describe f.fault.message

end SemanticLayer.Formula
