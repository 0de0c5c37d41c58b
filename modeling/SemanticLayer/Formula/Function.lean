import SemanticLayer.Formula.Fault
import SemanticLayer.Slug
import SemanticLayer.Taxonomy.Aggregation

/-!
# Functions of formulas

Each function declares its parameters and how the phase, the type, the missing value and the
aggregation of a call follow from those of its arguments.  The rules look at the lists of these
facts only, never at the arguments themselves.
-/

namespace SemanticLayer.Formula

/-- Where a formula stands: in the calculation of a taxon, or in an attribute of a model. -/
inductive Setting where
  | taxon
  | model
  deriving DecidableEq

def Setting.name : Setting → String
  | .taxon => "TAXON"
  | .model => "MODEL"

inductive ParameterKind where
  | typed (check : TypeCheck)
  | any
  /-- All further arguments, each of the type. -/
  | typedList (check : TypeCheck)
  /-- All further arguments, of types that go together. -/
  | compatibleList
  deriving DecidableEq

structure Parameter where
  name : String
  kind : ParameterKind
  isOptional : Bool
  isConstant : Bool
  phases : PhaseRange
  deriving DecidableEq

namespace Parameter

def of (name : String) (kind : ParameterKind) : Parameter :=
  ⟨name, kind, false, false, .everything⟩

def typed (name : String) (check : TypeCheck) : Parameter := of name (.typed check)

def any (name : String) : Parameter := of name .any

def typedList (name : String) (check : TypeCheck) : Parameter := of name (.typedList check)

def compatibleList (name : String) : Parameter := of name .compatibleList

def optional (p : Parameter) : Parameter := { p with isOptional := true }

def constant (p : Parameter) : Parameter := { p with isConstant := true }

/-- Takes values of a dimension only. -/
def ofDimension (p : Parameter) : Parameter := { p with phases := .upTo .dimension }

/-- The arguments that a parameter at a position takes. -/
def select {α : Type} (p : Parameter) (position : Nat) (args : List α) : List α :=
  match p.kind with
  | .typed _ => (args.drop position).take 1
  | .any => (args.drop position).take 1
  | .typedList _ => args.drop position
  | .compatibleList => args.drop position

end Parameter

inductive Function where
  | coalesce
  | iff
  | ifs
  | concat
  | merge
  | convertTimezone
  | upper
  | lower
  | trim
  | parse
  | contains
  | dateTrunc
  | dateHour
  | date
  | dateWeek
  | dateMonth
  | hourOfDay
  | dayOfWeek
  | weekOfYear
  | monthOfYear
  | year
  | toBool
  | toDate
  | toText
  | toNumber
  | dateDiff
  | override
  | cumulative
  | overall
  | now
  deriving DecidableEq

/-! ### Conditions

The arguments of a condition are pairs of a test and its outcome.  From three arguments on, an odd
last one is the outcome where no test holds. -/

namespace Condition

variable {α : Type}

def hasOtherwise (count : Nat) : Bool := 2 < count && count % 2 = 1

/-- How many tests a condition with so many arguments has. -/
def testCount (count : Nat) : Nat :=
  if hasOtherwise count then (count - 1) / 2 else (count + 1) / 2

/-- The first of a list and every second one after it. -/
def everySecond : List α → List α
  | [] => []
  | [a] => [a]
  | a :: _ :: rest => a :: everySecond rest

/-- The arguments before the outcome where no test holds. -/
def paired (args : List α) : List α :=
  if hasOtherwise args.length then args.dropLast else args

def otherwise? (args : List α) : Option α :=
  if hasOtherwise args.length then args.getLast? else none

def tests (args : List α) : List α := everySecond (paired args)

def positives (args : List α) : List α := everySecond ((paired args).drop 1)

/-- All outcomes, that of no test last. -/
def outcomes (args : List α) : List α := positives args ++ (otherwise? args).toList

/-- Tests with their outcomes; a test without one is left out. -/
def branches : List α → List (α × α)
  | a :: b :: rest => (a, b) :: branches rest
  | _ => []

end Condition

namespace Function

def all : List Function :=
  [.coalesce, .iff, .ifs, .concat, .merge, .convertTimezone, .upper, .lower, .trim, .parse,
    .contains, .dateTrunc, .dateHour, .date, .dateWeek, .dateMonth, .hourOfDay, .dayOfWeek,
    .weekOfYear, .monthOfYear, .year, .toBool, .toDate, .toText, .toNumber, .dateDiff, .override,
    .cumulative, .overall, .now]

def name : Function → String
  | .coalesce => "coalesce"
  | .iff => "iff"
  | .ifs => "ifs"
  | .concat => "concat"
  | .merge => "merge"
  | .convertTimezone => "convert_timezone"
  | .upper => "upper"
  | .lower => "lower"
  | .trim => "trim"
  | .parse => "parse"
  | .contains => "contains"
  | .dateTrunc => "date_trunc"
  | .dateHour => "date_hour"
  | .date => "date"
  | .dateWeek => "date_week"
  | .dateMonth => "date_month"
  | .hourOfDay => "hour_of_day"
  | .dayOfWeek => "day_of_week"
  | .weekOfYear => "week_of_year"
  | .monthOfYear => "month_of_year"
  | .year => "year"
  | .toBool => "to_bool"
  | .toDate => "to_date"
  | .toText => "to_text"
  | .toNumber => "to_number"
  | .dateDiff => "date_diff"
  | .override => "override"
  | .cumulative => "cumulative"
  | .overall => "overall"
  | .now => "now"

def ofName? (name : String) : Option Function := all.find? fun f => f.name = name

def worksIn (f : Function) (s : Setting) : Bool :=
  match f with
  | .merge => s = .taxon
  | .override => s = .taxon
  | .cumulative => s = .taxon
  | .overall => s = .taxon
  | .dateTrunc => s = .model
  | _ => true

/-- Whether missing arguments are left out when a call is made. -/
def dropsMissing (f : Function) : Bool := f = .coalesce || f = .merge

def isCondition (f : Function) : Bool := f = .iff || f = .ifs

/-- The part of a moment that a function cuts it down to. -/
def truncation? : Function → Option String
  | .dateHour => some "HOUR"
  | .date => some "DAY"
  | .dateWeek => some "WEEK"
  | .dateMonth => some "MONTH"
  | _ => none

/-- The part of a moment that a function takes out. -/
def extraction? : Function → Option String
  | .hourOfDay => some "HOUR"
  | .dayOfWeek => some "DOW"
  | .weekOfYear => some "WEEK"
  | .monthOfYear => some "MONTH"
  | .year => some "YEAR"
  | _ => none

/-- The parameters for tests and outcomes, numbered from one on. -/
def numberedTests (count : Nat) : List Parameter :=
  (List.range count).flatMap fun i =>
    [.typed ("condition_" ++ toString (i + 1)) .boolean,
     .any ("positive_outcome_" ++ toString (i + 1))]

/-- The parameters of a call with so many arguments. -/
def parameters (f : Function) (count : Nat) : List Parameter :=
  match f with
  | .coalesce => [.compatibleList "expression"]
  | .iff =>
    [.typed "condition" .boolean, .any "positive_outcome", (Parameter.any "negative_outcome").optional]
  | .ifs =>
    numberedTests (Condition.testCount count) ++ [(Parameter.any "negative_outcome").optional]
  | .concat => [(Parameter.typedList "expression" .any).optional]
  | .merge => [(Parameter.compatibleList "expression").optional]
  | .convertTimezone =>
    [(Parameter.typed "expression" .datetime).ofDimension,
     (Parameter.typed "timezone_from" .string).constant,
     (Parameter.typed "timezone_to" .string).constant.optional]
  | .parse =>
    [(Parameter.typed "expression" .string).ofDimension,
     (Parameter.typed "delimiter" .string).constant,
     (Parameter.typed "position" .integer).constant]
  | .contains =>
    [(Parameter.typed "expression" .string).ofDimension,
     (Parameter.typedList "searched_constant" .string).constant]
  | .dateTrunc =>
    [(Parameter.typed "expression" .datetime).ofDimension,
     (Parameter.typed "unit" .string).ofDimension]
  | .toText => [.any "expression"]
  | .toBool => [.typed "expression" .numberOrStringOrBoolean]
  | .toNumber =>
    [.typed "expression" .numberOrStringOrBoolean,
     (Parameter.typed "precision" .integer).optional.constant]
  | .toDate =>
    [.typed "expression" .numberOrStringOrDate, (Parameter.typed "format" .string).optional.constant]
  | .dateDiff =>
    [(Parameter.typed "time_unit" .string).constant,
     (Parameter.typed "start_time" .datetime).ofDimension,
     (Parameter.typed "end_time" .datetime).ofDimension]
  | .override =>
    [(Parameter.typed "original_dimension" .string).ofDimension,
     (Parameter.typed "override_mapping_slug" .string).constant,
     (Parameter.typed "include_missing_values" .boolean).constant.optional]
  | .cumulative =>
    [.typed "metric" .number, (Parameter.typed "time_dimension" .datetime).ofDimension]
  | .overall => [.typed "metric" .number]
  | .now => []
  | .upper => [(Parameter.typed "taxon" .string).ofDimension]
  | .lower => [(Parameter.typed "taxon" .string).ofDimension]
  | .trim => [(Parameter.typed "taxon" .string).ofDimension]
  | _ => [(Parameter.typed "taxon" .datetime).ofDimension]

/-- The phase of a call from the phases of its arguments. -/
def phase (f : Function) (args : List Phase) : Phase :=
  match f with
  | .coalesce => .metricPost
  | .cumulative => .metricPost
  | .overall => .metricPost
  | .merge => .dimension
  | .override => .dimension
  | .now => .any
  | .iff => .latestOf args
  | .ifs => .latestOf args
  | .concat => .latestOf args
  | .dateDiff => (args.drop 1).foldl .latest .dimensionDataSource
  | .toNumber => (args.take 1).foldl .latest .metricPre
  | .toText => (args.take 1).foldl .earliest .dimension
  | .toBool => (args.take 1).foldl .earliest .dimension
  | .toDate => (args.take 1).foldl .earliest .dimension
  | _ => (args.take 1).foldl .latest .dimensionDataSource

/-- The type of a call from the types of its arguments. -/
def type (f : Function) (args : List ValueType) : ValueType :=
  let first := ValueType.common (args.take 1)
  match f with
  | .iff => .varying (ValueType.common (Condition.outcomes args)).data
  | .ifs => .varying (ValueType.common (Condition.outcomes args)).data
  | .toNumber =>
    (args.head?.getD (.varying .unknown)).withData (if 1 < args.length then .numeric else .integer)
  | .concat => .varying .string
  | .parse => .varying .any
  | .convertTimezone => .varying first.data
  | .cumulative => .varying first.data
  | .overall => .varying first.data
  | .dateDiff => .varying (ValueType.common (args.drop 1)).data
  | .contains => .varying .boolean
  | .toBool => .varying .boolean
  | .toText => .varying .string
  | .dateTrunc => .varying .datetime
  | .dateHour => .varying .datetime
  | .date => .varying .datetime
  | .dateWeek => .varying .datetime
  | .dateMonth => .varying .datetime
  | .toDate => .varying .datetime
  | .hourOfDay => .varying .integer
  | .dayOfWeek => .varying .integer
  | .weekOfYear => .varying .integer
  | .monthOfYear => .varying .integer
  | .year => .varying .integer
  | .override => .varying .string
  | .now => .varying .datetime
  | _ => .varying (ValueType.common args).data

/-- Whether a call is missing, from whether its arguments are.  A condition is there as long as
one outcome can be reached. -/
def isMissing (f : Function) (args : List Bool) : Bool :=
  match f with
  | .iff => conditionIsMissing args
  | .ifs => conditionIsMissing args
  | .coalesce => args.isEmpty
  | .merge => args.isEmpty
  | .contains => (args.take 1).all id
  | _ => args.any id
where
  conditionIsMissing (args : List Bool) : Bool :=
    (Condition.otherwise? args).all id &&
      ((Condition.tests args).zip (Condition.positives args)).all fun (test, outcome) =>
        test || outcome

/-- The aggregation of a call from those of its arguments, in a taxon of a type. -/
def aggregation? (f : Function) (type : TaxonType) (args : List (Option Aggregation)) :
    Option Aggregation :=
  match f with
  | .iff => Aggregation.common? (.fallback type) (args.drop 1)
  | .ifs => Aggregation.common? (.fallback type) (Condition.everySecond (args.drop 1))
  | .parse => some .groupBy
  | .toText => some .groupBy
  | .toBool => some .groupBy
  | .toDate => some .groupBy
  | .toNumber => some .sum
  | .cumulative => args.head?.join
  | .overall => args.head?.join
  | _ => Aggregation.common? .notSet args

end Function

end SemanticLayer.Formula
