import SemanticLayer.Error
import SemanticLayer.Text.CharClass

/-!
# Aggregations

How the values of a taxon are combined when rows are grouped.  `Aggregation.common?` is the
aggregation of a formula over several parts: the one they agree on, if they do.
-/

namespace SemanticLayer

inductive SortOrder where
  | asc
  | desc
  deriving DecidableEq

/-- A taxon by which rows are sorted before the first or last is taken. -/
structure SortDimension where
  taxon : String
  order? : Option SortOrder
  deriving DecidableEq

inductive AggregationType where
  | sum
  | avg
  | min
  | max
  | countAll
  | countDistinct
  | groupBy
  | firstBy
  | lastBy
  | notSet
  deriving DecidableEq

namespace AggregationType

def all : List AggregationType :=
  [.sum, .avg, .min, .max, .countAll, .countDistinct, .groupBy, .firstBy, .lastBy, .notSet]

def name : AggregationType → String
  | .sum => "sum"
  | .avg => "avg"
  | .min => "min"
  | .max => "max"
  | .countAll => "count_all"
  | .countDistinct => "count_distinct"
  | .groupBy => "group_by"
  | .firstBy => "first_by"
  | .lastBy => "last_by"
  | .notSet => "not_set"

/-- Whether the aggregation takes no parameters and is set. -/
def isSimple : AggregationType → Bool
  | .sum => true
  | .avg => true
  | .min => true
  | .max => true
  | .countAll => true
  | .groupBy => true
  | _ => false

/-- Whether rows are sorted before the aggregation. -/
def needsSortDimensions : AggregationType → Bool
  | .firstBy => true
  | .lastBy => true
  | _ => false

/-- Whether the aggregation makes its taxon a dimension. -/
def isDimension : AggregationType → Bool
  | .lastBy => true
  | .firstBy => true
  | .groupBy => true
  | .max => true
  | .min => true
  | _ => false

/-- Whether values that are aggregated already can be summed further. -/
def isSummed : AggregationType → Bool
  | .sum => true
  | .countAll => true
  | .countDistinct => true
  | _ => false

end AggregationType

inductive Aggregation where
  | sum
  | avg
  | min
  | max
  | countAll
  | countDistinct (fields : List String)
  | groupBy
  | firstBy (sort : List SortDimension)
  | lastBy (sort : List SortDimension)
  /-- None declared; a fallback may take its place. -/
  | notSet
  deriving DecidableEq

/-- Parameters as they are declared, before they are held against the type. -/
inductive AggregationParams where
  | sortDimensions (sort : List SortDimension)
  | fields (names : List String)
  deriving DecidableEq

namespace Aggregation

def type : Aggregation → AggregationType
  | .sum => .sum
  | .avg => .avg
  | .min => .min
  | .max => .max
  | .countAll => .countAll
  | .countDistinct _ => .countDistinct
  | .groupBy => .groupBy
  | .firstBy _ => .firstBy
  | .lastBy _ => .lastBy
  | .notSet => .notSet

/-- The parameters an aggregation is declared with, if it takes any. -/
def params? : Aggregation → Option AggregationParams
  | .countDistinct fields => some (.fields fields)
  | .firstBy sort => some (.sortDimensions sort)
  | .lastBy sort => some (.sortDimensions sort)
  | _ => none

def countedFields (names : List String) : Result Aggregation :=
  if names.any fun n => (Text.trim n).isEmpty then
    .error (.invalidRequest .blankCountedField)
  else .ok (.countDistinct names)

/-- An aggregation from its declaration.  Parameters of one that takes none are dropped; distinct
values are counted over no fields by default; sorting needs its dimensions. -/
def declare (type : AggregationType) (params? : Option AggregationParams) : Result Aggregation :=
  match type, params? with
  | .sum, _ => .ok .sum
  | .avg, _ => .ok .avg
  | .min, _ => .ok .min
  | .max, _ => .ok .max
  | .countAll, _ => .ok .countAll
  | .groupBy, _ => .ok .groupBy
  | .notSet, _ => .ok .notSet
  | .countDistinct, none => .ok (.countDistinct [])
  | .countDistinct, some (.fields names) => countedFields names
  | .firstBy, some (.sortDimensions sort) => .ok (.firstBy sort)
  | .lastBy, some (.sortDimensions sort) => .ok (.lastBy sort)
  | t, none => .error (.invalidRequest (.missingAggregationParams t.name))
  | t, some _ => .error (.invalidRequest (.unsupportedAggregationParams t.name))

/-- The taxons that the parameters name. -/
def usedSlugs (a : Aggregation) : NameSet :=
  match a.params? with
  | some (.sortDimensions sort) => SortedSet.ofList (sort.map (·.taxon))
  | some (.fields names) => SortedSet.ofList names
  | none => .empty

def isSet (a : Aggregation) : Bool := a ≠ .notSet

/-- The aggregation that takes the place of one that is not set. -/
def fallback : TaxonType → Aggregation
  | .dimension => .groupBy
  | .metric => .sum

/-- What stands for an aggregation where none is declared. -/
def unset (useFallback : Bool) (t : TaxonType) : Aggregation :=
  if useFallback then fallback t else .notSet

/-- The aggregation that several agree on: none if one is missing or two that are set differ in
type, else the first that is set, else `unset`. -/
def common? (unset : Aggregation) (as : List (Option Aggregation)) : Option Aggregation :=
  match as.mapM id with
  | none => none
  | some as =>
    match as.filter isSet with
    | [] => some unset
    | a :: rest => if rest.all fun b => b.type = a.type then some a else none

end Aggregation

end SemanticLayer
