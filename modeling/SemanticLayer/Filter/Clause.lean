import SemanticLayer.Json.Decode
import SemanticLayer.Slug

/-!
# Filters

A filter compares taxons with values or with each other; groups join filters by one logical
operator.  In JSON a filter is tagged by its kind.
-/

namespace SemanticLayer

inductive FilterOperator where
  | eq
  | ne
  | lt
  | le
  | gt
  | ge
  | like
  | notLike
  | likeAnyCase
  | notLikeAnyCase
  deriving DecidableEq

namespace FilterOperator

def all : List FilterOperator :=
  [.eq, .ne, .lt, .le, .gt, .ge, .like, .notLike, .likeAnyCase, .notLikeAnyCase]

def symbol : FilterOperator → String
  | .eq => "="
  | .ne => "!="
  | .lt => "<"
  | .le => "<="
  | .gt => ">"
  | .ge => ">="
  | .like => "LIKE"
  | .notLike => "NOT_LIKE"
  | .likeAnyCase => "ILIKE"
  | .notLikeAnyCase => "NOT_ILIKE"

/-- The operator's name in messages. -/
def name : FilterOperator → String
  | .eq => "Eq"
  | .ne => "Neq"
  | .lt => "Lt"
  | .le => "Lte"
  | .gt => "Gt"
  | .ge => "Gte"
  | .like => "Like"
  | .notLike => "NotLike"
  | .likeAnyCase => "ILike"
  | .notLikeAnyCase => "NotILike"

end FilterOperator

inductive FilterValue where
  | bool (b : Bool)
  | int (n : Int64)
  | float (x : Double)
  | text (s : String)
  deriving DecidableEq

inductive FilterClause where
  /-- Filters joined by AND, or by OR where `any` holds. -/
  | group (any : Bool) (clauses : List FilterClause) (negate : Bool)
  /-- A taxon held against a value, or against null. -/
  | value (taxon : String) (operator : FilterOperator) (value? : Option FilterValue)
  | taxons (taxon right : String) (operator : FilterOperator)
  /-- Whether a taxon is in a list of values. -/
  | among (taxon : String) (negated : Bool) (values : List FilterValue)
  deriving Inhabited

namespace FilterClause

def and (cs : List FilterClause) : FilterClause := .group false cs false

mutual

/-- The taxons a filter reads, in order. -/
def taxonList : FilterClause → List String
  | .group _ cs _ => taxonListAll cs
  | .value t _ _ => [t]
  | .taxons t r _ => [t, r]
  | .among t _ _ => [t]

def taxonListAll : List FilterClause → List String
  | [] => []
  | c :: cs => c.taxonList ++ taxonListAll cs

end

/-- The taxons a filter reads. -/
def slugs (c : FilterClause) : NameSet := .ofList c.taxonList

end FilterClause

open Decode

def FilterOperator.ofJson : Decoder FilterOperator :=
  oneOf (FilterOperator.all.map fun o => (o.symbol, o))

/-- A whole number that needs more than 64 bits is a double. -/
def FilterValue.ofJson : Decoder FilterValue
  | .bool b => .ok (.bool b)
  | .int n =>
    if Int64.minValue.toInt ≤ n ∧ n ≤ Int64.maxValue.toInt then .ok (.int (Int64.ofInt n))
    else .ok (.float (.withSign (n < 0) (.ofDecimal n.natAbs 0)))
  | .real x => .ok (.float x)
  | .str s => .ok (.text s)
  | _ => .error .malformed

def FilterValue.toJson : FilterValue → Json
  | .bool b => .bool b
  | .int n => .int n.toInt
  | .float x => .real x
  | .text s => .str s

namespace FilterClause

def anyOfJson : Decoder Bool := oneOf [("AND", false), ("OR", true)]

def negatedOfJson : Decoder Bool := oneOf [("IN", false), ("NOT_IN", true)]

/-- The fields of each kind of filter that holds no other filters. -/
def fieldNames (kind : String) : List String :=
  match kind with
  | "taxon_value" => ["taxon", "operator", "value"]
  | "taxon_taxon" => ["taxon", "right_taxon", "operator"]
  | "taxon_array" => ["taxon", "operator", "value"]
  | _ => []

def ofFields (kind : String) (fs : Fields) : Except DecodeError FilterClause := do
  match kind with
  | "taxon_value" =>
    let operator ← present (← fs.get? "operator" FilterOperator.ofJson)
    let value? ← fs.getNullable "value" FilterValue.ofJson
    return .value (← present (← fs.get? "taxon" string)) operator value?
  | "taxon_taxon" =>
    let operator ← present (← fs.get? "operator" FilterOperator.ofJson)
    let right ← present (← fs.get? "right_taxon" string)
    return .taxons (← present (← fs.get? "taxon" string)) right operator
  | "taxon_array" =>
    let negated ← present (← fs.get? "operator" negatedOfJson)
    let values ← present (← fs.get? "value" (list FilterValue.ofJson))
    return .among (← present (← fs.get? "taxon" string)) negated values
  | _ => throw .malformed

mutual

def ofJson : Json → Except DecodeError FilterClause
  | .obj fields => do
    let fs : Fields := fields
    match ← present (← fs.get? "type" string) with
    | "group" =>
      let any ← present (← fs.get? "logical_operator" anyOfJson)
      let clauses ← present (← groupClauses fields)
      return .group any clauses (← fs.getD "negate" bool false)
    | kind => ofFields kind fs
  | .arr [.str "group", operator, .arr items] => do
    return .group (← anyOfJson operator) (← ofJsonEach items) false
  | .arr [.str "group", operator, .arr items, negate] => do
    return .group (← anyOfJson operator) (← ofJsonEach items) (← bool negate)
  | .arr (.str kind :: items) => do
    let names := fieldNames kind
    if names.length < items.length then throw .malformed
    ofFields kind (names.zip items)
  | _ => .error .malformed

def ofJsonEach : List Json → Except DecodeError (List FilterClause)
  | [] => return []
  | j :: js => return (← ofJson j) :: (← ofJsonEach js)

/-- The filters of a group. -/
def groupClauses : List (String × Json) → Except DecodeError (Option (List FilterClause))
  | [] => return none
  | (name, j) :: fields =>
    if name = "clauses" then
      match j with
      | .arr items => return some (← ofJsonEach items)
      | _ => throw .malformed
    else groupClauses fields

end

mutual

def toJson : FilterClause → Json
  | .group any cs negate =>
    .ofFields
      [("type", .str "group"), ("logical_operator", .str (if any then "OR" else "AND")),
       ("clauses", .arr (toJsonEach cs)), ("negate", .bool negate)]
  | .value t o v? =>
    .ofFields
      [("type", .str "taxon_value"), ("taxon", .str t), ("operator", .str o.symbol),
       ("value", Json.ofOption FilterValue.toJson v?)]
  | .taxons t r o =>
    .ofFields
      [("type", .str "taxon_taxon"), ("taxon", .str t), ("right_taxon", .str r),
       ("operator", .str o.symbol)]
  | .among t negated vs =>
    .ofFields
      [("type", .str "taxon_array"), ("taxon", .str t),
       ("operator", .str (if negated then "NOT_IN" else "IN")),
       ("value", .arr (vs.map FilterValue.toJson))]

def toJsonEach : List FilterClause → List Json
  | [] => []
  | c :: cs => c.toJson :: toJsonEach cs

end

end FilterClause

end SemanticLayer
