import SemanticLayer.Override.Mapping
import SemanticLayer.Override.Use
import SemanticLayer.Sql.Query

/-!
# Queries over override mappings

A mapping is written as a table of constant rows, and each use joins that table to the query.
-/

namespace SemanticLayer

open Sql

namespace OverrideMapping

def nullText : Expr := .cast .null .text

/-- One row: a value and its replacement. -/
def row (value? replacement? : Option String) : Query :=
  Query.empty.select
    [((value?.map Expr.string).getD nullText).named OverrideUses.valueColumn,
     (Expr.string (replacement?.getD OverrideUses.nullMarker)).named
       OverrideUses.replacementColumn]

/-- The table of a mapping; without pairs it has columns but no row. -/
def query (m : OverrideMapping) : Query :=
  if m.pairs.isEmpty then
    (Query.empty.select
      [nullText.named OverrideUses.valueColumn,
       nullText.named OverrideUses.replacementColumn]).filter (.bool false)
  else .unionAll (m.pairs.map fun (v, w) => row v w)

end OverrideMapping

/-- The tables of the mappings that a request uses, by slug. -/
abbrev OverrideTables := SortedMap String Query

namespace OverrideTables

/-- Loads the mappings of all uses, if they are not too many. -/
def load (ms : List OverrideMapping) (company : String) (uses : List OverrideKey)
    (maxMappings : Nat) : Result OverrideTables :=
  let slugs : NameSet := .ofList (uses.map (·.mapping))
  if slugs.isEmpty then .ok .empty
  else if maxMappings < slugs.size then .error (.tooManyMappings slugs.size maxMappings)
  else do
    let loaded ← OverrideMapping.load ms slugs company
    return .ofList (loaded.map fun m => (m.slug, m.query))

/-- Joins one use: rows whose column has a replacement, or all rows if the others stay. -/
def joinUse (tables : OverrideTables) (q : Query) (key : OverrideKey) (value : Expr) :
    Result Query :=
  match tables.get? key.mapping with
  | none => .error (.defect (.mappingNotLoaded key.mapping))
  | some body =>
    let mapped := Expr.tableCol key.identifier OverrideUses.valueColumn
    let sameValue := (mapped.eq value).or ((Expr.isNull mapped false).and (.isNull value false))
    let name := OverrideKey.tableName key.mapping
    .ok ((q.join (if key.keepsMissing then .left else .inner)
      ((TableRef.named name).withAlias key.identifier) sameValue).withTable name body)

/-- Joins the tables of all uses in their order.  Of equal uses the last one's column counts. -/
def join (tables : OverrideTables) (q : Query) (uses : List (OverrideKey × Expr)) : Result Query :=
  (SortedMap.ofList uses).toList.foldlM (fun q (key, value) => tables.joinUse q key value) q

end OverrideTables

end SemanticLayer
