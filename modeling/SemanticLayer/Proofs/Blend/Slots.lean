import SemanticLayer.Proofs.Blend.AggregateScoping
import SemanticLayer.Proofs.Sql.Unions

/-!
# Slots of united rows

Each query of a union gives the same slots its own values: the taxons and labels of blended rows, the
aggregates and groups of a grouping set, and the two sides of an override mapping.
-/

namespace SemanticLayer

open Sql (Expr Query SelectItem)
open Formula (PreFormula)

/-- What a column of blended rows holds. -/
inductive BlendedSlot where
  | taxon (slug : String) (column : DataframeColumn)
  | label (name : String)

namespace BlendedSlot

def name : BlendedSlot → String
  | taxon _ c => c.name
  | label l => l

/-- What a dataframe has for a slot. -/
def value (df : Dataframe) : BlendedSlot → Expr
  | taxon slug c => if df.columns.contains slug then .col c.name else .null
  | label l => if l ∈ df.query.outputNames then .col l else .null

/-- The slots of some columns and labels, by name. -/
def all (columns : SortedMap String DataframeColumn) (labels : NameSet) : List BlendedSlot :=
  Sql.byName name (columns.toList.map (fun e => taxon e.1 e.2) ++ labels.toList.map label)

end BlendedSlot

/-- What a column of aggregated rows holds. -/
inductive AggregateSlot where
  | sum (formula : PreFormula)
  | group (label : String) (formula : Expr)

namespace AggregateSlot

def name : AggregateSlot → String
  | sum f => f.label
  | group l _ => l

/-- What a grouping set has for a slot. -/
def value (set : List String) : AggregateSlot → Expr
  | sum f => .sum f.formula
  | group l e =>
    if (SortedSet.ofList (set.map Identifier.safe)).contains l then e
    else .string Dataframe.leftOutMarker

/-- The slots of a plan, by name. -/
def all (plan : BlendPlan) : List AggregateSlot :=
  Sql.byName name (plan.summed.map sum ++ plan.groups.toList.map fun e => group e.1 e.2)

end AggregateSlot

/-- The two columns of an override mapping. -/
inductive MappingSlot where
  | value
  | replacement

namespace MappingSlot

def name : MappingSlot → String
  | value => OverrideUses.valueColumn
  | replacement => OverrideUses.replacementColumn

/-- What a pair has for a slot. -/
def entry (pair : Option String × Option String) : MappingSlot → Expr
  | value => (pair.1.map Expr.string).getD OverrideMapping.nullText
  | replacement => .string (pair.2.getD OverrideUses.nullMarker)

end MappingSlot

/-- Every dataframe fills the slots of the blended rows, in one order. -/
theorem Dataframe.branch_fills (columns : SortedMap String DataframeColumn) (labels : NameSet)
    (df : Dataframe) (index : Nat) :
    (df.branch columns labels index).Fills (BlendedSlot.all columns labels) BlendedSlot.name
      (BlendedSlot.value df) := by
  have filled := Query.fills_ofItems
    (columns.toList.map (fun e => BlendedSlot.taxon e.1 e.2) ++
      labels.toList.map BlendedSlot.label)
    BlendedSlot.name (BlendedSlot.value df)
  rw [List.map_append, List.map_map, List.map_map] at filled
  exact ⟨rfl, filled.2⟩

/-- Every grouping set fills the slots of the plan, in one order. -/
theorem Dataframe.groupingSetRows_fills (plan : BlendPlan) (set : List String) :
    (groupingSetRows plan set).Fills (AggregateSlot.all plan) AggregateSlot.name
      (AggregateSlot.value set) := by
  have filled := Query.fills_ofItems
    (plan.summed.map AggregateSlot.sum ++
      plan.groups.toList.map fun e => AggregateSlot.group e.1 e.2)
    AggregateSlot.name (AggregateSlot.value set)
  rw [List.map_append, List.map_map, List.map_map] at filled
  exact ⟨rfl, filled.2⟩

/-- Every pair of a mapping fills the mapping's two columns. -/
theorem OverrideMapping.row_fills (pair : Option String × Option String) :
    (row pair.1 pair.2).Fills [MappingSlot.value, MappingSlot.replacement] MappingSlot.name
      (MappingSlot.entry pair) :=
  ⟨rfl, rfl⟩

theorem Dataframe.branches_aligned (columns : SortedMap String DataframeColumn) (labels : NameSet)
    (dfs : List Dataframe) :
    Query.AreAligned (dfs.zipIdx.map fun (df, i) => df.branch columns labels i) := by
  refine Query.areAligned_of_fills (BlendedSlot.all columns labels) BlendedSlot.name ?_
  intro q hq
  obtain ⟨⟨df, i⟩, _, rfl⟩ := List.mem_map.1 hq
  exact ⟨_, df.branch_fills columns labels i⟩

theorem Dataframe.groupingSets_aligned (plan : BlendPlan) (rows : Query)
    (sets : List (List String)) :
    Query.AreAligned (sets.map fun set =>
      (groupingSetRows plan set).withTable groupingTable rows) := by
  refine Query.areAligned_of_fills (AggregateSlot.all plan) AggregateSlot.name ?_
  intro q hq
  obtain ⟨set, _, rfl⟩ := List.mem_map.1 hq
  exact ⟨_, groupingSetRows_fills plan set⟩

theorem OverrideMapping.rows_aligned (m : OverrideMapping) :
    Query.AreAligned (m.pairs.map fun (v, w) => row v w) := by
  refine Query.areAligned_of_fills [MappingSlot.value, MappingSlot.replacement] MappingSlot.name ?_
  intro q hq
  obtain ⟨pair, _, rfl⟩ := List.mem_map.1 hq
  exact ⟨_, row_fills pair⟩

end SemanticLayer
