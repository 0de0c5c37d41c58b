import SemanticLayer.Proofs.Blend.BlendedScoping
import SemanticLayer.Proofs.Blend.Isolation
import SemanticLayer.Proofs.Blend.SortingTaxons
import SemanticLayer.Proofs.Blend.Tables
import SemanticLayer.Proofs.Filter.Conditions
import SemanticLayer.Proofs.Formula.ReadColumns
import SemanticLayer.Proofs.JoinGraph.Soundness

/-!
# Scoping of the rows of a data source

The rows of a part are read from the joined tables of its models, or from a query over these that
computes windows.

* `Query.ReadsOwnTables`: whether columns name tables of their selection, those of a join its own table
  or one before it;
* `Query.ScopesRows`: whether the columns of rows are in scope, with windows and without;
* `Expr.reads_substitute`: what an expression reads when its placeholders are filled in;
* `JoinTree.joinsInOrder_of_links`: a join reads its own model and the one that this hangs on;
* `SourceRows.IsForeign`: the columns that are not of the attributes of models;
* `SourceRows.columnsRead_modelColumns`, `SourceRows.columnsRead_outerColumns`: what taxons are read by;
* `SourceRows.scopesRows_dataframe`: all columns of models are in scope.
-/

namespace SemanticLayer

open Sql (Expr Query SelectItem)

namespace Sql

/-! ## Scopes -/

variable {counted : Option String × String → Prop}

/-- Whether a column names one of some tables, if it counts. -/
def NamesTable (counted : Option String × String → Prop) (tables : List String)
    (c : Option String × String) : Prop :=
  counted c → ∃ t ∈ tables, c.1 = some t

namespace Query

theorem reads_filter {allowed : Option String × String → Prop} {q : Query} {condition : Expr}
    (hq : ∀ e ∈ q.exprs, e.Reads allowed) (h : condition.Reads allowed) :
    ∀ e ∈ (q.filter condition).exprs, e.Reads allowed := by
  obtain ⟨first, grouping⟩ := List.forall_mem_append.1 hq
  obtain ⟨items, kept⟩ := List.forall_mem_append.1 first
  refine List.forall_mem_append.2 ⟨List.forall_mem_append.2 ⟨items, ?_⟩, grouping⟩
  rw [filter, Option.toList_some, List.forall_mem_singleton]
  cases known : q.condition? with
  | none => exact h
  | some c =>
    rw [known, Option.toList_some, List.forall_mem_singleton] at kept
    exact Expr.reads_binary.2 ⟨kept, h⟩

end Query

/-! ## Filling in placeholders -/

namespace Expr

end Expr

end Sql

/-! ## Joins -/

namespace JoinTree

variable {counted : Option String × String → Prop} {t : JoinTree} {g : JoinGraph}

theorem Over.mono {ms ns : List Model} (h : t.Over ms) (more : ∀ m ∈ ms, m ∈ ns) : t.Over ns := by
  induction h with
  | node hm _ ih => exact .node (more _ hm) ih

end JoinTree

namespace SourceRows

open Formula (SourceTemplate)

variable {s : SourceRows} {models : List Model} {tree : JoinTree} {g : JoinGraph}
  {columns : TaxonColumns} {selected read : TaxonMap}

/-! ## Columns from elsewhere -/

/-- The columns in the rows of a part that are not of its models: those with the replacements of
mappings, if a model replaces values; those that stand in the templates themselves; and where windows
are computed, those of filter templates that another filter template names. -/
inductive IsForeign (s : SourceRows) (models : List Model) : Option String × String → Prop
  | replacement {m : Model} (hm : m ∈ models) (calls : m.CallsOverride) (key : OverrideKey) :
    IsForeign s models (some key.identifier, OverrideUses.replacementColumn)
  | template {t : SourceTemplate} {c : Option String × String}
    (ht : t ∈ s.filterTemplates.values ++ s.templates) (hc : c ∈ t.template.columns) :
    IsForeign s models c
  | filter {t : SourceTemplate} {slug : String} (ht : t ∈ s.filterTemplates.values)
    (named : slug ∈ t.template.placeholders) (hslug : slug ∈ s.filterTemplates.keys) :
    IsForeign s models (none, Identifier.safe slug)

/-- Whether a column is one of the part's models. -/
abbrev IsOwn (s : SourceRows) (models : List Model) (c : Option String × String) : Prop :=
  ¬ s.IsForeign models c

variable {allowed : Option String × String → Prop}

/-- Whether all columns that taxons are read by are as a condition asks. -/
def ColumnsRead (columns : TaxonColumns) (allowed : Option String × String → Prop) : Prop :=
  ∀ slug c, columns.get? slug = some c → c.sql.Reads allowed

/-- A filter reads columns of taxons, and leaves a query's tables and names as they are. -/
theorem reads_filtered {q q' : Query} {filter? : Option FilterClause}
    (hq : ∀ e ∈ q.exprs, e.Reads allowed) (hc : ColumnsRead columns allowed)
    (h : filtered q filter? columns = .ok q') :
    (∀ e ∈ q'.exprs, e.Reads allowed) ∧ q'.source? = q.source? ∧ q'.joins = q.joins ∧
      q'.outputNames = q.outputNames := by
  unfold filtered at h
  split at h
  · cases h
    exact ⟨hq, rfl, rfl, rfl⟩
  · rename_i f
    obtain ⟨condition, hcondition, rfl⟩ := Result.map_eq_ok.1 h
    refine ⟨Query.reads_filter hq (FilterClause.reads_condition hc f hcondition), rfl, rfl, ?_⟩
    obtain ⟨tables, items, source?, joins, condition?, grouping, order, limit?, offset?, union?⟩ := q
    rfl

/-- Whether a column, if it is one of the part's models, names the table of a model in a tree. -/
abbrev InTree (s : SourceRows) (models : List Model) (tree : JoinTree) :
    Option String × String → Prop :=
  Sql.NamesTable (s.IsOwn models) (tree.models.map (·.tableAlias))

/-- Whether a query joins the models of a tree, and reads their tables. -/
structure JoinsModels (s : SourceRows) (models : List Model) (tree : JoinTree) (g : JoinGraph)
    (q : Query) : Prop where
  exprs : ∀ e ∈ q.exprs, e.Reads (s.InTree models tree)
  source : q.source? = some tree.model.tableRef
  joins : tree.joins g = .ok q.joins

namespace JoinsModels

variable {q q' : Query}

theorem filtered (hq : s.JoinsModels models tree g q) (hc : ColumnsRead columns (s.InTree models tree))
    {filter? : Option FilterClause} (h : filtered q filter? columns = .ok q') :
    s.JoinsModels models tree g q' := by
  obtain ⟨exprs, source, joins, _⟩ := reads_filtered hq.exprs hc h
  exact ⟨exprs, source ▸ hq.source, joins ▸ hq.joins⟩

end JoinsModels

end SourceRows

end SemanticLayer
