import SemanticLayer.Blend.Dataframe
import SemanticLayer.Proofs.Collections.Entries
import SemanticLayer.Proofs.Sql.Scoping

/-!
# Scoping of dataframes

What it means for the query of a dataframe to be in scope, and which columns it offers.  Queries of
data sources stand for themselves: what they read are the tables of models.

* `Sql.Query.IsScoped`: all columns are in scope, in a query and those within it;
* `Sql.Query.isScoped_unionAll`, `isScoped_selection`, `isScoped_constant`: for the shapes of query
  that stages build;
* `Dataframe.names`, `Dataframe.IsNamed`: the columns of a dataframe, and how they are named.
-/

namespace SemanticLayer

open Sql (Expr Query SelectItem RowScope)

namespace Sql.Query

/-- The name under which a source's query reads the rows of its models. -/
def sourceTable : String := "source_query"

/-- Whether a query is that of one data source. -/
def IsSource (q : Query) : Prop := q.source?.bind (·.alias?) = some sourceTable

instance : DecidablePred IsSource := fun q =>
  inferInstanceAs (Decidable (q.source?.bind (·.alias?) = some sourceTable))

/-- Whether all columns are in scope, in a query and all queries within it above those of the data
sources. -/
def IsScoped (q : Query) : Prop := q.AllAbove IsSource IsResolved

theorem isScoped_iff {q : Query} (h : ¬ q.IsSource) :
    q.IsScoped ↔ q.IsResolved ∧ ∀ c ∈ q.children, c.IsScoped := allAbove_iff h

theorem isScoped_unionAll {qs : List Query} :
    (unionAll qs).IsScoped ↔ ∀ q ∈ qs, q.IsScoped := by
  refine allAbove_unionAll ?_ ?_
  · intro us source
    cases source
  · intro us
    constructor
    · intro e he
      cases he
    · intro j hj
      cases hj

/-- A selection from one query, whose columns are the items and those that group its rows. -/
theorem isScoped_selection {items : List SelectItem} {q : Query} {table : String}
    {grouping : List Expr} {order : List (Ordered Expr)} {limit? offset? : Option UInt64}
    (other : table ≠ sourceTable) :
    (Query.mk [] (ofItems items).items (some (.subquery q table)) [] none grouping order limit?
        offset? none).IsScoped ↔
      ((∀ i ∈ items, (RowScope.of table q.outputNames).Fits i.expr) ∧
        ∀ e ∈ grouping, (RowScope.of table q.outputNames).Fits e) ∧ q.IsScoped := by
  generalize hs : Query.mk [] (ofItems items).items (some (.subquery q table)) [] none grouping
    order limit? offset? none = s
  have above : ¬ s.IsSource := by
    subst hs
    exact fun source => other (Option.some.inj source)
  have children : s.children = [q] := by
    subst hs
    rfl
  have exprs : s.exprs = (ofItems items).items.map (·.expr) ++ grouping := by
    subst hs
    exact congrArg (· ++ grouping) (List.append_nil _)
  have joins : s.joins = [] := by
    subst hs
    rfl
  have scope : s.scope = .of table q.outputNames := by
    subst hs
    rfl
  rw [isScoped_iff above]
  unfold IsResolved
  rw [children, exprs, joins, scope, List.forall_mem_append, List.forall_mem_map,
    List.forall_mem_singleton]
  have same : (∀ i ∈ (ofItems items).items, (RowScope.of table q.outputNames).Fits i.expr) ↔
      ∀ i ∈ items, (RowScope.of table q.outputNames).Fits i.expr :=
    forall_congr' fun i => imp_congr_left (items_ofItems_perm items).mem_iff
  rw [← same]
  refine and_congr_left fun _ => and_iff_left ?_
  intro j hj
  cases hj

/-- A selection without rows to read, and without columns. -/
theorem isScoped_constant {q : Query} (source : q.source? = none) (tables : q.tables = [])
    (joins : q.joins = []) (union : q.union? = none) (h : ∀ e ∈ q.exprs, e.columns = []) :
    q.IsScoped := by
  have above : ¬ q.IsSource := by
    unfold IsSource
    rw [source]
    exact fun h => nomatch h
  have children : q.children = [] := by
    unfold children sources
    rw [source, tables, joins, union]
    rfl
  rw [isScoped_iff above, children]
  refine ⟨⟨?_, ?_⟩, ?_⟩
  · intro e he c hc
    rw [h e he] at hc
    cases hc
  · intro j hj
    rw [joins] at hj
    cases hj
  · intro c hc
    cases hc

end Sql.Query

namespace Dataframe

/-- The columns that a dataframe offers. -/
abbrev names (df : Dataframe) : List String := df.query.outputNames

/-- The columns of its taxons. -/
abbrev taxonNames (df : Dataframe) : List String := df.columns.values.map (·.name)

/-- Whether the column of each taxon goes by the taxon's slug. -/
def IsNamed (df : Dataframe) : Prop :=
  ∀ slug c, (slug, c) ∈ df.columns.toList → c.name = Identifier.safe slug ∧ c.taxon = slug

end Dataframe

/-- Items that stand under the names they show. -/
theorem outputNames_values {items : SortedMap String SelectItem}
    (h : ∀ name i, (name, i) ∈ items.toList → i.outputName? = some name) :
    items.values.filterMap SelectItem.outputName? = items.keys := by
  unfold SortedMap.values SortedMap.keys
  rw [List.filterMap_map, ← List.filterMap_eq_map]
  exact List.filterMap_congr fun e he => h e.1 e.2 he

end SemanticLayer
