import SemanticLayer.Proofs.Sql.Scoping

/-!
# Aligned unions

A union takes its columns by place, so its queries have to offer the same columns in the same order.
What each way to make a query from tables and other queries keeps, holds of all queries that are
built so.

* `Query.AreAligned`: the queries of a union offer the same names, place by place;
* `Query.Fills`: a selection that gives each of some slots a value, in the slots' order;
* `SelectItem.sorted_slots`: items sort like their slots, whatever the values are;
* `Query.IsAligned`: a union of aligned queries, or no union;
* `Query.IsBuilt`: the ways to build a query, as rules;
* `Query.IsBuilt.readsOnly`: built queries read nothing but the tables they are built over;
* `Query.IsBuilt.all_isAligned`: all unions in them are aligned.
-/

namespace SemanticLayer.Sql

/-- Slots by their names, those of one name in the order given. -/
def byName {α : Type} (name : α → String) (slots : List α) : List α :=
  slots.mergeSort fun a b => compare (name a) (name b) != Ordering.gt

/-- Items sort like their slots: the order depends on the names only. -/
theorem SelectItem.sorted_slots {α : Type} (slots : List α) (name : α → String)
    (value : α → Expr) :
    sorted (slots.map fun s => (value s).named (name s)) =
      (byName name slots).map fun s => (value s).named (name s) := by
  unfold sorted byName
  rw [List.map_mergeSort]
  intro a _ b _
  rfl

namespace Query

/-- Whether the queries of a union offer the same columns: no unions themselves, they name all their
items, with the same names in the same order. -/
structure AreAligned (qs : List Query) : Prop where
  same_names : ∀ a ∈ qs, ∀ b ∈ qs, a.outputNames = b.outputNames
  all_named : ∀ a ∈ qs, a.union? = none ∧ ∀ i ∈ a.items, i.outputName?.isSome = true

/-- Whether a selection gives each slot a value, in the order of the slots and under their names. -/
def Fills {α : Type} (slots : List α) (name : α → String) (value : α → Expr) (q : Query) : Prop :=
  q.union? = none ∧ q.items = slots.map fun s => (value s).named (name s)

variable {α : Type} {slots : List α} {name : α → String}

theorem Fills.outputNames {value : α → Expr} {q : Query} (h : q.Fills slots name value) :
    q.outputNames = slots.map name := by
  rw [outputNames_of_select h.1, h.2]
  exact filterMap_outputName?_named slots value name

/-- Selections that fill the same slots are aligned, whatever their values are. -/
theorem areAligned_of_fills (slots : List α) (name : α → String) {qs : List Query}
    (h : ∀ q ∈ qs, ∃ value, q.Fills slots name value) : AreAligned qs := by
  refine ⟨?_, ?_⟩
  · intro a ha b hb
    obtain ⟨_, fa⟩ := h a ha
    obtain ⟨_, fb⟩ := h b hb
    rw [fa.outputNames, fb.outputNames]
  · intro a ha
    obtain ⟨value, select, items⟩ := h a ha
    refine ⟨select, ?_⟩
    intro i hi
    rw [items] at hi
    obtain ⟨s, _, rfl⟩ := List.mem_map.1 hi
    rfl

/-- Sorted items fill their slots, sorted by name. -/
theorem fills_ofItems (slots : List α) (name : α → String) (value : α → Expr) :
    (ofItems (slots.map fun s => (value s).named (name s))).Fills (byName name slots) name value :=
  ⟨rfl, SelectItem.sorted_slots slots name value⟩

/-- Whether a query is no union, or one of aligned queries. -/
def IsAligned (q : Query) : Prop := ∀ qs, q.union? = some qs → AreAligned qs

theorem isAligned_of_select {q : Query} (h : q.union? = none) : q.IsAligned := by
  intro qs hqs
  rw [h] at hqs
  cases hqs

/-- A selection has the unions of the queries it is made from. -/
theorem all_isAligned_iff {q : Query} (h : q.union? = none) :
    q.All IsAligned ↔ ∀ s ∈ q.children, s.All IsAligned :=
  all_iff.trans (and_iff_right (isAligned_of_select h))

theorem all_isAligned_unionAll {qs : List Query} (h : AreAligned qs)
    (below : ∀ q ∈ qs, q.All IsAligned) : (unionAll qs).All IsAligned := by
  have union : ({ empty with union? := some qs } : Query).All IsAligned := by
    refine all_iff.2 ⟨?_, below⟩
    rintro _ ⟨⟩
    exact h
  unfold unionAll
  split
  · exact below _ (List.mem_singleton_self _)
  · exact union

end Query

/-! ## Built queries -/

namespace Query

/-- Whether a query is built over some tables. -/
inductive IsBuilt (table : List String → Prop) : Query → Prop
  | constants (items : List SelectItem) : IsBuilt table (empty.select items)
  | tables {q : Query} (tables_eq : q.tables = []) (union_eq : q.union? = none)
      (sources : ∀ source ∈ q.sources, ∃ parts, source = .table parts ∧ table parts) :
      IsBuilt table q
  | fromQuery {s : Query} (h : IsBuilt table s) (items : List SelectItem) (name : String) :
      IsBuilt table ((empty.select items).fromTable (.subquery s name))
  /-- A selection from a common table of its own. -/
  | fromCommon {s : Query} (h : IsBuilt table s) (name : String) (items : List SelectItem)
      (grouping : List Expr) : IsBuilt table
        ((((empty.select items).fromTable (.named name)).groupBy grouping).withTable name s)
  | joinQuery {q s : Query} (hq : IsBuilt table q) (hs : IsBuilt table s) (kind : JoinKind)
      (name : String) (on : Expr) : IsBuilt table (q.join kind (.subquery s name) on)
  /-- A join with a common table of the query. -/
  | joinCommon {q s : Query} (hq : IsBuilt table q) (hs : IsBuilt table s) (kind : JoinKind)
      (name shown : String) (on : Expr) : IsBuilt table
        ((q.join kind ((TableRef.named name).withAlias shown) on).withTable name s)
  | union {qs : List Query} (aligned : AreAligned qs) (h : ∀ q ∈ qs, IsBuilt table q) :
      IsBuilt table (unionAll qs)
  /-- The other clauses are free. -/
  | clauses {q s : Query} (h : IsBuilt table q) (ht : s.tables = q.tables)
      (hs : s.source? = q.source?) (hj : s.joins = q.joins) (hu : s.union? = q.union?) :
      IsBuilt table s

variable {table : List String → Prop} {q : Query}

theorem IsBuilt.readsOnly (h : q.IsBuilt table) : q.ReadsOnly table := by
  induction h with
  | constants items => exact readsOnly_noSource items
  | tables ht hu sources => exact readsOnly_ofTables ht hu sources
  | fromQuery _ items name ih => exact ih.fromSubquery items name
  | fromCommon _ name items grouping ih => exact readsOnly_fromCommon ih name items grouping
  | joinQuery _ _ kind name on hq hs => exact hq.joinSubquery hs kind name on
  | joinCommon _ _ kind name shown on hq hs => exact hq.joinCommon hs kind name shown on
  | union _ _ ih => exact readsOnly_unionAll ih
  | clauses _ ht hs hj hu ih => exact ih.of_same_sources ht hs hj hu

theorem IsBuilt.all_isAligned (h : q.IsBuilt table) : q.All IsAligned := by
  induction h with
  | constants items => exact (all_isAligned_iff rfl).2 fun _ hc => (List.not_mem_nil hc).elim
  | @tables q ht hu sources =>
    refine (all_isAligned_iff hu).2 ?_
    intro c hc
    rw [children_ofTables ht hu fun source hs => (sources source hs).imp fun _ => And.left] at hc
    cases hc
  | fromQuery _ items name ih =>
    refine (all_isAligned_iff rfl).2 ?_
    intro c hc
    rcases List.mem_singleton.1 hc with rfl
    exact ih
  | fromCommon _ name items grouping ih =>
    refine (all_isAligned_iff rfl).2 ?_
    intro c hc
    rcases List.mem_singleton.1 hc with rfl
    exact ih
  | joinQuery _ _ kind name on hq hs =>
    obtain ⟨own, below⟩ := all_iff.1 hq
    refine all_iff.2 ⟨own, ?_⟩
    intro c hc
    rcases mem_children_joinSubquery.1 hc with hc | rfl
    · exact below c hc
    · exact hs
  | joinCommon _ _ kind name shown on hq hs =>
    obtain ⟨own, below⟩ := all_iff.1 hq
    refine all_iff.2 ⟨own, ?_⟩
    intro c hc
    rcases mem_children_joinCommon.1 hc with hc | rfl
    · exact below c hc
    · exact hs
  | union aligned _ ih => exact all_isAligned_unionAll aligned ih
  | clauses _ ht hs hj hu ih =>
    obtain ⟨own, below⟩ := all_iff.1 ih
    refine all_iff.2 ⟨?_, ?_⟩
    · intro qs hqs
      exact own qs (hu ▸ hqs)
    · rw [children_congr ht hs hj hu]
      exact below

end Query

end SemanticLayer.Sql
