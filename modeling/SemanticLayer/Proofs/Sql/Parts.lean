import Mathlib.Data.List.Basic
import SemanticLayer.Sql.Query

/-!
# Queries within queries

`Query.parts` lists a query with everything nested in it: the bodies of its common tables, the
queries it reads from or joins, and the members of its union.

* `parts_eq`, `all_iff`: what holds of all parts holds of the query and of all parts of its
  children;
* `name_mem_commonNames`: a common table of any part is one of the written statement;
* `ReadsOnly`: which tables a query may read, with a lemma for each way to build a query.
-/

namespace SemanticLayer.Sql

/-- The name of a table that is no query. -/
def TableSource.name? : TableSource → Option (List String)
  | .table parts => some parts
  | .subquery _ => none

def TableSource.query? : TableSource → Option Query
  | .table _ => none
  | .subquery q => some q

namespace Query

/-- What a selection reads from, joins included. -/
def sources (q : Query) : List TableSource :=
  (q.source?.toList ++ q.joins.map (·.table)).map (·.source)

/-- The queries that stand directly in another. -/
def children (q : Query) : List Query :=
  q.tables.map (·.query) ++ q.sources.filterMap TableSource.query? ++ q.union?.getD []

/-- The names of the tables that a selection itself reads. -/
def readNames (q : Query) : List (List String) := q.sources.filterMap TableSource.name?

mutual

/-- A query and all queries within it. -/
def parts : Query → List Query
  | ⟨tables, items, source?, joins, condition?, grouping, order, limit?, offset?, union?⟩ =>
    ⟨tables, items, source?, joins, condition?, grouping, order, limit?, offset?, union?⟩ ::
      (partsOfTables tables ++ partsOfSource? source? ++ partsOfJoins joins ++ partsOfUnion union?)

def partsOfTables : List CommonTable → List Query
  | [] => []
  | ⟨_, body⟩ :: ts => body.parts ++ partsOfTables ts

def partsOfSource? : Option TableRef → List Query
  | none => []
  | some t => partsOfRef t

def partsOfRef : TableRef → List Query
  | ⟨source, _⟩ => partsOfSource source

def partsOfSource : TableSource → List Query
  | .table _ => []
  | .subquery q => q.parts

def partsOfJoins : List Join → List Query
  | [] => []
  | ⟨_, table, _⟩ :: js => partsOfRef table ++ partsOfJoins js

def partsOfUnion : Option (List Query) → List Query
  | none => []
  | some qs => partsOfQueries qs

def partsOfQueries : List Query → List Query
  | [] => []
  | q :: qs => q.parts ++ partsOfQueries qs

end

theorem partsOfTables_eq (ts : List CommonTable) :
    partsOfTables ts = (ts.map (·.query)).flatMap parts := by
  induction ts with
  | nil => rfl
  | cons t ts ih =>
    obtain ⟨_, body⟩ := t
    rw [partsOfTables, ih, List.map_cons, List.flatMap_cons]

theorem partsOfRef_eq (t : TableRef) :
    partsOfRef t = ([t.source].filterMap TableSource.query?).flatMap parts := by
  obtain ⟨source, _⟩ := t
  cases source with
  | table _ => rfl
  | subquery q => simp [partsOfRef, partsOfSource, TableSource.query?]

theorem partsOfJoins_eq (js : List Join) :
    partsOfJoins js =
      ((js.map (·.table.source)).filterMap TableSource.query?).flatMap parts := by
  induction js with
  | nil => rfl
  | cons j js ih =>
    obtain ⟨_, table, _⟩ := j
    rw [partsOfJoins, ih, partsOfRef_eq, ← List.flatMap_append, ← List.filterMap_append]
    rfl

theorem partsOfQueries_eq (qs : List Query) : partsOfQueries qs = qs.flatMap parts := by
  induction qs with
  | nil => rfl
  | cons q qs ih => rw [partsOfQueries, ih, List.flatMap_cons]

theorem parts_eq (q : Query) : q.parts = q :: q.children.flatMap parts := by
  obtain ⟨tables, items, source?, joins, c?, grouping, order, l?, o?, union?⟩ := q
  have source : partsOfSource? source? =
      ((source?.toList.map (·.source)).filterMap TableSource.query?).flatMap parts := by
    cases source? with
    | none => rfl
    | some t => exact partsOfRef_eq t
  have union : partsOfUnion union? = (union?.getD []).flatMap parts := by
    cases union? with
    | none => rfl
    | some qs => exact partsOfQueries_eq qs
  rw [parts, partsOfTables_eq, source, partsOfJoins_eq, union]
  simp [children, sources, List.append_assoc]

theorem parts_of_child {q c s : Query} (hc : c ∈ q.children) (hs : s ∈ c.parts) : s ∈ q.parts := by
  rw [parts_eq]
  exact List.mem_cons_of_mem _ (List.mem_flatMap.2 ⟨c, hc, hs⟩)

theorem mem_parts_self (q : Query) : q ∈ q.parts := by
  rw [parts_eq]
  exact List.mem_cons_self ..

theorem mem_parts_unionAll {qs : List Query} {q : Query} (hq : q ∈ qs) :
    q ∈ (unionAll qs).parts := by
  unfold unionAll
  split
  · cases List.mem_singleton.1 hq
    exact mem_parts_self q
  · exact parts_of_child hq (mem_parts_self q)

/-- Whether a query and all queries within it have a property. -/
def All (p : Query → Prop) (q : Query) : Prop := ∀ s ∈ q.parts, p s

theorem all_iff {p : Query → Prop} {q : Query} : q.All p ↔ p q ∧ ∀ s ∈ q.children, s.All p := by
  unfold All
  rw [parts_eq]
  simp only [List.mem_cons, List.mem_flatMap, forall_eq_or_imp, forall_exists_index, and_imp]
  constructor
  · rintro ⟨h, below⟩
    exact ⟨h, fun c hc s hs => below s c hc hs⟩
  · rintro ⟨h, below⟩
    exact ⟨h, fun s c hc hs => below c hc s hs⟩

/-! ## Children of a query, by how it is built -/

theorem children_congr {q s : Query} (ht : s.tables = q.tables) (hs : s.source? = q.source?)
    (hj : s.joins = q.joins) (hu : s.union? = q.union?) : s.children = q.children := by
  rw [children, children, sources, sources, ht, hs, hj, hu]

theorem children_ofTables {q : Query} (ht : q.tables = []) (hu : q.union? = none)
    (hs : ∀ source ∈ q.sources, ∃ parts, source = .table parts) : q.children = [] := by
  have none : q.sources.filterMap TableSource.query? = [] := by
    refine List.filterMap_eq_nil_iff.2 ?_
    intro source hsource
    obtain ⟨parts, rfl⟩ := hs source hsource
    rfl
  rw [children, ht, hu, none]
  rfl

theorem mem_children_joinSubquery {q s c : Query} {kind : JoinKind} {name : String} {on : Expr} :
    c ∈ (q.join kind (.subquery s name) on).children ↔ c ∈ q.children ∨ c = s := by
  have sources : (q.join kind (.subquery s name) on).sources = q.sources ++ [.subquery s] := by
    simp [Query.sources, join, TableRef.subquery]
  rw [children, sources, List.filterMap_append, children]
  simp only [join, List.mem_append, List.filterMap_cons, TableSource.query?, List.filterMap_nil,
    List.mem_singleton]
  tauto

theorem mem_children_joinCommon {q s c : Query} {kind : JoinKind} {name shown : String} {on : Expr} :
    c ∈ ((q.join kind ((TableRef.named name).withAlias shown) on).withTable name s).children ↔
      c ∈ q.children ∨ c = s := by
  have sources : ((q.join kind ((TableRef.named name).withAlias shown) on).withTable
      name s).sources = q.sources ++ [.table [name]] := by
    simp [Query.sources, join, withTable, TableRef.named, TableRef.withAlias]
  rw [children, sources, List.filterMap_append, children]
  simp only [withTable, join, List.map_append, List.mem_append, List.map_cons, List.map_nil,
    List.filterMap_cons, TableSource.query?, List.filterMap_nil, List.mem_singleton, List.not_mem_nil]
  tauto

/-! ## Common tables of the written statement -/

/-- The names of the common tables that the written statement has. -/
def commonNames (q : Query) : List String := (q.allTables []).map (·.name)

/-- Whether a list of common tables grew to hold every name that some queries declare. -/
def Collects (qs : List Query) (before after : List CommonTable) : Prop :=
  ∀ n, n ∈ before.map (·.name) ∨ (∃ q ∈ qs, n ∈ q.tables.map (·.name)) → n ∈ after.map (·.name)

theorem Collects.nil (tables : List CommonTable) : Collects [] tables tables := by
  rintro n (h | ⟨q, hq, _⟩)
  · exact h
  · cases hq

theorem Collects.append {ps qs : List Query} {a b c : List CommonTable} (hp : Collects ps a b)
    (hq : Collects qs b c) : Collects (ps ++ qs) a c := by
  rintro n (h | ⟨q, hq', hn⟩)
  · exact hq n (.inl (hp n (.inl h)))
  · rcases List.mem_append.1 hq' with hq' | hq'
    · exact hq n (.inl (hp n (.inr ⟨q, hq', hn⟩)))
    · exact hq n (.inr ⟨q, hq', hn⟩)

theorem mem_names_addTable {tables : List CommonTable} {name n : String} {body : Query} :
    n ∈ (addTable tables name body).map (·.name) ↔ n ∈ tables.map (·.name) ∨ n = name := by
  unfold addTable
  split
  · rename_i h
    obtain ⟨t, ht, e⟩ := List.any_eq_true.1 h
    have known : name ∈ tables.map (·.name) := List.mem_map.2 ⟨t, ht, by simpa using e⟩
    constructor
    · exact .inl
    · rintro (h | rfl)
      · exact h
      · exact known
  · simp

mutual

theorem collects_allTables (acc : List CommonTable) :
    ∀ q : Query, Collects q.parts acc (allTables acc q)
  | ⟨tables, items, source?, joins, condition?, grouping, order, limit?, offset?, union?⟩ => by
    rw [parts, allTables]
    obtain ⟨nested, own⟩ := collects_tablesOfList acc tables
    have rest := ((nested.append (collects_tablesOfSource? _ source?)).append
      (collects_tablesOfJoins _ joins)).append (collects_tablesOfUnion _ union?)
    rintro n (h | ⟨q, hq, hn⟩)
    · exact rest n (.inl h)
    · rcases List.mem_cons.1 hq with rfl | hq
      · have later := ((collects_tablesOfSource? (tablesOfList acc tables) source?).append
          (collects_tablesOfJoins _ joins)).append (collects_tablesOfUnion _ union?)
        exact later n (.inl (own n hn))
      · exact rest n (.inr ⟨q, hq, hn⟩)

theorem collects_tablesOfList (acc : List CommonTable) : ∀ ts : List CommonTable,
    Collects (partsOfTables ts) acc (tablesOfList acc ts) ∧
      ∀ n ∈ ts.map (·.name), n ∈ (tablesOfList acc ts).map (·.name)
  | [] => by
    rw [partsOfTables, tablesOfList]
    exact ⟨.nil acc, fun n hn => by cases hn⟩
  | ⟨name, body⟩ :: ts => by
    rw [partsOfTables, tablesOfList]
    obtain ⟨nested, own⟩ :=
      collects_tablesOfList (addTable (allTables acc body) name body) ts
    have first : Collects body.parts acc (addTable (allTables acc body) name body) := by
      intro n hn
      exact mem_names_addTable.2 (.inl (collects_allTables acc body n hn))
    refine ⟨first.append nested, ?_⟩
    intro n hn
    rcases List.mem_cons.1 hn with hn | hn
    · exact nested n (.inl (mem_names_addTable.2 (.inr hn)))
    · exact own n hn

theorem collects_tablesOfSource? (acc : List CommonTable) : ∀ t? : Option TableRef,
    Collects (partsOfSource? t?) acc (tablesOfSource? acc t?)
  | none => by
    rw [partsOfSource?, tablesOfSource?]
    exact .nil acc
  | some t => by
    rw [partsOfSource?, tablesOfSource?]
    exact collects_tablesOfRef acc t

theorem collects_tablesOfRef (acc : List CommonTable) : ∀ t : TableRef,
    Collects (partsOfRef t) acc (tablesOfRef acc t)
  | ⟨.table _, _⟩ => by
    rw [partsOfRef, tablesOfRef, partsOfSource, tablesOfSource]
    exact .nil acc
  | ⟨.subquery q, _⟩ => by
    rw [partsOfRef, tablesOfRef, partsOfSource, tablesOfSource]
    exact collects_allTables acc q

theorem collects_tablesOfJoins (acc : List CommonTable) : ∀ js : List Join,
    Collects (partsOfJoins js) acc (tablesOfJoins acc js)
  | [] => by
    rw [partsOfJoins, tablesOfJoins]
    exact .nil acc
  | ⟨_, table, _⟩ :: js => by
    rw [partsOfJoins, tablesOfJoins]
    exact (collects_tablesOfRef acc table).append (collects_tablesOfJoins _ js)

theorem collects_tablesOfUnion (acc : List CommonTable) : ∀ qs? : Option (List Query),
    Collects (partsOfUnion qs?) acc (tablesOfUnion acc qs?)
  | none => by
    rw [partsOfUnion, tablesOfUnion]
    exact .nil acc
  | some qs => by
    rw [partsOfUnion, tablesOfUnion]
    exact collects_tablesOfQueries acc qs

theorem collects_tablesOfQueries (acc : List CommonTable) : ∀ qs : List Query,
    Collects (partsOfQueries qs) acc (tablesOfQueries acc qs)
  | [] => by
    rw [partsOfQueries, tablesOfQueries]
    exact .nil acc
  | q :: qs => by
    rw [partsOfQueries, tablesOfQueries]
    exact (collects_allTables acc q).append (collects_tablesOfQueries _ qs)

end

theorem name_mem_commonNames {q p : Query} {t : CommonTable} (hp : p ∈ q.parts)
    (ht : t ∈ p.tables) : t.name ∈ q.commonNames :=
  collects_allTables [] q t.name (.inr ⟨p, hp, List.mem_map_of_mem ht⟩)

/-- The names of the tables that are read anywhere in a query and are no common tables. -/
def baseTables (q : Query) : List (List String) :=
  (q.parts.flatMap readNames).filter fun parts => parts ∉ q.commonNames.map ([·])

/-! ## What a query reads -/

/-- Whether a query and all queries within it read only allowed tables and, by their names, common
tables of their own. -/
def ReadsOnly (allowed : List String → Prop) : Query → Prop :=
  All fun q => ∀ parts ∈ q.readNames, allowed parts ∨ ∃ t ∈ q.tables, parts = [t.name]

variable {allowed : List String → Prop} {q s : Query}

theorem ReadsOnly.allowed_of_mem_baseTables (h : q.ReadsOnly allowed) {parts : List String}
    (hp : parts ∈ q.baseTables) : allowed parts := by
  obtain ⟨hread, hbase⟩ := List.mem_filter.1 hp
  obtain ⟨s, hs, hparts⟩ := List.mem_flatMap.1 hread
  rcases h s hs parts hparts with ha | ⟨t, ht, rfl⟩
  · exact ha
  · have common : [t.name] ∈ q.commonNames.map ([·]) :=
      List.mem_map.2 ⟨t.name, name_mem_commonNames hs ht, rfl⟩
    exact absurd common (of_decide_eq_true hbase)

/-- Clauses other than the tables, the sources and the union do not matter. -/
theorem ReadsOnly.of_same_sources (h : q.ReadsOnly allowed) (ht : s.tables = q.tables)
    (hs : s.source? = q.source?) (hj : s.joins = q.joins) (hu : s.union? = q.union?) :
    s.ReadsOnly allowed := by
  have sources : s.sources = q.sources := by rw [Query.sources, Query.sources, hs, hj]
  obtain ⟨own, below⟩ := all_iff.1 h
  refine all_iff.2 ⟨?_, ?_⟩
  · rw [readNames, sources, ht]
    exact own
  · rw [children_congr ht hs hj hu]
    exact below

theorem readsOnly_noSource (items : List SelectItem) : (empty.select items).ReadsOnly allowed :=
  all_iff.2 ⟨fun _ h => (List.not_mem_nil h).elim, fun _ h => (List.not_mem_nil h).elim⟩

/-- A selection from tables that are no queries. -/
theorem readsOnly_ofTables (ht : q.tables = []) (hu : q.union? = none)
    (hs : ∀ source ∈ q.sources, ∃ parts, source = .table parts ∧ allowed parts) :
    q.ReadsOnly allowed := by
  refine all_iff.2 ⟨?_, ?_⟩
  · intro parts hp
    obtain ⟨source, hsource, hname⟩ := List.mem_filterMap.1 hp
    obtain ⟨parts', rfl, ha⟩ := hs source hsource
    cases hname
    exact .inl ha
  · intro c hc
    rw [children_ofTables ht hu fun source h => (hs source h).imp fun _ => And.left] at hc
    cases hc

/-- A selection from a query. -/
theorem ReadsOnly.fromSubquery (h : s.ReadsOnly allowed) (items : List SelectItem)
    (name : String) : ((empty.select items).fromTable (.subquery s name)).ReadsOnly allowed := by
  refine all_iff.2 ⟨fun _ hn => (List.not_mem_nil hn).elim, ?_⟩
  intro c hc
  rcases List.mem_singleton.1 hc with rfl
  exact h

theorem ReadsOnly.joinSubquery (hq : q.ReadsOnly allowed) (hs : s.ReadsOnly allowed)
    (kind : JoinKind) (name : String) (on : Expr) :
    (q.join kind (.subquery s name) on).ReadsOnly allowed := by
  obtain ⟨own, below⟩ := all_iff.1 hq
  have sources : (q.join kind (.subquery s name) on).sources = q.sources ++ [.subquery s] := by
    simp [Query.sources, join, TableRef.subquery]
  refine all_iff.2 ⟨?_, ?_⟩
  · intro parts hp
    rw [readNames, sources, List.filterMap_append] at hp
    rcases List.mem_append.1 hp with hp | hp
    · exact own parts hp
    · cases hp
  · intro c hc
    rcases mem_children_joinSubquery.1 hc with hc | rfl
    · exact below c hc
    · exact hs

/-- A join with a common table of the query. -/
theorem ReadsOnly.joinCommon (hq : q.ReadsOnly allowed) (hs : s.ReadsOnly allowed)
    (kind : JoinKind) (name shown : String) (on : Expr) :
    ((q.join kind ((TableRef.named name).withAlias shown) on).withTable name s).ReadsOnly
      allowed := by
  obtain ⟨own, below⟩ := all_iff.1 hq
  have sources : ((q.join kind ((TableRef.named name).withAlias shown) on).withTable
      name s).sources = q.sources ++ [.table [name]] := by
    simp [Query.sources, join, withTable, TableRef.named, TableRef.withAlias]
  refine all_iff.2 ⟨?_, ?_⟩
  · intro parts hp
    rw [readNames, sources, List.filterMap_append] at hp
    rcases List.mem_append.1 hp with hp | hp
    · rcases own parts hp with ha | ⟨t, ht, e⟩
      · exact .inl ha
      · exact .inr ⟨t, List.mem_append_left _ ht, e⟩
    · rcases List.mem_singleton.1 hp with rfl
      exact .inr ⟨⟨name, s⟩, List.mem_append_right _ (List.mem_singleton.2 rfl), rfl⟩
  · intro c hc
    rcases mem_children_joinCommon.1 hc with hc | rfl
    · exact below c hc
    · exact hs

/-- A selection from a common table of its own. -/
theorem readsOnly_fromCommon (hs : s.ReadsOnly allowed) (name : String) (items : List SelectItem)
    (grouping : List Expr) :
    ((((empty.select items).fromTable (.named name)).groupBy grouping).withTable name s).ReadsOnly
      allowed := by
  refine all_iff.2 ⟨?_, ?_⟩
  · intro parts hp
    rcases List.mem_singleton.1 hp with rfl
    exact .inr ⟨⟨name, s⟩, List.mem_singleton.2 rfl, rfl⟩
  · intro c hc
    rcases List.mem_singleton.1 hc with rfl
    exact hs

theorem readsOnly_unionAll {qs : List Query} (h : ∀ s ∈ qs, s.ReadsOnly allowed) :
    (unionAll qs).ReadsOnly allowed := by
  have union : ({ empty with union? := some qs } : Query).ReadsOnly allowed :=
    all_iff.2 ⟨fun _ hn => (List.not_mem_nil hn).elim, h⟩
  unfold unionAll
  split
  · exact h _ (List.mem_singleton.2 rfl)
  · exact union

end Query

end SemanticLayer.Sql
