import SemanticLayer.Blend.Dataframe
import SemanticLayer.Proofs.Sql.Names
import SemanticLayer.Proofs.Sql.Parts

/-!
# Columns in scope

What the columns of a selection can refer to: the columns of the table it reads from, and those of
its tables by their names.

* `Expr.Reads`: whether all columns of an expression are as a condition asks;
* `RowScope.Has`: a column by itself has to be offered exactly once, one of a table by exactly one
  table of that name;
* `Query.IsResolved`: all columns of one selection are in its scope;
* `Query.AllAbove`: a property of a query and all queries within it, down to some that are left
  out, with a lemma for each way to build a query.
-/

namespace SemanticLayer.Sql

/-- The columns of an expression, each with the table it names. -/
abbrev Expr.columns (e : Expr) : List (Option String × String) :=
  e.collect (fun t n => [(t, n)]) fun _ => []

namespace Expr

/-- Whether all columns of an expression are as a condition asks. -/
def Reads (allowed : Option String × String → Prop) (e : Expr) : Prop := ∀ c ∈ e.columns, allowed c

variable {allowed : Option String × String → Prop} {e : Expr}

instance [DecidablePred allowed] : DecidablePred (Reads allowed) := fun e =>
  inferInstanceAs (Decidable (∀ c ∈ e.columns, allowed c))

theorem Reads.imp {more : Option String × String → Prop} (h : e.Reads allowed)
    (imp : ∀ c, allowed c → more c) : e.Reads more := fun c hc => imp c (h c hc)

theorem reads_flatMap {es : List Expr} :
    (∀ c ∈ es.flatMap columns, allowed c) ↔ ∀ e ∈ es, e.Reads allowed := by
  constructor
  · intro all e he c hc
    exact all c (List.mem_flatMap.2 ⟨e, he, hc⟩)
  · intro all c hc
    obtain ⟨e, he, hc⟩ := List.mem_flatMap.1 hc
    exact all e he c hc

@[simp] theorem reads_column {t? : Option String} {n : String} :
    (column t? n).Reads allowed ↔ allowed (t?, n) := List.forall_mem_singleton

@[simp] theorem reads_literal (l : Literal) : (literal l).Reads allowed := List.forall_mem_nil _

@[simp] theorem reads_binary {l r : Expr} {op : BinaryOperator} :
    (binary l op r).Reads allowed ↔ l.Reads allowed ∧ r.Reads allowed := List.forall_mem_append

@[simp] theorem reads_like {p : Expr} {c : Char} {n i : Bool} :
    (like e p c n i).Reads allowed ↔ e.Reads allowed ∧ p.Reads allowed := List.forall_mem_append

@[simp] theorem reads_unary {op : UnaryOperator} : (unary op e).Reads allowed ↔ e.Reads allowed :=
  Iff.rfl

@[simp] theorem reads_cast {t : CastType} : (cast e t).Reads allowed ↔ e.Reads allowed := Iff.rfl

@[simp] theorem reads_extract {f : String} : (extract f e).Reads allowed ↔ e.Reads allowed := Iff.rfl

@[simp] theorem reads_paren : (paren e).Reads allowed ↔ e.Reads allowed := Iff.rfl

@[simp] theorem reads_isNull {negated : Bool} : (isNull e negated).Reads allowed ↔ e.Reads allowed :=
  Iff.rfl

@[simp] theorem reads_call {name : String} {args : List Expr} {distinct : Bool} :
    (call name args distinct).Reads allowed ↔ ∀ e ∈ args, e.Reads allowed := by
  unfold Reads
  rw [columns, collect_call]
  exact reads_flatMap

@[simp] theorem reads_dialectCall {f : DialectFunction} {args : List Expr} :
    (dialectCall f args).Reads allowed ↔ ∀ e ∈ args, e.Reads allowed := by
  unfold Reads
  rw [columns, collect_dialectCall]
  exact reads_flatMap

@[simp] theorem reads_inList {vs : List Expr} {negated : Bool} :
    (inList e vs negated).Reads allowed ↔ e.Reads allowed ∧ ∀ v ∈ vs, v.Reads allowed := by
  unfold Reads
  rw [columns, collect_inList, List.forall_mem_append]
  exact and_congr_right fun _ => reads_flatMap

@[simp] theorem reads_overWindow {ps : List Expr} {os : List (Ordered Expr)}
    {frame? : Option Frame} :
    (overWindow e ps os frame?).Reads allowed ↔
      e.Reads allowed ∧ (∀ p ∈ ps, p.Reads allowed) ∧ ∀ o ∈ os, o.key.Reads allowed := by
  have keys : (∀ c ∈ os.flatMap fun o => o.key.columns, allowed c) ↔
      ∀ o ∈ os, o.key.Reads allowed := by
    rw [← List.forall_mem_map (P := Reads allowed), ← reads_flatMap, List.flatMap_map]
  unfold Reads
  rw [columns, collect_overWindow, List.forall_mem_append, List.forall_mem_append, and_assoc]
  exact and_congr_right fun _ => and_congr reads_flatMap keys

theorem reads_caseWhen {bs : List (Expr × Expr)} {otherwise? : Option Expr}
    (branches : ∀ b ∈ bs, b.1.Reads allowed ∧ b.2.Reads allowed)
    (otherwise : ∀ x ∈ otherwise?, x.Reads allowed) : (caseWhen bs otherwise?).Reads allowed := by
  intro c hc
  rw [columns, collect_caseWhen] at hc
  rcases List.mem_append.1 hc with hc | hc
  · obtain ⟨b, hb, hc⟩ := List.mem_flatMap.1 hc
    obtain ⟨test, value⟩ := branches b hb
    exact (List.mem_append.1 hc).elim (test c) (value c)
  · obtain ⟨x, hx, hc⟩ := List.mem_flatMap.1 hc
    exact otherwise x (Option.mem_toList.1 hx) c hc

end Expr

/-- What the columns of a selection can refer to. -/
structure RowScope where
  /-- The columns that can go by their name alone. -/
  names : List String
  /-- The tables by name, each with its columns. -/
  tables : List (String × List String)

namespace RowScope

/-- A table under one name. -/
def of (table : String) (names : List String) : RowScope := ⟨names, [(table, names)]⟩

/-- The columns of each table of a name. -/
def namesOf (s : RowScope) (table : String) : List (List String) :=
  (s.tables.filter fun t => t.1 = table).map (·.2)

/-- Whether a column refers to exactly one thing. -/
def Has (s : RowScope) : Option String × String → Prop
  | (none, n) => s.names.count n = 1
  | (some t, n) => (s.namesOf t).length = 1 ∧ n ∈ (s.namesOf t).flatten

instance (s : RowScope) : DecidablePred s.Has
  | (none, n) => inferInstanceAs (Decidable (s.names.count n = 1))
  | (some t, n) => inferInstanceAs (Decidable ((s.namesOf t).length = 1 ∧ n ∈ (s.namesOf t).flatten))

/-- Whether all columns of an expression are there. -/
def Fits (s : RowScope) (e : Expr) : Prop := ∀ c ∈ e.columns, s.Has c

instance (s : RowScope) : DecidablePred s.Fits := fun e =>
  inferInstanceAs (Decidable (∀ c ∈ e.columns, s.Has c))

/-- The same for columns that name a table. -/
def FitsQualified (s : RowScope) (e : Expr) : Prop := ∀ c ∈ e.columns, c.1.isSome = true → s.Has c

instance (s : RowScope) : DecidablePred s.FitsQualified := fun e =>
  inferInstanceAs (Decidable (∀ c ∈ e.columns, c.1.isSome = true → s.Has c))

variable {s : RowScope} {table : String} {names : List String}

@[simp] theorem fits_col {n : String} : s.Fits (.col n) ↔ s.names.count n = 1 := Expr.reads_column

theorem fits_tableCol {t n : String} :
    s.Fits (.tableCol t n) ↔ (s.namesOf t).length = 1 ∧ n ∈ (s.namesOf t).flatten :=
  Expr.reads_column

@[simp] theorem fits_null : s.Fits .null := Expr.reads_literal _

@[simp] theorem fits_string (text : String) : s.Fits (.string text) := Expr.reads_literal _

@[simp] theorem fits_binary {l r : Expr} {op : BinaryOperator} :
    s.Fits (.binary l op r) ↔ s.Fits l ∧ s.Fits r := Expr.reads_binary

@[simp] theorem fits_cast {e : Expr} {t : CastType} : s.Fits (e.cast t) ↔ s.Fits e := Iff.rfl

@[simp] theorem fits_not {e : Expr} : s.Fits e.not ↔ s.Fits e := Iff.rfl

@[simp] theorem fits_func {name : String} {args : List Expr} :
    s.Fits (.func name args) ↔ ∀ e ∈ args, s.Fits e := Expr.reads_call

@[simp] theorem fits_sum {e : Expr} : s.Fits e.sum ↔ s.Fits e :=
  fits_func.trans List.forall_mem_singleton

theorem length_namesOf (s : RowScope) (t : String) :
    (s.namesOf t).length = (s.tables.map (·.1)).count t := by
  unfold namesOf
  rw [List.length_map, List.count, List.countP_map, List.countP_eq_length_filter]
  congr 2

/-- A column of a table is there if the table's name is taken once. -/
theorem has_some_iff {t n : String} :
    s.Has (some t, n) ↔
      (s.tables.map (·.1)).count t = 1 ∧ ∃ names, (t, names) ∈ s.tables ∧ n ∈ names := by
  have offered : n ∈ (s.namesOf t).flatten ↔ ∃ names, (t, names) ∈ s.tables ∧ n ∈ names := by
    unfold namesOf
    rw [List.mem_flatten]
    constructor
    · rintro ⟨_, h, hn⟩
      obtain ⟨⟨a, names⟩, ha, rfl⟩ := List.mem_map.1 h
      obtain ⟨known, same⟩ := List.mem_filter.1 ha
      have same : a = t := of_decide_eq_true same
      exact ⟨names, same ▸ known, hn⟩
    · rintro ⟨names, hm, hn⟩
      exact ⟨names, List.mem_map.2 ⟨(t, names), List.mem_filter.2 ⟨hm, by simp⟩, rfl⟩, hn⟩
  unfold Has
  dsimp only
  rw [length_namesOf, offered]

theorem has_of_some {t n : String} : (of table names).Has (some t, n) ↔ t = table ∧ n ∈ names := by
  by_cases h : table = t
  · subst h
    simp [Has, of, namesOf]
  · simp [Has, of, namesOf, h, Ne.symm h]

/-- The order of the columns does not matter. -/
theorem fits_of_perm {names' : List String} (h : names.Perm names') {e : Expr} :
    (of table names).Fits e ↔ (of table names').Fits e := by
  have same (c : Option String × String) :
      (of table names).Has c ↔ (of table names').Has c := by
    obtain ⟨t?, n⟩ := c
    cases t? with
    | none =>
      have count := h.count_eq n
      simp [Has, of, count]
    | some t => rw [has_of_some, has_of_some, h.mem_iff]
  unfold Fits
  simp only [same]

end RowScope

/-- The name of a table: its alias, else its own name. -/
def TableRef.name? (t : TableRef) : Option String :=
  match t.alias?, t.source with
  | some a, _ => some a
  | none, .table parts => parts.getLast?
  | none, .subquery _ => none

/-- The columns of a table, which may be one of several common tables. -/
def TableRef.names (tables : List CommonTable) (t : TableRef) : List String :=
  match t.source with
  | .subquery q => q.outputNames
  | .table [name] => ((tables.find? fun t => t.name = name).map (·.query.outputNames)).getD []
  | .table _ => []

namespace Query

/-- The tables that a selection reads from. -/
def refs (q : Query) : List TableRef := q.source?.toList ++ q.joins.map (·.table)

def scope (q : Query) : RowScope where
  names := (q.source?.map (·.names q.tables)).getD []
  tables := q.refs.filterMap fun t => t.name?.map fun a => (a, t.names q.tables)

/-- What a selection selects, keeps rows by, and groups rows by. -/
def exprs (q : Query) : List Expr :=
  q.items.map (·.expr) ++ q.condition?.toList ++ q.grouping

/-- Whether all columns of a selection are in its scope.  Of a join, those count that name a
table. -/
def IsResolved (q : Query) : Prop :=
  (∀ e ∈ q.exprs, q.scope.Fits e) ∧ ∀ j ∈ q.joins, q.scope.FitsQualified j.condition

instance : DecidablePred IsResolved := fun q =>
  inferInstanceAs (Decidable
    ((∀ e ∈ q.exprs, q.scope.Fits e) ∧ ∀ j ∈ q.joins, q.scope.FitsQualified j.condition))

/-! ## Columns that a query offers -/

theorem outputNames_of_select {q : Query} (h : q.union? = none) :
    q.outputNames = q.items.filterMap SelectItem.outputName? := by
  obtain ⟨tables, items, source?, joins, condition?, grouping, order, limit?, offset?, union?⟩ := q
  cases h
  rfl

theorem outputNames_unionAll (q : Query) (qs : List Query) :
    (unionAll (q :: qs)).outputNames = q.outputNames := by
  cases qs with
  | nil => rfl
  | cons _ _ => rfl

theorem items_ofItems_perm (items : List SelectItem) : (ofItems items).items.Perm items :=
  List.mergeSort_perm ..

/-- A selection offers its items' names; their order is another. -/
theorem outputNames_ofItems {q : Query} {items : List SelectItem}
    (hi : q.items = (ofItems items).items) (hu : q.union? = none) :
    q.outputNames.Perm (items.filterMap SelectItem.outputName?) := by
  rw [outputNames_of_select hu, hi]
  exact (items_ofItems_perm items).filterMap _

theorem filterMap_outputName?_named {α : Type} (xs : List α) (f : α → Expr) (name : α → String) :
    (xs.map fun x => (f x).named (name x)).filterMap SelectItem.outputName? = xs.map name := by
  rw [List.filterMap_map, ← List.filterMap_eq_map]
  rfl

theorem filterMap_outputName?_ofColumn (names : List String) :
    (names.map SelectItem.ofColumn).filterMap SelectItem.outputName? = names := by
  rw [List.filterMap_map]
  exact List.filterMap_some

/-! ## Properties of all queries down to some -/

/-- Whether a query has a property, and all queries within it, down to some that are left out. -/
inductive AllAbove (left p : Query → Prop) : Query → Prop
  | leave {q : Query} (h : left q) : AllAbove left p q
  | keep {q : Query} (h : p q) (below : ∀ c ∈ q.children, AllAbove left p c) : AllAbove left p q

variable {left p : Query → Prop}

theorem allAbove_iff {q : Query} (h : ¬ left q) :
    q.AllAbove left p ↔ p q ∧ ∀ c ∈ q.children, c.AllAbove left p := by
  constructor
  · intro all
    cases all with
    | leave hq => exact absurd hq h
    | keep hq below => exact ⟨hq, below⟩
  · rintro ⟨hq, below⟩
    exact .keep hq below

/-- A union has no columns of its own. -/
theorem allAbove_unionAll {qs : List Query} (h : ∀ us, ¬ left { empty with union? := some us })
    (hp : ∀ us, p { empty with union? := some us }) :
    (unionAll qs).AllAbove left p ↔ ∀ q ∈ qs, q.AllAbove left p := by
  unfold unionAll
  split
  · simp
  · rw [allAbove_iff (h qs)]
    exact and_iff_right (hp qs)

end Query

end SemanticLayer.Sql
