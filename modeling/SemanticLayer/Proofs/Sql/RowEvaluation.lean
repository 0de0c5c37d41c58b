import SemanticLayer.Proofs.Blend.RowMatching
import SemanticLayer.Proofs.Sql.Scoping

/-!
# Evaluation of SQL on rows

What conditions and choices come to on a row, in the logic where null makes a comparison unknown,
and what rows a join makes of one.

* `Engine`: a database, which knows all other expressions;
* `Engine.value`: the value of an expression on a row, none for null;
* `Engine.value_congr`: it depends on the columns of the expression only;
* `Engine.constantRows?`: the rows of a query that reads from no table;
* `Engine.joined?`, `Engine.joinedAll?`: the rows that joins make of others.
-/

namespace SemanticLayer.Sql

/-- A value other than null. -/
inductive Datum where
  | text (s : String)
  | truth (b : Bool)
  deriving DecidableEq

def Datum.truth? : Datum → Option Bool
  | .text _ => none
  | .truth b => some b

/-- What stands in the columns of a row, each with the table it is asked from. -/
abbrev Cells := Option String → String → Option Datum

/-- Adds the row of a table under a name. -/
def Cells.beside (cells : Cells) (table : String) (row : String → Option Datum) : Cells :=
  fun table? name => if table? = some table then row name else cells table? name

/-- A database: the values of the expressions that are not interpreted here, each of which depends
on its own columns only. -/
structure Engine where
  other : Cells → Expr → Option Datum
  other_congr : ∀ {a b : Cells} {e : Expr}, (∀ c ∈ e.columns, a c.1 c.2 = b c.1 c.2) →
    other a e = other b e

namespace Engine

mutual

def value (E : Engine) (cells : Cells) : Expr → Option Datum
  | .column table? name => cells table? name
  | .literal l =>
    match l with
    | .string s => some (.text s)
    | .bool b => some (.truth b)
    | .null => none
    | l => E.other cells (.literal l)
  | .binary l op r =>
    match op with
    | .eq => do return .truth ((← E.value cells l) == (← E.value cells r))
    | .and => (and? ((E.value cells l).bind Datum.truth?)
        ((E.value cells r).bind Datum.truth?)).map .truth
    | .or => (or? ((E.value cells l).bind Datum.truth?)
        ((E.value cells r).bind Datum.truth?)).map .truth
    | op => E.other cells (.binary l op r)
  | .isNull e negated => some (.truth ((E.value cells e).isNone != negated))
  | .case operand? branches otherwise? =>
    match operand? with
    | none => E.chosen cells (E.value? cells otherwise?) branches
    | some e => E.other cells (.case (some e) branches otherwise?)
  | .call name args distinct =>
    if name = "COALESCE" then E.firstKnown cells args else E.other cells (.call name args distinct)
  | .cast e t => (E.value cells e).bind fun _ => E.other cells (.cast e t)
  | e => E.other cells e

def value? (E : Engine) (cells : Cells) : Option Expr → Option Datum
  | none => none
  | some e => E.value cells e

/-- The value of the first branch whose condition holds. -/
def chosen (E : Engine) (cells : Cells) (otherwise : Option Datum) :
    List (Expr × Expr) → Option Datum
  | [] => otherwise
  | (condition, result) :: branches =>
    if E.value cells condition = some (.truth true) then E.value cells result
    else E.chosen cells otherwise branches

def firstKnown (E : Engine) (cells : Cells) : List Expr → Option Datum
  | [] => none
  | e :: es => (E.value cells e).or (E.firstKnown cells es)

end

mutual

/-- Rows that agree in the columns of an expression give it one value. -/
theorem value_congr (E : Engine) {a b : Cells} : (e : Expr) →
    (∀ c ∈ e.columns, a c.1 c.2 = b c.1 c.2) → E.value a e = E.value b e
  | .column table? name, h => h (table?, name) (List.mem_singleton_self _)
  | .literal l, h => by
    cases l with
    | int | float => exact E.other_congr h
    | string | bool | null => rfl
  | .binary l op r, h => by
    obtain ⟨left, right⟩ := List.forall_mem_append.1 h
    cases op with
    | eq | and | or => simp only [value, E.value_congr l left, E.value_congr r right]
    | _ => exact E.other_congr h
  | .isNull e negated, h => by rw [value, value, E.value_congr e h]
  | .case none branches otherwise?, h => by
    obtain ⟨among, other⟩ := List.forall_mem_append.1 h
    rw [value, value, E.value?_congr otherwise? other]
    exact E.chosen_congr _ branches among
  | .case (some e) branches otherwise?, h => E.other_congr h
  | .call name args distinct, h => by
    rw [value, value]
    split
    · exact E.firstKnown_congr args h
    · exact E.other_congr h
  | .cast e t, h => by rw [value, value, E.value_congr e h, E.other_congr h]
  | .unary .., h => E.other_congr h
  | .dialectCall .., h => E.other_congr h
  | .extract .., h => E.other_congr h
  | .inList .., h => E.other_congr h
  | .like .., h => E.other_congr h
  | .paren .., h => E.other_congr h
  | .window .., h => E.other_congr h
  | .list .., h => E.other_congr h
  | .placeholder .., h => E.other_congr h
  | .raw .., h => E.other_congr h

theorem value?_congr (E : Engine) {a b : Cells} : (e? : Option Expr) →
    (∀ c ∈ Expr.collect? (fun t n => [(t, n)]) (fun _ => []) e?, a c.1 c.2 = b c.1 c.2) →
      E.value? a e? = E.value? b e?
  | none, _ => rfl
  | some e, h => E.value_congr e h

theorem chosen_congr (E : Engine) {a b : Cells} (otherwise : Option Datum) :
    (branches : List (Expr × Expr)) →
    (∀ c ∈ Expr.collectBranches (fun t n => [(t, n)]) (fun _ => []) branches,
      a c.1 c.2 = b c.1 c.2) →
      E.chosen a otherwise branches = E.chosen b otherwise branches
  | [], _ => rfl
  | (condition, result) :: branches, h => by
    obtain ⟨first, rest⟩ := List.forall_mem_append.1 h
    obtain ⟨tested, shown⟩ := List.forall_mem_append.1 first
    rw [chosen, chosen, E.value_congr condition tested, E.value_congr result shown,
      E.chosen_congr otherwise branches rest]

theorem firstKnown_congr (E : Engine) {a b : Cells} : (es : List Expr) →
    (∀ c ∈ Expr.collectAll (fun t n => [(t, n)]) (fun _ => []) es, a c.1 c.2 = b c.1 c.2) →
      E.firstKnown a es = E.firstKnown b es
  | [], _ => rfl
  | e :: es, h => by
    obtain ⟨first, rest⟩ := List.forall_mem_append.1 h
    rw [firstKnown, firstKnown, E.value_congr e first, E.firstKnown_congr es rest]

end

/-! ## Rows of queries -/

/-- Whether a condition holds on a row: it has to be true, not unknown. -/
def holds (E : Engine) (cells : Cells) (condition : Expr) : Bool :=
  E.value cells condition = some (.truth true)

mutual

/-- The rows of a query that reads from no table, each the values of its columns in their order;
none for any other query. -/
def constantRows? (E : Engine) : Query → Option (List (List (Option Datum)))
  | ⟨_, items, none, [], condition?, [], [], none, none, none⟩ =>
    if condition?.all (E.holds fun _ _ => none) then
      some [items.map fun i => E.value (fun _ _ => none) i.expr]
    else some []
  | ⟨_, _, none, [], none, [], [], none, none, some qs⟩ => E.unitedRows? qs
  | _ => none

def unitedRows? (E : Engine) : List Query → Option (List (List (Option Datum)))
  | [] => some []
  | q :: qs => do return (← E.constantRows? q) ++ (← E.unitedRows? qs)

end

/-- A row as its columns are asked for by name. -/
def byName (names : List String) (row : List (Option Datum)) (name : String) : Option Datum :=
  ((names.zip row).lookup name).join

/-- A row beside those rows of a table on which a condition holds. -/
def met (E : Engine) (condition : Expr) (table : String) (names : List String)
    (rows : List (List (Option Datum))) (cells : Cells) : List Cells :=
  (rows.map fun row => cells.beside table (byName names row)).filter (E.holds · condition)

theorem met_map {α : Type} (E : Engine) (condition : Expr) (table : String) (names : List String)
    (f : α → List (Option Datum)) (xs : List α) (cells : Cells) :
    E.met condition table names (xs.map f) cells =
      (xs.filter fun x => E.holds (cells.beside table (byName names (f x))) condition).map
        fun x => cells.beside table (byName names (f x)) := by
  rw [met, List.map_map, List.filter_map]
  rfl

/-- The rows that a join makes of one row: it goes with each row of the table on which the condition
holds, and with nulls if there is none and the join keeps it.  None for joins that are not made row
by row or whose table is no query that reads from no table. -/
def joined? (E : Engine) (tables : List CommonTable) (j : Join) (cells : Cells) :
    Option (List Cells) :=
  match j.table with
  | ⟨.table [name], some shown⟩ => do
    let t ← tables.find? fun t => t.name = name
    let rows ← E.constantRows? t.query
    let met := E.met j.condition shown t.query.outputNames rows cells
    match j.kind with
    | .inner => some met
    | .left => some (if met.isEmpty then [cells.beside shown fun _ => none] else met)
    | .right => none
  | _ => none

theorem joined?_eq {E : Engine} {tables : List CommonTable} {j : Join} {cells : Cells}
    {t : CommonTable} {name shown : String} {rows : List (List (Option Datum))}
    (table : j.table = ⟨.table [name], some shown⟩)
    (found : tables.find? (fun t => t.name = name) = some t)
    (constant : E.constantRows? t.query = some rows) :
    E.joined? tables j cells =
      let met := E.met j.condition shown t.query.outputNames rows cells
      match j.kind with
      | .inner => some met
      | .left => some (if met.isEmpty then [cells.beside shown fun _ => none] else met)
      | .right => none := by
  unfold joined?
  rw [table]
  simp only [found, constant, Option.bind_eq_bind, Option.bind_some]

/-- The rows that a join makes of some rows. -/
def joinedRows? (E : Engine) (tables : List CommonTable) (j : Join) :
    List Cells → Option (List Cells)
  | [] => some []
  | cells :: rows => do return (← E.joined? tables j cells) ++ (← E.joinedRows? tables j rows)

/-- The rows that joins one after the other make of some rows. -/
def joinedAll? (E : Engine) (tables : List CommonTable) : List Join → List Cells →
    Option (List Cells)
  | [], rows => some rows
  | j :: js, rows => do E.joinedAll? tables js (← E.joinedRows? tables j rows)

theorem joinedAll?_nil (E : Engine) (tables : List CommonTable) (js : List Join) :
    E.joinedAll? tables js [] = some [] := by
  induction js with
  | nil => rfl
  | cons j js ih => exact ih

/-- A join changes nothing but what is asked from its own table. -/
theorem eq_of_mem_joined? {E : Engine} {tables : List CommonTable} {j : Join} {cells c : Cells}
    {rows : List Cells} (h : E.joined? tables j cells = some rows) (hc : c ∈ rows)
    {table? : Option String} (other : table? ≠ j.table.alias?) (name : String) :
    c table? name = cells table? name := by
  unfold joined? at h
  split at h
  · rename_i table shown same
    rw [same] at other
    obtain ⟨t, _, h⟩ := Option.bind_eq_some_iff.1 h
    obtain ⟨entries, _, h⟩ := Option.bind_eq_some_iff.1 h
    have beside (row : String → Option Datum) : cells.beside shown row table? name =
        cells table? name := if_neg other
    have ofMet {c : Cells} (hc : c ∈ E.met j.condition shown t.query.outputNames entries cells) :
        c table? name = cells table? name := by
      obtain ⟨row, _, rfl⟩ := List.mem_map.1 (List.mem_of_mem_filter hc)
      exact beside _
    dsimp only at h
    split at h
    · cases h
      exact ofMet hc
    · cases h
      split at hc
      · cases List.mem_singleton.1 hc
        exact beside _
      · exact ofMet hc
    · cases h
  · cases h

theorem exists_of_mem_joinedRows? {E : Engine} {tables : List CommonTable} {j : Join}
    {rows joined : List Cells} (h : E.joinedRows? tables j rows = some joined) {c : Cells}
    (hc : c ∈ joined) : ∃ cells ∈ rows, ∃ met, E.joined? tables j cells = some met ∧ c ∈ met := by
  induction rows generalizing joined with
  | nil =>
    cases h
    cases hc
  | cons cells rows ih =>
    obtain ⟨met, hm, h⟩ := Option.bind_eq_some_iff.1 h
    obtain ⟨rest, hr, h⟩ := Option.bind_eq_some_iff.1 h
    cases h
    rcases List.mem_append.1 hc with here | later
    · exact ⟨cells, List.mem_cons_self .., met, hm, here⟩
    · obtain ⟨cells', member, found⟩ := ih hr later
      exact ⟨cells', List.mem_cons_of_mem _ member, found⟩

/-- After all joins a row is one of the first rows, but for what is asked from the joined tables. -/
theorem exists_of_mem_joinedAll? {E : Engine} {tables : List CommonTable} {js : List Join}
    {rows joined : List Cells} (h : E.joinedAll? tables js rows = some joined) {c : Cells}
    (hc : c ∈ joined) : ∃ cells ∈ rows, ∀ table? name, (∀ j ∈ js, table? ≠ j.table.alias?) →
      c table? name = cells table? name := by
  induction js generalizing rows with
  | nil =>
    cases h
    exact ⟨c, hc, fun _ _ _ => rfl⟩
  | cons j js ih =>
    obtain ⟨step, hs, h⟩ := Option.bind_eq_some_iff.1 h
    obtain ⟨d, hd, same⟩ := ih h
    obtain ⟨cells, member, met, hm, hd⟩ := exists_of_mem_joinedRows? hs hd
    refine ⟨cells, member, fun table? name other => ?_⟩
    obtain ⟨first, others⟩ := List.forall_mem_cons.1 other
    rw [same table? name others, eq_of_mem_joined? hm hd first]

end Engine

end SemanticLayer.Sql
