import SemanticLayer.Formula.Evaluation
import SemanticLayer.Proofs.Blend.FormulaScoping
import SemanticLayer.Proofs.Sql.RowEvaluation

/-!
# Replaced values

What a use of an override mapping shows for the value of a row: the mapping is written as a table of
constants, that table is joined, and the formula reads its column of replacements.

* `OverrideMapping.shown?`: what the mapping says that a value becomes;
* `OverrideMapping.constantRows?_query`: the rows of the mapping's table;
* `OverrideTables.joined?_useJoin`: the one row, or none, that a join makes of a row;
* `OverrideTables.joinedAll?_useJoin`: what all uses of a query show;
* `OverrideMapping.isShown_iff`: every use shows what the mapping says, unless a replacement is the
  text that stands for null.
-/

namespace SemanticLayer

open Sql (Cells Datum Engine Expr Query)
open Formula (Fragment)

namespace OverrideMapping

/-- The replacement of a value, which may be null, if it has one. -/
def replacement? (m : OverrideMapping) (v : Option String) : Option (Option String) :=
  m.pairs.lookup v

/-- What a row with a value shows, if it stays. -/
def shown? (m : OverrideMapping) (keepsMissing : Bool) (v : Option String) :
    Option (Option String) :=
  (m.replacement? v).or (if keepsMissing then some (some "Unknown") else none)

variable {m : OverrideMapping}

/-- A mapping that is kept gives each value one replacement. -/
theorem nodup_of_fault? (valid : m.fault? = none) : (m.pairs.map (·.1)).Nodup := by
  unfold fault? at valid
  split at valid
  · cases valid
  · split at valid
    · rename_i unique
      obtain ⟨null, texts⟩ := List.append_eq_nil_iff.1 (List.isEmpty_iff.1 unique)
      refine List.nodup_iff_count_le_one.2 fun v => Nat.not_lt.1 fun again => ?_
      cases v with
      | none =>
        rw [if_pos (decide_eq_true again)] at null
        cases null
      | some s =>
        have member : some s ∈ m.pairs.map (·.1) :=
          List.count_pos_iff.1 (Nat.lt_trans Nat.zero_lt_one again)
        refine List.filter_eq_nil_iff.1 texts s ?_ (decide_eq_true again)
        exact SortedSet.mem_ofList.2 (List.mem_filterMap.2 ⟨_, member, rfl⟩)
    · cases valid

/-- The row of a pair in the table. -/
def entry (pair : Option String × Option String) : List (Option Datum) :=
  [pair.1.map .text, some (.text (pair.2.getD OverrideUses.nullMarker))]

theorem constantRows?_row (E : Engine) (pair : Option String × Option String) :
    E.constantRows? (row pair.1 pair.2) = some [entry pair] := by
  obtain ⟨v, w⟩ := pair
  cases v with
  | none => rfl
  | some v => rfl

/-- The table of a mapping has a row for each pair. -/
theorem constantRows?_query (E : Engine) (m : OverrideMapping) :
    E.constantRows? m.query = some (m.pairs.map entry) := by
  have united (pairs : List (Option String × Option String)) :
      E.unitedRows? (pairs.map fun p => row p.1 p.2) = some (pairs.map entry) := by
    induction pairs with
    | nil => rfl
    | cons pair pairs ih =>
      rw [List.map_cons, Engine.unitedRows?, constantRows?_row, ih]
      rfl
  unfold query
  cases hm : m.pairs with
  | nil => rfl
  | cons pair pairs =>
    cases pairs with
    | nil => exact constantRows?_row E pair
    | cons next pairs => exact united (pair :: next :: pairs)

end OverrideMapping

/-! ## The row that a use joins -/

/-- The pairs of a value, if it has one at most. -/
theorem filter_eq_lookup {α β : Type} [BEq α] [LawfulBEq α] [DecidableEq α] {pairs : List (α × β)}
    (distinct : (pairs.map (·.1)).Nodup) (v : α) :
    pairs.filter (fun p => p.1 = v) = (pairs.lookup v).toList.map fun w => (v, w) := by
  induction pairs with
  | nil => rfl
  | cons p pairs ih =>
    obtain ⟨x, w⟩ := p
    obtain ⟨new, distinct⟩ := List.nodup_cons.1 distinct
    by_cases same : x = v
    · subst same
      have others : pairs.filter (fun p => p.1 = x) = [] := by
        refine List.filter_eq_nil_iff.2 fun p hp same => new ?_
        exact List.mem_map.2 ⟨p, hp, of_decide_eq_true same⟩
      rw [List.filter_cons, if_pos (decide_eq_true rfl), others, List.lookup_cons_self]
      rfl
    · have other : (v == x) = false := beq_false_of_ne (Ne.symm same)
      rw [List.filter_cons, if_neg (fun h => same (of_decide_eq_true h)), ih distinct,
        List.lookup_cons, other]

namespace OverrideMapping

theorem replacement?_eq_some_iff {m : OverrideMapping} (valid : m.fault? = none)
    {v w : Option String} : m.replacement? v = some w ↔ (v, w) ∈ m.pairs := by
  have single := filter_eq_lookup (nodup_of_fault? valid) v
  have member : (v, w) ∈ m.pairs ↔ (v, w) ∈ m.pairs.filter fun p => p.1 = v := by
    rw [List.mem_filter]
    exact (and_iff_left (decide_eq_true rfl)).symm
  rw [member, single, List.mem_map, replacement?]
  constructor
  · intro h
    exact ⟨w, Option.mem_toList.2 h, rfl⟩
  · rintro ⟨_, h, ⟨⟩⟩
    exact Option.mem_toList.1 h

/-- The row of a pair, by the columns of the table. -/
def pairRow (pair : Option String × Option String) : String → Option Datum :=
  Engine.byName [OverrideUses.valueColumn, OverrideUses.replacementColumn] (entry pair)

/-- What stands beside a row with a value: the value and its replacement, or nulls. -/
def joinedRow? (m : OverrideMapping) (keepsMissing : Bool) (v : Option String) :
    Option (String → Option Datum) :=
  ((m.replacement? v).map fun w => pairRow (v, w)).or
    (if keepsMissing then some fun _ => none else none)

end OverrideMapping

namespace OverrideTables

variable {E : Engine} {cells : Cells} {u : OverrideKey × Expr} {v : Option String}
  {names : List String}

/-- Whether an expression has a value on a row, whatever is joined to it under some names. -/
structure HasValue (E : Engine) (cells : Cells) (names : List String) (e : Expr)
    (v : Option String) : Prop where
  value : E.value cells e = v.map .text
  apart : ∀ c ∈ e.columns, ∀ name ∈ names, c.1 ≠ some name

theorem HasValue.beside {e : Expr} (h : HasValue E cells names e v) {name : String}
    (hn : name ∈ names) (row : String → Option Datum) :
    HasValue E (cells.beside name row) names e v := by
  refine ⟨(E.value_congr e fun c hc => ?_).trans h.value, h.apart⟩
  exact if_neg (h.apart c hc name hn)

/-- Null is joined to null, and a text to itself. -/
theorem holds_condition (h : HasValue E cells names u.2 v) (hu : u.1.identifier ∈ names)
    (pair : Option String × Option String) :
    E.holds (cells.beside u.1.identifier (OverrideMapping.pairRow pair)) (useJoin u).condition =
      decide (pair.1 = v) := by
  have value := (h.beside hu (OverrideMapping.pairRow pair)).value
  have mapped : E.value (cells.beside u.1.identifier (OverrideMapping.pairRow pair))
      (.tableCol u.1.identifier OverrideUses.valueColumn) = pair.1.map .text := if_pos rfl
  obtain ⟨w, _⟩ := pair
  unfold Engine.holds useJoin Expr.or Expr.and Expr.eq
  simp only [Engine.value, mapped, value]
  cases w with
  | none => cases v <;> rfl
  | some w =>
    cases v with
    | none => rfl
    | some v =>
      refine decide_eq_decide.2 ?_
      change (Sql.or? (some (Datum.text w == .text v)) (some false)).map Datum.truth =
        some (.truth true) ↔ some w = some v
      by_cases same : w = v
      · simp [same, Sql.or?]
      · have differ : (Datum.text w == .text v) = false :=
          beq_false_of_ne fun h => same (Datum.text.inj h)
        simp [same, differ, Sql.or?]

/-- The table that the join of a use reads, if it is that of a mapping. -/
structure Reads (tables : List Sql.CommonTable) (k : OverrideKey) (m : OverrideMapping) : Prop where
  found : ∃ t, tables.find? (fun t => t.name = OverrideKey.tableName k.mapping) = some t ∧
    t.query = m.query
  valid : m.fault? = none

/-- A use joins one row or none: the pair of the value, or nulls if the others stay. -/
theorem joined?_useJoin {tables : List Sql.CommonTable} {m : OverrideMapping}
    (reads : Reads tables u.1 m) (h : HasValue E cells names u.2 v)
    (hu : u.1.identifier ∈ names) :
    E.joined? tables (useJoin u) cells =
      some ((m.joinedRow? u.1.keepsMissing v).toList.map (cells.beside u.1.identifier)) := by
  obtain ⟨⟨t, found, body⟩, valid⟩ := reads
  have met : E.met (useJoin u).condition u.1.identifier m.query.outputNames
      (m.pairs.map OverrideMapping.entry) cells =
        (m.replacement? v).toList.map fun w =>
          cells.beside u.1.identifier (OverrideMapping.pairRow (v, w)) := by
    have meets : (fun pair => E.holds (cells.beside u.1.identifier (OverrideMapping.pairRow pair))
        (useJoin u).condition) = fun pair => decide (pair.1 = v) := funext (holds_condition h hu)
    rw [m.outputNames_query, E.met_map]
    unfold OverrideMapping.pairRow at meets
    rw [meets, filter_eq_lookup (OverrideMapping.nodup_of_fault? valid), List.map_map]
    rfl
  rw [Engine.joined?_eq rfl found ((congrArg _ body).trans (m.constantRows?_query E)), body, met]
  unfold OverrideMapping.joinedRow? useJoin
  cases m.replacement? v with
  | none => cases u.1.keepsMissing <;> rfl
  | some w => cases u.1.keepsMissing <;> rfl

end OverrideTables

/-! ## What is shown -/

/-- What becomes of a replacement on its way through the table: the text that stands for null comes
out as null. -/
def OverrideMapping.decoded (w : Option String) : Option String :=
  if w = some OverrideUses.nullMarker then none else w

theorem OverrideMapping.decoded_eq_self_iff {w : Option String} :
    decoded w = w ↔ w ≠ some OverrideUses.nullMarker := by
  unfold decoded
  split
  · rename_i marker
    rw [marker]
    exact iff_of_false nofun fun h => h rfl
  · rename_i plain
    exact iff_of_true rfl plain

/-- The SQL that shows the replacement in a table under a name. -/
def OverrideMapping.shownSql (table : String) (keepsMissing : Bool) : Expr :=
  let replacement := Expr.tableCol table OverrideUses.replacementColumn
  .caseWhen [(replacement.eq (.string OverrideUses.nullMarker), .null)]
    (some (if keepsMissing then .coalesce [replacement, .string "Unknown"] else replacement))

theorem Formula.sql_evaluateOverride (mapping : String) (keepsMissing : Bool) (r : Fragment) :
    (Node.evaluateOverride mapping keepsMissing r).sql = OverrideMapping.shownSql
      (OverrideKey.identifier ⟨r.sql.text .snowflake, mapping, keepsMissing⟩) keepsMissing := rfl

theorem Formula.overrides_evaluateOverride (mapping : String) (keepsMissing : Bool)
    (r : Fragment) :
    (Node.evaluateOverride mapping keepsMissing r).overrides.toList =
      [(⟨r.sql.text .snowflake, mapping, keepsMissing⟩, r.sql)] := rfl

namespace OverrideMapping

variable {E : Engine} {cells : Cells} {table : String} {keepsMissing : Bool} {v : Option String}

theorem columns_shownSql {c : Option String × String}
    (hc : c ∈ (shownSql table keepsMissing).columns) : c.1 = some table := by
  cases keepsMissing <;> simp_all [shownSql]

/-- What is shown is the replacement that stands beside the row. -/
theorem value_shownSql (row : String → Option Datum) :
    E.value (cells.beside table row) (shownSql table keepsMissing) =
      if row OverrideUses.replacementColumn = some (.text OverrideUses.nullMarker) then none
      else if keepsMissing then (row OverrideUses.replacementColumn).or (some (.text "Unknown"))
      else row OverrideUses.replacementColumn := by
  have found : E.value (cells.beside table row) (.tableCol table OverrideUses.replacementColumn) =
      row OverrideUses.replacementColumn := if_pos rfl
  have marked : E.value (cells.beside table row)
      ((Expr.tableCol table OverrideUses.replacementColumn).eq
        (.string OverrideUses.nullMarker)) = some (.truth true) ↔
      row OverrideUses.replacementColumn = some (.text OverrideUses.nullMarker) := by
    rw [Expr.eq, Engine.value, found]
    cases row OverrideUses.replacementColumn with
    | none => exact iff_of_false (Option.some_ne_none _).symm (Option.some_ne_none _).symm
    | some w => simp [Expr.string, Engine.value]
  unfold shownSql Expr.caseWhen
  rw [Engine.value, Engine.chosen, Engine.chosen]
  refine if_congr marked rfl ?_
  rw [Engine.value?]
  split
  · change (E.value _ _).or ((E.value _ (.string "Unknown")).or none) = _
    rw [found]
    rfl
  · exact found

theorem value_shownSql_pairRow (w : Option String) :
    E.value (cells.beside table (pairRow (v, w))) (shownSql table keepsMissing) =
      (decoded w).map .text := by
  have replaced : pairRow (v, w) OverrideUses.replacementColumn =
      some (.text (w.getD OverrideUses.nullMarker)) := rfl
  rw [value_shownSql, replaced, Option.some_or, ite_self]
  cases w with
  | none => rfl
  | some w =>
    by_cases marker : w = OverrideUses.nullMarker
    · simp [decoded, marker]
    · simp [decoded, marker]

theorem value_shownSql_nulls :
    E.value (cells.beside table fun _ => none) (shownSql table true) = some (.text "Unknown") := by
  rw [value_shownSql, if_neg nofun, if_pos rfl, Option.none_or]

/-- A row that stays shows what its value becomes. -/
theorem map_value_joinedRow? (m : OverrideMapping) :
    (m.joinedRow? keepsMissing v).map
        (fun row => E.value (cells.beside table row) (shownSql table keepsMissing)) =
      (m.shown? keepsMissing v).map fun w => (decoded w).map .text := by
  unfold joinedRow? shown?
  cases m.replacement? v with
  | some w => exact congrArg some (value_shownSql_pairRow w)
  | none =>
    cases keepsMissing with
    | true => exact congrArg some value_shownSql_nulls
    | false => rfl

/-- What a value becomes is what the mapping says, unless that is the text that stands for null. -/
theorem decoded_shown?_eq_iff (m : OverrideMapping) (keepsMissing : Bool) (v : Option String) :
    ((m.shown? keepsMissing v).map fun w => (decoded w).map Datum.text) =
        (m.shown? keepsMissing v).map (·.map .text) ↔
      m.replacement? v ≠ some (some OverrideUses.nullMarker) := by
  unfold shown?
  cases m.replacement? v with
  | some w =>
    have texts : Function.Injective (Option.map Datum.text) :=
      Option.map_injective fun _ _ => Datum.text.inj
    refine Option.some_inj.trans (texts.eq_iff.trans ?_)
    exact decoded_eq_self_iff.trans (Option.some_inj.not).symm
  | none => cases keepsMissing <;> exact iff_of_true rfl nofun

end OverrideMapping

namespace OverrideTables

variable {E : Engine} {tables : List Sql.CommonTable} {cells : Cells} {names : List String}

/-- What a use shows on a row. -/
def shownBy (E : Engine) (u : OverrideKey × Expr) (c : Cells) : Option Datum :=
  E.value c (OverrideMapping.shownSql u.1.identifier u.1.keepsMissing)

/-- Later joins do not touch what a use has put beside a row. -/
theorem shownBy_of_mem_joinedAll? {u : OverrideKey × Expr} {uses : List (OverrideKey × Expr)}
    (new : u.1.identifier ∉ uses.map fun u => u.1.identifier) {rows : List Cells}
    (h : E.joinedAll? tables (uses.map useJoin) [cells] = some rows) {c : Cells} (hc : c ∈ rows) :
    shownBy E u c = shownBy E u cells := by
  obtain ⟨_, member, same⟩ := Engine.exists_of_mem_joinedAll? h hc
  cases List.mem_singleton.1 member
  refine E.value_congr _ fun column hn => same _ _ ?_
  rw [OverrideMapping.columns_shownSql hn, List.forall_mem_map]
  intro v hv taken
  exact new (List.mem_map.2 ⟨v, hv, (Option.some.inj taken).symm⟩)

/-- What all uses of a query show for a row, if it stays: each use, whatever is joined for the
others, what becomes of its own value. -/
theorem joinedAll?_useJoin {uses : List (OverrideKey × Expr)}
    {mapping : OverrideKey → OverrideMapping} {value : OverrideKey → Option String}
    (distinct : (uses.map fun u => u.1.identifier).Nodup)
    (within : ∀ u ∈ uses, u.1.identifier ∈ names)
    (reads : ∀ u ∈ uses, Reads tables u.1 (mapping u.1))
    (values : ∀ u ∈ uses, HasValue E cells names u.2 (value u.1)) :
    ∃ rows, E.joinedAll? tables (uses.map useJoin) [cells] = some rows ∧
      rows.map (fun c => uses.map fun u => shownBy E u c) =
        (uses.mapM fun u => ((mapping u.1).shown? u.1.keepsMissing (value u.1)).map fun w =>
          (OverrideMapping.decoded w).map Datum.text).toList := by
  induction uses generalizing cells with
  | nil => exact ⟨[cells], rfl, rfl⟩
  | cons u uses ih =>
    obtain ⟨new, distinct⟩ := List.nodup_cons.1 distinct
    obtain ⟨here, within⟩ := List.forall_mem_cons.1 within
    obtain ⟨read, reads⟩ := List.forall_mem_cons.1 reads
    obtain ⟨has, values⟩ := List.forall_mem_cons.1 values
    have joined := joined?_useJoin read has here
    have shows : ((mapping u.1).joinedRow? u.1.keepsMissing (value u.1)).map (fun row =>
        shownBy E u (cells.beside u.1.identifier row)) = _ :=
      OverrideMapping.map_value_joinedRow? (mapping u.1)
    rw [List.map_cons, Engine.joinedAll?, Engine.joinedRows?, joined, List.mapM_cons, ← shows]
    cases (mapping u.1).joinedRow? u.1.keepsMissing (value u.1) with
    | none => exact ⟨[], E.joinedAll?_nil tables _, rfl⟩
    | some row =>
      obtain ⟨rows, all, rest⟩ := ih distinct within reads
        fun u hu => (values u hu).beside here row
      refine ⟨rows, all, ?_⟩
      have first : rows.map (fun c => (u :: uses).map fun u => shownBy E u c) =
          (rows.map fun c => uses.map fun u => shownBy E u c).map
            (shownBy E u (cells.beside u.1.identifier row) :: ·) := by
        rw [List.map_map]
        refine List.map_congr_left fun c hc => ?_
        exact congrArg (· :: _) (shownBy_of_mem_joinedAll? new all hc)
      rw [first, rest, ← Option.toList_map]
      cases uses.mapM fun u => ((mapping u.1).shown? u.1.keepsMissing (value u.1)).map fun w =>
        (OverrideMapping.decoded w).map Datum.text with
      | none => rfl
      | some shown => rfl

end OverrideTables

/-- A use shows what the mapping says, unless the value becomes the text that stands for null. -/
theorem OverrideTables.shows_iff {E : Engine} {tables : List Sql.CommonTable} {m : OverrideMapping}
    {u : OverrideKey × Expr} {cells : Cells} {v : Option String} (reads : Reads tables u.1 m)
    (h : HasValue E cells [u.1.identifier] u.2 v) :
    ∃ rows, E.joined? tables (useJoin u) cells = some rows ∧
      (rows.map (shownBy E u) = (m.shown? u.1.keepsMissing v).toList.map (·.map .text) ↔
        m.replacement? v ≠ some (some OverrideUses.nullMarker)) := by
  refine ⟨_, joined?_useJoin reads h (List.mem_singleton_self _), ?_⟩
  have single : Function.Injective (@Option.toList (Option Datum)) :=
    Function.LeftInverse.injective (g := List.head?) fun o => by cases o <;> rfl
  have shows : (m.joinedRow? u.1.keepsMissing v).map (fun row =>
      shownBy E u (cells.beside u.1.identifier row)) = _ :=
    OverrideMapping.map_value_joinedRow? m
  rw [List.map_map, Function.comp_def, ← Option.toList_map, ← Option.toList_map, single.eq_iff,
    shows, OverrideMapping.decoded_shown?_eq_iff]

/-! ## Uses of mappings -/

/-- The join that a use adds to a query, and the table that it reads. -/
theorem join_evaluateOverride {m : OverrideMapping} {tables : OverrideTables}
    (loaded : tables.get? m.slug = some m.query) (keepsMissing : Bool) (r : Fragment) (q : Query) :
    tables.join q (Formula.Node.evaluateOverride m.slug keepsMissing r).overrides.toList =
      .ok { q with
        joins := q.joins ++
          [OverrideTables.useJoin (⟨r.sql.text .snowflake, m.slug, keepsMissing⟩, r.sql)]
        tables := q.tables ++ [⟨OverrideKey.tableName m.slug, m.query⟩] } := by
  have one : tables.joinUse q ⟨r.sql.text .snowflake, m.slug, keepsMissing⟩ r.sql = .ok { q with
      joins := q.joins ++
        [OverrideTables.useJoin (⟨r.sql.text .snowflake, m.slug, keepsMissing⟩, r.sql)]
      tables := q.tables ++ [⟨OverrideKey.tableName m.slug, m.query⟩] } := by
    unfold OverrideTables.joinUse
    rw [loaded]
    rfl
  rw [Formula.overrides_evaluateOverride]
  change (tables.joinUse q _ r.sql >>= fun q => .ok q) = _
  rw [one]
  rfl

/-- The table that is added is read unless another one has its name. -/
theorem OverrideTables.reads_append {m : OverrideMapping} (valid : m.fault? = none)
    {ts : List Sql.CommonTable} {k : OverrideKey}
    (own : ∀ t ∈ ts, t.name = OverrideKey.tableName k.mapping → t.query = m.query) :
    Reads (ts ++ [⟨OverrideKey.tableName k.mapping, m.query⟩]) k m := by
  refine ⟨?_, valid⟩
  rw [List.find?_append]
  cases found : ts.find? fun t => t.name = OverrideKey.tableName k.mapping with
  | some t =>
    have named := List.find?_some found
    exact ⟨t, rfl, own t (List.mem_of_find?_eq_some found) (of_decide_eq_true named)⟩
  | none => exact ⟨⟨OverrideKey.tableName k.mapping, m.query⟩, by simp, rfl⟩

/-- Whether every use of a mapping shows what it says: one row with the replacement of the value, or
for a value that has none one row that shows it as unknown, or no row if such rows are left out. -/
def OverrideMapping.IsShown (m : OverrideMapping) : Prop :=
  ∀ (E : Engine) (keepsMissing : Bool) (r : Fragment) (tables : OverrideTables) (q : Query),
    tables.get? m.slug = some m.query →
    (∀ t ∈ q.tables, t.name = OverrideKey.tableName m.slug → t.query = m.query) →
    ∃ j ts, tables.join q (Formula.Node.evaluateOverride m.slug keepsMissing r).overrides.toList =
        .ok { q with joins := q.joins ++ [j], tables := ts } ∧
      ∀ cells v, OverrideTables.HasValue E cells j.table.alias?.toList r.sql v →
        ∃ rows, E.joined? ts j cells = some rows ∧
          rows.map (fun c => E.value c (Formula.Node.evaluateOverride m.slug keepsMissing r).sql) =
            (m.shown? keepsMissing v).toList.map (·.map .text)

namespace OverrideMapping

variable {m : OverrideMapping}

theorem isShown_of_ne_marker (valid : m.fault? = none)
    (plain : ∀ pair ∈ m.pairs, pair.2 ≠ some OverrideUses.nullMarker) : m.IsShown := by
  intro E keepsMissing r tables q loaded own
  refine ⟨_, _, join_evaluateOverride loaded keepsMissing r q, fun cells v h => ?_⟩
  rw [Formula.sql_evaluateOverride]
  obtain ⟨rows, joined, shows⟩ :=
    OverrideTables.shows_iff (u := (⟨_, m.slug, keepsMissing⟩, r.sql))
      (OverrideTables.reads_append valid own) h
  refine ⟨rows, joined, shows.2 fun marker => ?_⟩
  exact plain _ ((replacement?_eq_some_iff valid).1 marker) rfl

/-- A column that is replaced by a mapping with the text that stands for null. -/
theorem IsShown.ne_marker (valid : m.fault? = none) (shown : m.IsShown) :
    ∀ pair ∈ m.pairs, pair.2 ≠ some OverrideUses.nullMarker := by
  rintro ⟨v, w⟩ hp marker
  let E : Engine := ⟨fun _ _ => none, fun _ => rfl⟩
  let r := Fragment.ofSql (.col "value")
  have loaded : (SortedMap.empty.insert m.slug m.query).get? m.slug = some m.query := by
    rw [SortedMap.get?_insert, if_pos rfl]
  have joined := join_evaluateOverride loaded true r Query.empty
  obtain ⟨j, ts, joins, shows⟩ := shown E true r _ Query.empty loaded nofun
  cases Except.ok.inj (joins.symm.trans joined)
  let cells : Cells := fun _ _ => v.map .text
  have value : OverrideTables.HasValue E cells
      [OverrideKey.identifier ⟨r.sql.text .snowflake, m.slug, true⟩] r.sql v := by
    refine ⟨rfl, fun c hc name _ same => ?_⟩
    cases List.mem_singleton.1 hc
    cases same
  obtain ⟨rows, rowsJoined, shown⟩ := shows cells v value
  obtain ⟨rows', rowsJoined', iff⟩ :=
    OverrideTables.shows_iff (u := (⟨r.sql.text .snowflake, m.slug, true⟩, r.sql))
      (OverrideTables.reads_append valid (List.forall_mem_nil _)) value
  cases Option.some.inj (rowsJoined.symm.trans rowsJoined')
  exact iff.1 shown ((replacement?_eq_some_iff valid).2 (marker ▸ hp))

/-- A mapping that is kept shows what it says exactly if no value becomes the text that stands for
null. -/
theorem isShown_iff (valid : m.fault? = none) :
    m.IsShown ↔ ∀ pair ∈ m.pairs, pair.2 ≠ some OverrideUses.nullMarker :=
  ⟨IsShown.ne_marker valid, isShown_of_ne_marker valid⟩

/-- A mapping of genders, in which null stands for itself. -/
def genders : OverrideMapping where
  slug := "gender"
  name := "gender"
  pairs := [(some "m", some "male"), (some "unknown", none), (none, none)]
  company := "shop"

theorem isShown_iff_genders : genders.fault? = none ∧ genders.IsShown :=
  ⟨by decide, (isShown_iff (by decide)).2 (by decide)⟩

/-- A mapping whose only replacement is the text that stands for null. -/
def dashes : OverrideMapping where
  slug := "dashes"
  name := "dashes"
  pairs := [(some "x", some OverrideUses.nullMarker)]
  company := "shop"

theorem not_isShown_dashes : dashes.fault? = none ∧ ¬dashes.IsShown := by
  have valid : dashes.fault? = none := by decide
  refine ⟨valid, fun shown => ?_⟩
  exact shown.ne_marker valid _ (List.mem_singleton_self _) rfl

end OverrideMapping

end SemanticLayer
