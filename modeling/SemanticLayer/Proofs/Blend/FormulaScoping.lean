import SemanticLayer.Proofs.Blend.FormulaColumns
import SemanticLayer.Proofs.Sql.Names

/-!
# Scoping of formulas

* `OverrideMapping.isScoped_query`: the table of a mapping is in scope;
* `OverrideTables.areMappings_load`: the tables loaded are those of mappings;
* `Dataframe.withFormulas_isScoped_iff`: when formulas over rows are in scope, with the mappings
  they use.
-/

namespace SemanticLayer

open Sql (Expr Query SelectItem RowScope)
open Formula (PreFormula)

namespace OverrideMapping

variable (m : OverrideMapping)

theorem outputNames_query :
    m.query.outputNames = [OverrideUses.valueColumn, OverrideUses.replacementColumn] := by
  unfold query
  split
  · rfl
  · rename_i nonempty
    cases hm : m.pairs with
    | nil =>
      rw [hm] at nonempty
      exact absurd rfl nonempty
    | cons pair pairs =>
      rw [List.map_cons, Query.outputNames_unionAll]
      rfl

theorem isScoped_query : m.query.IsScoped := by
  unfold query
  split
  · refine Query.isScoped_constant rfl rfl rfl rfl ?_
    intro e he
    simp only [Query.exprs, Query.filter, Query.select, Query.empty, Expr.named, List.map_cons,
      List.map_nil, Option.toList_some, List.append_nil, List.cons_append, List.nil_append,
      List.mem_cons, List.not_mem_nil, or_false] at he
    rcases he with rfl | rfl | rfl
    · rfl
    · rfl
    · rfl
  · refine Query.isScoped_unionAll.2 ?_
    intro q hq
    obtain ⟨⟨v?, w?⟩, _, rfl⟩ := List.mem_map.1 hq
    refine Query.isScoped_constant rfl rfl rfl rfl ?_
    intro e he
    simp only [Query.exprs, row, Query.select, Query.empty, Expr.named, List.map_cons,
      List.map_nil, Option.toList_none, List.append_nil, List.mem_cons, List.not_mem_nil,
      or_false] at he
    rcases he with rfl | rfl
    · cases v? with
      | none => rfl
      | some v => rfl
    · rfl

end OverrideMapping

namespace OverrideTables

/-- Whether every table is that of a mapping: values, each with its replacement. -/
def AreMappings (tables : OverrideTables) : Prop :=
  ∀ slug q, tables.get? slug = some q →
    q.outputNames = [OverrideUses.valueColumn, OverrideUses.replacementColumn] ∧ q.IsScoped

theorem areMappings_load {ms : List OverrideMapping} {company : String} {uses : List OverrideKey}
    {maxMappings : Nat} {tables : OverrideTables}
    (h : OverrideTables.load ms company uses maxMappings = .ok tables) : tables.AreMappings := by
  unfold OverrideTables.load at h
  dsimp only at h
  split at h
  · cases h
    intro slug q hq
    cases hq
  · split at h
    · cases h
    · obtain ⟨loaded, _, h⟩ := Result.bind_eq_ok.1 h
      cases h
      intro slug q hq
      obtain ⟨m, _, e⟩ := List.mem_map.1 (SortedMap.mem_of_get?_ofList hq)
      cases e
      exact ⟨m.outputNames_query, m.isScoped_query⟩

variable {tables : OverrideTables} {uses : List (OverrideKey × Expr)} {ts : List Sql.CommonTable}

/-- Each table of a use offers the columns of a mapping. -/
theorem AreMappings.offers (ht : tables.AreMappings) (h : List.Forall₂ tables.Serves uses ts)
    {t : Sql.CommonTable} (hm : t ∈ ts) :
    t.query.outputNames = [OverrideUses.valueColumn, OverrideUses.replacementColumn] ∧
      t.query.IsScoped := by
  induction h with
  | nil => cases hm
  | cons serves _ ih =>
    rcases List.mem_cons.1 hm with rfl | hm
    · exact ht _ _ serves.2
    · exact ih hm

theorem AreMappings.names_useJoin (ht : tables.AreMappings)
    (h : List.Forall₂ tables.Serves uses ts) {u : OverrideKey × Expr} (hu : u ∈ uses) :
    (useJoin u).table.names ts = [OverrideUses.valueColumn, OverrideUses.replacementColumn] := by
  have served : ∃ t ∈ ts, t.name = OverrideKey.tableName u.1.mapping := by
    clear ht
    induction h with
    | nil => cases hu
    | cons serves _ ih =>
      rcases List.mem_cons.1 hu with rfl | hu
      · exact ⟨_, List.mem_cons_self .., serves.1⟩
      · obtain ⟨t, hm, e⟩ := ih hu
        exact ⟨t, List.mem_cons_of_mem _ hm, e⟩
  obtain ⟨t, hm, e⟩ := served
  unfold Sql.TableRef.names useJoin
  dsimp only [Sql.TableRef.withAlias, Sql.TableRef.named]
  cases found : ts.find? fun t => t.name = OverrideKey.tableName u.1.mapping with
  | none =>
    have absent := List.find?_eq_none.1 found t hm
    exact absurd (decide_eq_true e) absent
  | some t' => exact (ht.offers h (List.mem_of_find?_eq_some found)).1

end OverrideTables

namespace Dataframe

open BlendPlan (distinctFormulas)

/-- The name of the rows over which formulas are computed. -/
def formulaTable : String := "dimension_source"

/-- The columns of some rows, and those of the mappings joined to them. -/
def formulaScope (names : List String) (uses : OverrideUses) : RowScope where
  names := names
  tables := (formulaTable, names) :: uses.keys.map fun key =>
    (key.identifier, [OverrideUses.valueColumn, OverrideUses.replacementColumn])

/-- Whether formulas can be computed over rows with some columns: the columns and the joined
mappings have distinct names, and what is read is there.  A formula whose label is a column is not
computed. -/
structure FormulasFit (names : List String) (fs : List PreFormula) (uses : OverrideUses) :
    Prop where
  distinctNames : names.Nodup
  distinctTables : (formulaTable :: uses.keys.map (·.identifier)).Nodup
  formulas : ∀ f ∈ distinctFormulas fs, f.label ∉ names → (formulaScope names uses).Fits f.formula
  values : ∀ u ∈ uses.toList, (formulaScope names uses).FitsQualified u.2

variable {df df' : Dataframe} {fs : List PreFormula} {tables : OverrideTables}
  {uses : OverrideUses}

theorem fits_formulaItems {s : RowScope} {names : List String} :
    (∀ i ∈ (formulaItems names fs).values, s.Fits i.expr) ↔
      (∀ n ∈ names, s.names.count n = 1) ∧
        ∀ f ∈ distinctFormulas fs, f.label ∉ names → s.Fits f.formula := by
  constructor
  · intro all
    constructor
    · intro n hn
      exact RowScope.fits_col.1 (all _ (SortedMap.mem_values.2
        ⟨n, mem_formulaItems.2 (.inl ⟨hn, rfl⟩)⟩))
    · intro f hf new
      exact all _ (SortedMap.mem_values.2
        ⟨f.label, mem_formulaItems.2 (.inr ⟨f, hf, new, rfl, rfl⟩)⟩)
  · rintro ⟨columns, formulas⟩ i hi
    obtain ⟨name, hi⟩ := SortedMap.mem_values.1 hi
    rcases mem_formulaItems.1 hi with ⟨hn, rfl⟩ | ⟨f, hf, new, rfl, rfl⟩
    · exact RowScope.fits_col.2 (columns name hn)
    · exact formulas f hf new

theorem fitsQualified_useJoin {s : RowScope} {u : OverrideKey × Expr} :
    s.FitsQualified (OverrideTables.useJoin u).condition ↔
      s.Has (some u.1.identifier, OverrideUses.valueColumn) ∧ s.FitsQualified u.2 := by
  have columns : (OverrideTables.useJoin u).condition.columns =
      ((some u.1.identifier, OverrideUses.valueColumn) :: u.2.columns) ++
        ((some u.1.identifier, OverrideUses.valueColumn) :: u.2.columns) := rfl
  unfold RowScope.FitsQualified
  rw [columns, List.forall_mem_append, and_self_iff, List.forall_mem_cons]
  exact and_congr_left fun _ => ⟨fun h => h rfl, fun h _ => h⟩

/-- The mappings can be joined exactly if their names and that of the rows are distinct. -/
theorem has_identifiers_iff {names : List String} :
    (∀ u ∈ uses.toList, (formulaScope names uses).Has
        (some u.1.identifier, OverrideUses.valueColumn)) ↔
      (formulaTable :: uses.keys.map (·.identifier)).Nodup := by
  have taken : (formulaScope names uses).tables.map (·.1) =
      formulaTable :: uses.keys.map (·.identifier) := by
    unfold formulaScope
    rw [List.map_cons, List.map_map]
    rfl
  have offered (u : OverrideKey × Expr) (hu : u ∈ uses.toList) :
      ∃ names', (u.1.identifier, names') ∈ (formulaScope names uses).tables ∧
        OverrideUses.valueColumn ∈ names' := by
    refine ⟨_, List.mem_cons_of_mem _ (List.mem_map_of_mem ?_), List.mem_cons_self ..⟩
    exact List.mem_map_of_mem (f := Prod.fst) hu
  simp only [RowScope.has_some_iff, taken]
  constructor
  · intro all
    refine List.nodup_iff_count_le_one.2 ?_
    intro n
    by_cases hn : n ∈ uses.keys.map (·.identifier)
    · obtain ⟨key, hkey, rfl⟩ := List.mem_map.1 hn
      obtain ⟨u, hu, rfl⟩ := List.mem_map.1 hkey
      exact Nat.le_of_eq (all u hu).1
    · rw [List.count_cons, List.count_eq_zero_of_not_mem hn, Nat.zero_add]
      split
      · exact Nat.le_refl 1
      · exact Nat.zero_le 1
  · intro nodup u hu
    refine ⟨List.nodup_iff_count_eq_one.1 nodup _ ?_, offered u hu⟩
    exact List.mem_cons_of_mem _ (List.mem_map_of_mem (List.mem_map_of_mem (f := Prod.fst) hu))

section
variable {ts : List Sql.CommonTable}

theorem children_formulaQuery :
    (df.formulaQuery fs uses ts).children = ts.map (·.query) ++ [df.query] := by
  have joined : (uses.toList.map OverrideTables.useJoin).filterMap (·.table.source.query?) = [] := by
    rw [List.filterMap_map]
    exact List.filterMap_eq_nil_iff.2 fun u _ => rfl
  have sources : (df.formulaQuery fs uses ts).sources.filterMap Sql.TableSource.query? =
      df.query :: (uses.toList.map OverrideTables.useJoin).filterMap (·.table.source.query?) := by
    unfold Query.sources formulaQuery
    rw [List.filterMap_map, List.filterMap_append, List.filterMap_map]
    rfl
  unfold Query.children
  rw [sources, joined]
  exact List.append_nil _

theorem exprs_formulaQuery :
    (df.formulaQuery fs uses ts).exprs =
      (Query.ofItems (formulaItems df.names fs).values).items.map (·.expr) :=
  (List.append_nil _).trans (List.append_nil _)

theorem scope_formulaQuery (ht : tables.AreMappings)
    (serves : List.Forall₂ tables.Serves uses.toList ts) :
    (df.formulaQuery fs uses ts).scope = formulaScope df.names uses := by
  have joined : (uses.toList.map fun u => (OverrideTables.useJoin u).table).filterMap
      (fun t => t.name?.map fun a => (a, t.names ts)) =
        uses.keys.map fun key =>
          (key.identifier, [OverrideUses.valueColumn, OverrideUses.replacementColumn]) := by
    unfold SortedMap.keys
    rw [List.filterMap_map, List.map_map, ← List.filterMap_eq_map]
    refine List.filterMap_congr ?_
    intro u hu
    have names := ht.names_useJoin serves hu
    exact congrArg (fun names => some (u.1.identifier, names)) names
  unfold Query.scope formulaScope
  congr 1
  unfold Query.refs formulaQuery
  rw [List.filterMap_append, List.map_map]
  exact congrArg (_ :: ·) joined

end

/-- Formulas over rows are in scope exactly if they fit the rows, which are in scope. -/
theorem withFormulas_isScoped_iff (ht : tables.AreMappings)
    (h : df.withFormulas fs tables uses = .ok df') :
    df'.query.IsScoped ↔ (fs ≠ [] → FormulasFit df.names fs uses) ∧ df.query.IsScoped := by
  rcases withFormulas_eq_ok h with ⟨rfl, rfl⟩ | ⟨nonempty, ts, serves, rfl⟩
  · exact (and_iff_right fun h => absurd rfl h).symm
  have above : ¬ (df.formulaQuery fs uses ts).IsSource :=
    fun source => absurd (Option.some.inj source) (by decide)
  have tablesInScope : ∀ t ∈ ts, t.query.IsScoped := fun t hm => (ht.offers serves hm).2
  have items : (∀ i ∈ (Query.ofItems (formulaItems df.names fs).values).items,
      (formulaScope df.names uses).Fits i.expr) ↔
        ∀ i ∈ (formulaItems df.names fs).values, (formulaScope df.names uses).Fits i.expr :=
    forall_congr' fun i => imp_congr_left (Query.items_ofItems_perm _).mem_iff
  change (df.formulaQuery fs uses ts).IsScoped ↔ _
  rw [Query.isScoped_iff above]
  unfold Query.IsResolved
  rw [children_formulaQuery, exprs_formulaQuery, scope_formulaQuery ht serves,
    List.forall_mem_map, items, fits_formulaItems, List.forall_mem_append,
    List.forall_mem_singleton, List.forall_mem_map]
  change (_ ∧ ∀ j ∈ uses.toList.map OverrideTables.useJoin, _) ∧ _ ↔ _
  rw [List.forall_mem_map]
  simp only [fitsQualified_useJoin, forall₂_and, has_identifiers_iff]
  constructor
  · rintro ⟨⟨⟨columns, formulas⟩, distinctTables, values⟩, _, below⟩
    exact ⟨fun _ => ⟨List.nodup_iff_count_eq_one.2 columns, distinctTables, formulas, values⟩, below⟩
  · rintro ⟨fit, below⟩
    obtain ⟨distinctNames, distinctTables, formulas, values⟩ := fit nonempty
    exact ⟨⟨⟨List.nodup_iff_count_eq_one.1 distinctNames, formulas⟩, distinctTables, values⟩,
      tablesInScope, below⟩

end Dataframe

end SemanticLayer
