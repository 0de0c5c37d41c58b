import SemanticLayer.Proofs.Blend.FormulaColumns

/-!
# Scoping of comparisons

The rows of a comparison are grouped if there are formulas to group them by, and joined to the data.

* `Dataframe.names_compared`, `mem_names_groupedComparison`, `names_withComparison`: what they offer;
* `Dataframe.compared_isScoped_iff`, `groupedComparison_isScoped_iff`,
  `withComparison_isScoped_iff`: when their columns are in scope.
-/

namespace SemanticLayer

open Sql (Expr Query SelectItem RowScope)
open Formula (PreFormula)

namespace Dataframe

open BlendPlan (distinctFormulas)

section
variable {df df' : Dataframe} {templates : SourceTemplates}
  {columns : List (Taxon × DataframeColumn)}

theorem mem_columns_compared {slug : String} {c : DataframeColumn}
    (h : (slug, c) ∈ (df.compared templates columns).columns.toList) :
    ∃ b ∈ columns, comparedColumn b.1 b.2 = c := by
  obtain ⟨b, hb, e⟩ := List.mem_map.1 (SortedMap.mem_of_mem_ofList h)
  cases e
  exact ⟨b, hb, rfl⟩

/-- A comparison offers its columns under their new names, and the label of each template. -/
theorem names_compared :
    (df.compared templates columns).names.Perm
      (columns.map (fun b => (comparedColumn b.1 b.2).name) ++
        templates.values.flatten.map (·.label)) := by
  refine (Query.outputNames_ofItems rfl rfl).trans (.of_eq ?_)
  rw [List.filterMap_append]
  congr 1
  · exact Query.filterMap_outputName?_named columns _ _
  · exact Query.filterMap_outputName?_named templates.values.flatten _ _

theorem mem_names_compared {c : DataframeColumn}
    (h : c ∈ (df.compared templates columns).columns.values) :
    c.name ∈ (df.compared templates columns).names := by
  obtain ⟨slug, hc⟩ := SortedMap.mem_values.1 h
  obtain ⟨b, hb, rfl⟩ := mem_columns_compared hc
  exact names_compared.mem_iff.2 (List.mem_append_left _ (List.mem_map_of_mem hb))

variable {metrics : SortedMap String Taxon} {fs : List PreFormula}

/-- The columns that a grouped comparison is grouped by. -/
def comparisonGroups (df : Dataframe) (metrics : SortedMap String Taxon) (fs : List PreFormula) :
    NameSet :=
  .ofList (fs.map (·.label) ++ (df.columns.values.filter fun c => !metrics.contains c.name).map
    (·.name))

/-- The query that groups a comparison. -/
def groupedComparisonQuery (df : Dataframe) (metrics : SortedMap String Taxon)
    (fs : List PreFormula) : Query :=
  let groups := df.comparisonGroups metrics fs
  let sums := (df.columns.values.filter fun c => metrics.contains c.name).map fun c =>
    (Expr.sum (.col c.name)).named c.name
  ((Query.ofItems (sums ++ groups.toList.map SelectItem.ofColumn)).fromTable
    (df.table "comparison_source")).groupBy (groups.toList.map .col)

theorem groupedComparison_eq_ok (h : df.groupedComparison metrics fs = .ok df') :
    df' = df.derive (df.groupedComparisonQuery metrics fs) df.columns := by
  obtain ⟨items, hitems, h⟩ := Result.bind_eq_ok.1 h
  have sums : items = (df.columns.values.filter fun c => metrics.contains c.name).map fun c =>
      (Expr.sum (.col c.name)).named c.name := by
    rw [← List.filterMap_eq_map, List.filterMap_filter]
    refine Result.filterMapM_ok_eq hitems ?_
    intro c _ y? hy
    rw [SortedMap.contains_eq_isSome]
    split at hy
    · rename_i t found
      obtain ⟨i, hi, rfl⟩ := Result.map_eq_ok.1 hy
      unfold summedItem at hi
      split at hi
      · cases hi
        rw [found]
        rfl
      · cases hi
    · rename_i none
      cases hy
      rw [none]
      rfl
  cases h
  rw [sums]
  rfl

theorem mem_comparisonGroups {name : String} :
    name ∈ df.comparisonGroups metrics fs ↔
      name ∈ fs.map (·.label) ∨ ∃ c ∈ df.columns.values, metrics.contains c.name = false ∧
        c.name = name := by
  unfold comparisonGroups
  rw [SortedSet.mem_ofList, List.mem_append, List.mem_map (f := DataframeColumn.name)]
  simp only [List.mem_filter, Bool.not_eq_true', and_assoc]

/-- A grouped comparison offers sums under the names of metrics, and what it is grouped by. -/
theorem names_groupedComparison (h : df.groupedComparison metrics fs = .ok df') :
    df'.names.Perm ((df.columns.values.filter fun c => metrics.contains c.name).map (·.name) ++
      (df.comparisonGroups metrics fs).toList) := by
  cases groupedComparison_eq_ok h
  refine (Query.outputNames_ofItems rfl rfl).trans (.of_eq ?_)
  rw [List.filterMap_append, Query.filterMap_outputName?_ofColumn,
    Query.filterMap_outputName?_named]

/-- A grouped comparison still offers the columns of its taxons, and the labels of its formulas. -/
theorem mem_names_groupedComparison (h : df.groupedComparison metrics fs = .ok df') {name : String}
    (hn : name ∈ df.taxonNames ∨ name ∈ fs.map (·.label)) : name ∈ df'.names := by
  refine (names_groupedComparison h).mem_iff.2 (List.mem_append.2 ?_)
  rcases hn with hn | hn
  · obtain ⟨c, hc, rfl⟩ := List.mem_map.1 hn
    cases hm : metrics.contains c.name with
    | true => exact .inl (List.mem_map_of_mem (List.mem_filter.2 ⟨hc, hm⟩))
    | false => exact .inr (mem_comparisonGroups.2 (.inr ⟨c, hc, hm, rfl⟩))
  · exact .inr (mem_comparisonGroups.2 (.inl hn))

end

section
variable {data comparison : Dataframe} {fs : List PreFormula}

/-- The columns that a comparison adds. -/
def comparisonMetrics (comparison : Dataframe) : List DataframeColumn :=
  (comparison.columns.filter fun slug _ => Slug.isComparison slug).values

theorem mem_comparisonMetrics {c : DataframeColumn} (h : c ∈ comparison.comparisonMetrics) :
    c ∈ comparison.columns.values := by
  obtain ⟨slug, hc⟩ := SortedMap.mem_values.1 h
  exact SortedMap.mem_values.2 ⟨slug, (List.mem_filter.1 hc).1⟩

/-- Each column with a comparison is one of the data or one of the comparison. -/
theorem mem_joinedItems {name : String} {i : SelectItem}
    (h : (name, i) ∈ (joinedItems data comparison fs).toList) :
    ((name ∈ data.taxonNames ∨ name ∈ fs.map (·.label)) ∧
        i = (Expr.tableCol dataAlias name).named name) ∨
      (name ∈ comparison.comparisonMetrics.map (·.name) ∧
        i = (Expr.tableCol comparisonAlias name).named name) := by
  rcases List.mem_append.1 (SortedMap.mem_of_mem_ofList h) with h | h
  · rcases List.mem_append.1 h with h | h
    · obtain ⟨c, hc, e⟩ := List.mem_map.1 h
      cases e
      exact .inl ⟨.inl (List.mem_map_of_mem hc), rfl⟩
    · obtain ⟨c, hc, e⟩ := List.mem_map.1 h
      cases e
      exact .inr ⟨List.mem_map_of_mem hc, rfl⟩
  · obtain ⟨f, hf, e⟩ := List.mem_map.1 h
    cases e
    exact .inl ⟨.inr (List.mem_map_of_mem hf), rfl⟩

theorem mem_keys_joinedItems {name : String} :
    name ∈ (joinedItems data comparison fs).keys ↔
      name ∈ data.taxonNames ++ comparison.comparisonMetrics.map (·.name) ++ fs.map (·.label) := by
  refine SortedMap.mem_keys_ofList.trans ?_
  rw [List.map_append, List.map_append, List.map_map, List.map_map, List.map_map, taxonNames]
  rfl

/-- Rows with a comparison offer the columns of the data's taxons, the metrics of the comparison,
and the labels of the formulas, each name once. -/
theorem names_withComparison (plan : BlendPlan) :
    (data.withComparison comparison plan).names.Nodup ∧
      ∀ name, name ∈ (data.withComparison comparison plan).names ↔
        name ∈ data.taxonNames ++ comparison.comparisonMetrics.map (·.name) ++
          plan.dimensionFormulas.map (·.label) := by
  have shown : (joinedItems data comparison plan.dimensionFormulas).values.filterMap
      SelectItem.outputName? = (joinedItems data comparison plan.dimensionFormulas).keys := by
    refine outputNames_values ?_
    intro name i hi
    rcases mem_joinedItems hi with ⟨_, rfl⟩ | ⟨_, rfl⟩
    · rfl
    · rfl
  have keys : (data.withComparison comparison plan).names.Perm
      (joinedItems data comparison plan.dimensionFormulas).keys :=
    (Query.outputNames_ofItems rfl rfl).trans (.of_eq shown)
  exact ⟨keys.nodup_iff.2 (SortedMap.keys_nodup _), fun name =>
    keys.mem_iff.trans mem_keys_joinedItems⟩

end

variable {df df' : Dataframe}

section
variable {templates : SourceTemplates} {columns : List (Taxon × DataframeColumn)}

/-- A comparison only renames columns that are there. -/
theorem compared_isScoped_iff (nodup : df.query.IsScoped → df.names.Nodup)
    (hc : ∀ b ∈ columns, b.2.name ∈ df.names)
    (hl : ∀ label ∈ templates.values.flatten.map (·.label), label ∈ df.names) :
    (df.compared templates columns).query.IsScoped ↔ df.query.IsScoped := by
  refine (Query.isScoped_selection (by decide)).trans (and_iff_right_of_imp fun below => ?_)
  have once := List.nodup_iff_count_eq_one.1 (nodup below)
  constructor
  · rw [List.forall_mem_append, List.forall_mem_map, List.forall_mem_map]
    constructor
    · intro b hb
      exact RowScope.fits_col.2 (once _ (hc b hb))
    · intro t ht
      exact RowScope.fits_col.2 (once _ (hl _ (List.mem_map_of_mem ht)))
  · intro e he
    cases he

/-- A comparison is grouped by columns that are there. -/
theorem groupedComparison_isScoped_iff {metrics : SortedMap String Taxon}
    (h : df.groupedComparison metrics fs = .ok df')
    (nodup : df.query.IsScoped → df.names.Nodup)
    (hc : ∀ name ∈ df.taxonNames, name ∈ df.names)
    (hl : ∀ label ∈ fs.map (·.label), label ∈ df.names) :
    df'.query.IsScoped ↔ df.query.IsScoped := by
  cases groupedComparison_eq_ok h
  refine (Query.isScoped_selection (by decide)).trans (and_iff_right_of_imp fun below => ?_)
  have once := List.nodup_iff_count_eq_one.1 (nodup below)
  have groups (name : String) (hn : name ∈ (df.comparisonGroups metrics fs).toList) :
      df.names.count name = 1 := by
    rcases mem_comparisonGroups.1 hn with hn | ⟨c, hc', _, rfl⟩
    · exact once name (hl name hn)
    · exact once _ (hc _ (List.mem_map_of_mem hc'))
  constructor
  · rw [List.forall_mem_append, List.forall_mem_map, List.forall_mem_map]
    constructor
    · intro c hc'
      refine RowScope.fits_sum.2 (RowScope.fits_col.2 (once _ (hc _ ?_)))
      exact List.mem_map_of_mem (List.mem_of_mem_filter hc')
    · intro name hn
      exact RowScope.fits_col.2 (groups name hn)
  · rw [List.forall_mem_map]
    intro name hn
    exact RowScope.fits_col.2 (groups name hn)

end

section
variable {data comparison : Dataframe} {plan : BlendPlan}

/-- The columns of data and comparison. -/
def comparisonScope (data comparison : Dataframe) : RowScope where
  names := data.names
  tables := [(dataAlias, data.names), (comparisonAlias, comparison.names)]

theorem has_data_iff {name : String} :
    (comparisonScope data comparison).Has (some dataAlias, name) ↔ name ∈ data.names := by
  simp [RowScope.has_some_iff, comparisonScope, dataAlias, comparisonAlias]

theorem has_comparison_iff {name : String} :
    (comparisonScope data comparison).Has (some comparisonAlias, name) ↔
      name ∈ comparison.names := by
  simp [RowScope.has_some_iff, comparisonScope, dataAlias, comparisonAlias]

theorem columns_foldl_and (c : Expr) (cs : List Expr) :
    (cs.foldl .and c).columns = c.columns ++ cs.flatMap Expr.columns := by
  induction cs generalizing c with
  | nil => rw [List.foldl_nil, List.flatMap_nil, List.append_nil]
  | cons d cs ih =>
    rw [List.foldl_cons, ih, List.flatMap_cons, ← List.append_assoc]
    rfl

theorem columns_matchCondition (names : List String) :
    (matchCondition names).columns =
      names.flatMap fun n => (sameColumn dataAlias comparisonAlias n).columns := by
  unfold matchCondition
  cases names with
  | nil => rfl
  | cons n names =>
    rw [List.map_cons]
    dsimp only
    rw [columns_foldl_and, List.flatMap_map, List.flatMap_cons]

theorem fitsQualified_matchCondition {names : List String} :
    (comparisonScope data comparison).FitsQualified (matchCondition names) ↔
      ∀ n ∈ names, n ∈ data.names ∧ n ∈ comparison.names := by
  unfold RowScope.FitsQualified
  rw [columns_matchCondition]
  constructor
  · intro all n hn
    have reads (c : Option String × String)
        (hc : c ∈ (sameColumn dataAlias comparisonAlias n).columns) :=
      all c (List.mem_flatMap.2 ⟨n, hn, hc⟩)
    exact ⟨has_data_iff.1 (reads (some dataAlias, n) (List.mem_cons_self ..) rfl),
      has_comparison_iff.1 (reads (some comparisonAlias, n)
        (List.mem_cons_of_mem _ (List.mem_cons_self ..)) rfl)⟩
  · intro all c hc _
    obtain ⟨n, hn, hc⟩ := List.mem_flatMap.1 hc
    obtain ⟨hd, hk⟩ := all n hn
    have columns : (sameColumn dataAlias comparisonAlias n).columns =
        [(some dataAlias, n), (some comparisonAlias, n), (some dataAlias, n),
          (some comparisonAlias, n)] := rfl
    rw [columns] at hc
    simp only [List.mem_cons, List.not_mem_nil, or_false] at hc
    rcases hc with rfl | rfl | rfl | rfl
    · exact has_data_iff.2 hd
    · exact has_comparison_iff.2 hk
    · exact has_data_iff.2 hd
    · exact has_comparison_iff.2 hk

/-- Data and comparison are joined in scope exactly if both offer the columns that they are
matched on. -/
theorem withComparison_isScoped_iff (hd : ∀ name ∈ data.taxonNames, name ∈ data.names)
    (hl : ∀ label ∈ plan.dimensionFormulas.map (·.label), label ∈ data.names)
    (hk : ∀ name ∈ comparison.comparisonMetrics.map (·.name), name ∈ comparison.names) :
    (data.withComparison comparison plan).query.IsScoped ↔
      (∀ name ∈ plan.comparisonColumns, name ∈ data.names ∧ name ∈ comparison.names) ∧
        data.query.IsScoped ∧ comparison.query.IsScoped := by
  generalize hq : (data.withComparison comparison plan).query = q
  have above : ¬ q.IsSource := by
    subst hq
    exact fun source => absurd (Option.some.inj source) (by decide)
  have children : q.children = [data.query, comparison.query] := by
    subst hq
    rfl
  have exprs : q.exprs = (Query.ofItems (joinedItems data comparison
      plan.dimensionFormulas).values).items.map (·.expr) := by
    subst hq
    exact (List.append_nil _).trans (List.append_nil _)
  have joins : q.joins = [⟨.left, comparison.table comparisonAlias,
      matchCondition plan.comparisonColumns⟩] := by
    subst hq
    rfl
  have scope : q.scope = comparisonScope data comparison := by
    subst hq
    rfl
  have items : ∀ i ∈ (Query.ofItems (joinedItems data comparison
      plan.dimensionFormulas).values).items, (comparisonScope data comparison).Fits i.expr := by
    intro i hi
    obtain ⟨name, hi⟩ := SortedMap.mem_values.1 ((Query.items_ofItems_perm _).mem_iff.1 hi)
    rcases mem_joinedItems hi with ⟨hn, rfl⟩ | ⟨hn, rfl⟩
    · refine RowScope.fits_tableCol.2 (has_data_iff.2 ?_)
      exact hn.elim (hd name) (hl name)
    · exact RowScope.fits_tableCol.2 (has_comparison_iff.2 (hk name hn))
  rw [Query.isScoped_iff above]
  unfold Query.IsResolved
  rw [children, exprs, joins, scope, List.forall_mem_map, List.forall_mem_singleton,
    fitsQualified_matchCondition, List.forall_mem_cons, List.forall_mem_singleton]
  exact and_congr_left fun _ => and_iff_right items

end

end Dataframe

end SemanticLayer
