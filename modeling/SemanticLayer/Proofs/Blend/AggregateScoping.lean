import SemanticLayer.Proofs.Blend.FormulaColumns

/-!
# Scoping of aggregates

* `Dataframe.names_aggregatedRows`: aggregates go by the labels of their formulas;
* `BlendPlan.MetricsFit`: what the formulas of aggregates may read, for each grouping set;
* `Dataframe.aggregatedRows_isScoped_iff`: when their columns are in scope.
-/

namespace SemanticLayer

open Sql (Expr Query SelectItem RowScope)
open Formula (PreFormula)

namespace BlendPlan

variable (plan : BlendPlan)

/-- The formulas that are summed. -/
def summed : List PreFormula :=
  (distinctFormulas plan.metricFormulas).filter fun f => f.aggregation.type.isSummed

/-- The formulas that rows are grouped by. -/
def grouped : List PreFormula :=
  (distinctFormulas plan.metricFormulas).filter fun f => !f.aggregation.type.isSummed

theorem toList_groups : plan.groups.toList.Perm (plan.grouped.map fun f => (f.label, f.formula)) := by
  refine SortedMap.toList_ofList_perm ?_
  rw [List.map_map]
  exact (labels_distinctFormulas plan.metricFormulas).1.sublist (List.filter_sublist.map _)

/-- The labels of all formulas, of each label once. -/
theorem labels_perm :
    (plan.summed.map (·.label) ++ plan.groups.toList.map (·.1)).Perm
      ((distinctFormulas plan.metricFormulas).map (·.label)) := by
  have groups : (plan.groups.toList.map (·.1)).Perm (plan.grouped.map (·.label)) := by
    refine (plan.toList_groups.map _).trans (.of_eq ?_)
    rw [List.map_map]
    rfl
  refine (groups.append_left _).trans ?_
  rw [← List.map_append]
  exact (List.filter_append_perm _ _).map _

end BlendPlan

namespace Dataframe

variable {df : Dataframe}

/-- The aggregates are the distinct formulas, under their labels. -/
theorem names_aggregatedRows (plan : BlendPlan) (groupingSets? : Option (List (List String))) :
    (df.aggregatedRows plan groupingSets?).outputNames.Perm
      ((BlendPlan.distinctFormulas plan.metricFormulas).map (·.label)) := by
  have items (q : Query) (item : String → Expr → Expr)
      (hi : q.items = (Query.ofItems (plan.sums ++ plan.groups.toList.map fun group =>
        (item group.1 group.2).named group.1)).items) (hu : q.union? = none) :
      q.outputNames.Perm ((BlendPlan.distinctFormulas plan.metricFormulas).map (·.label)) := by
    refine ((Query.outputNames_ofItems hi hu).trans (.of_eq ?_)).trans plan.labels_perm
    rw [List.filterMap_append]
    congr 1
    · exact Query.filterMap_outputName?_named plan.summed _ _
    · exact Query.filterMap_outputName?_named plan.groups.toList _ _
  have all : (df.groupedRows plan).outputNames.Perm
      ((BlendPlan.distinctFormulas plan.metricFormulas).map (·.label)) :=
    items _ (fun _ e => e) rfl rfl
  unfold aggregatedRows
  split
  · exact all
  · exact all
  · rename_i sets nonempty
    cases sets with
    | nil => exact absurd rfl nonempty
    | cons set sets =>
      unfold groupingSetsRows
      dsimp only
      rw [List.map_cons, Query.outputNames_unionAll]
      exact items _ (fun label e =>
        if (SortedSet.ofList (set.map Identifier.safe)).contains label then e
        else .string leftOutMarker) rfl rfl

end Dataframe

namespace BlendPlan

variable (plan : BlendPlan)

theorem forall_groups {p : String → Expr → Prop} :
    (∀ e ∈ plan.groups.toList, p e.1 e.2) ↔ ∀ f ∈ plan.grouped, p f.label f.formula := by
  have same : (∀ e ∈ plan.groups.toList, p e.1 e.2) ↔
      ∀ e ∈ plan.grouped.map fun f => (f.label, f.formula), p e.1 e.2 :=
    forall_congr' fun e => imp_congr_left plan.toList_groups.mem_iff
  rw [same, List.forall_mem_map]

theorem forall_distinct {p q : PreFormula → Prop} :
    ((∀ f ∈ plan.summed, p f) ∧ ∀ f ∈ plan.grouped, q f) ↔
      ∀ f ∈ distinctFormulas plan.metricFormulas,
        if f.aggregation.type.isSummed then p f else q f := by
  unfold summed grouped
  simp only [List.mem_filter, and_imp, Bool.not_eq_true']
  constructor
  · rintro ⟨sums, groups⟩ f hf
    split
    · rename_i h
      exact sums f hf h
    · rename_i h
      exact groups f hf (Bool.not_eq_true _ ▸ h)
  · intro all
    constructor
    · intro f hf h
      have fits := all f hf
      rwa [if_pos h] at fits
    · intro f hf h
      have fits := all f hf
      rwa [if_neg (by rw [h]; exact Bool.false_ne_true)] at fits

/-- Whether a grouping set reads a formula: it is summed, or a member of the set. -/
def Reads (set : List String) (f : PreFormula) : Prop :=
  f.aggregation.type.isSummed = true ∨ f.label ∈ set.map Identifier.safe

/-- Whether the formulas of metrics can be computed over rows with some columns. -/
def MetricsFit (names : List String) : Option (List (List String)) → Prop
  | none => ∀ f ∈ distinctFormulas plan.metricFormulas,
    (RowScope.of Dataframe.metricSource names).Fits f.formula
  | some [] => ∀ f ∈ distinctFormulas plan.metricFormulas,
    (RowScope.of Dataframe.metricSource names).Fits f.formula
  | some sets => ∀ set ∈ sets, ∀ f ∈ distinctFormulas plan.metricFormulas, Reads set f →
    (RowScope.of Dataframe.groupingTable names).Fits f.formula

end BlendPlan

namespace Dataframe

section
variable {df : Dataframe} {plan : BlendPlan}

theorem fits_sums {s : RowScope} :
    (∀ i ∈ plan.sums, s.Fits i.expr) ↔ ∀ f ∈ plan.summed, s.Fits f.formula := by
  refine List.forall_mem_map.trans ?_
  exact forall₂_congr fun f _ => RowScope.fits_sum

theorem groupedRows_isScoped_iff :
    (df.groupedRows plan).IsScoped ↔
      (∀ f ∈ BlendPlan.distinctFormulas plan.metricFormulas,
        (RowScope.of metricSource df.names).Fits f.formula) ∧ df.query.IsScoped := by
  refine (Query.isScoped_selection (by decide)).trans (and_congr_left fun _ => ?_)
  have groups := plan.forall_groups (p := fun _ e => (RowScope.of metricSource df.names).Fits e)
  have all := plan.forall_distinct
    (p := fun f => (RowScope.of metricSource df.names).Fits f.formula)
    (q := fun f => (RowScope.of metricSource df.names).Fits f.formula)
  simp only [ite_self] at all
  rw [List.forall_mem_append, fits_sums, List.forall_mem_map, SortedMap.values,
    List.forall_mem_map]
  refine Iff.trans ?_ all
  rw [← groups]
  exact and_iff_left_of_imp And.right

theorem withTextDimensions_isScoped_iff {labels : NameSet} :
    (df.withTextDimensions labels).IsScoped ↔ df.names.Nodup ∧ df.query.IsScoped := by
  refine (Query.isScoped_selection (by decide)).trans (and_congr_left fun _ => ?_)
  rw [List.forall_mem_map, List.nodup_iff_count_eq_one]
  refine (and_iff_left fun e he => ?_).trans (forall₂_congr fun name _ => ?_)
  · cases he
  · split
    · exact RowScope.fits_cast.trans RowScope.fits_col
    · exact RowScope.fits_col

theorem outputNames_withTextDimensions (labels : NameSet) :
    (df.withTextDimensions labels).outputNames.Perm df.names := by
  refine (Query.outputNames_ofItems rfl rfl).trans (.of_eq ?_)
  rw [List.filterMap_map]
  refine (List.filterMap_congr (g := some) fun name _ => ?_).trans List.filterMap_some
  dsimp only [Function.comp_apply]
  split
  · rfl
  · rfl

/-- A grouping set reads the formulas that are summed, and its own members. -/
theorem fits_groupingSetRows {s : RowScope} {set : List String} {rows : Query} :
    (∀ e ∈ ((groupingSetRows plan set).withTable groupingTable rows).exprs, s.Fits e) ↔
      ∀ f ∈ BlendPlan.distinctFormulas plan.metricFormulas, BlendPlan.Reads set f →
        s.Fits f.formula := by
  have member (label : String) :
      (SortedSet.ofList (set.map Identifier.safe)).contains label = true ↔
        label ∈ set.map Identifier.safe :=
    decide_eq_true_iff.trans SortedSet.mem_ofList
  have shown (label : String) (e : Expr) :
      s.Fits (if (SortedSet.ofList (set.map Identifier.safe)).contains label then e
        else .string leftOutMarker) ↔ (label ∈ set.map Identifier.safe → s.Fits e) := by
    split
    · rename_i h
      exact ⟨fun fits _ => fits, fun fits => fits ((member label).1 h)⟩
    · rename_i h
      exact iff_of_true (RowScope.fits_string _) fun hl => absurd ((member label).2 hl) h
  have groups := plan.forall_groups
    (p := fun l e => l ∈ set.map Identifier.safe → s.Fits e)
  have all := plan.forall_distinct (p := fun f => s.Fits f.formula)
    (q := fun f => f.label ∈ set.map Identifier.safe → s.Fits f.formula)
  have reads (f : PreFormula) :
      (if f.aggregation.type.isSummed then s.Fits f.formula
        else f.label ∈ set.map Identifier.safe → s.Fits f.formula) ↔
          (BlendPlan.Reads set f → s.Fits f.formula) := by
    unfold BlendPlan.Reads
    split
    · rename_i h
      exact ⟨fun fits _ => fits, fun fits => fits (.inl h)⟩
    · rename_i h
      exact imp_congr_left (or_iff_right h).symm
  simp only [reads] at all
  refine Iff.trans ?_ all
  rw [← groups]
  have exprs : ((groupingSetRows plan set).withTable groupingTable rows).exprs =
      (Query.ofItems (plan.sums ++ plan.groups.toList.map fun e =>
        (if (SortedSet.ofList (set.map Identifier.safe)).contains e.1 then e.2
          else .string leftOutMarker).named e.1)).items.map (·.expr) ++
        (plan.groups.filter fun l _ =>
          (SortedSet.ofList (set.map Identifier.safe)).contains l).values :=
    congrArg (· ++ _) (List.append_nil _)
  rw [exprs, List.forall_mem_append, List.forall_mem_map]
  simp only [(Query.items_ofItems_perm _).mem_iff]
  rw [List.forall_mem_append, fits_sums, List.forall_mem_map]
  have items := forall₂_congr fun (e : String × Expr) (_ : e ∈ plan.groups.toList) =>
    shown e.1 e.2
  refine (and_congr_left' (and_congr_right' items)).trans (and_iff_left_of_imp ?_)
  rintro ⟨_, fits⟩ e he
  obtain ⟨label, he⟩ := SortedMap.mem_values.1 he
  obtain ⟨known, hl⟩ := List.mem_filter.1 he
  exact fits _ known ((member label).1 hl)

/-- One grouping set reads the rows as a common table. -/
theorem groupingSetRows_isScoped_iff {set : List String} {labels : NameSet} :
    ((groupingSetRows plan set).withTable groupingTable (df.withTextDimensions labels)).IsScoped ↔
      (∀ f ∈ BlendPlan.distinctFormulas plan.metricFormulas, BlendPlan.Reads set f →
        (RowScope.of groupingTable df.names).Fits f.formula) ∧
      df.names.Nodup ∧ df.query.IsScoped := by
  have offered : (df.withTextDimensions labels).outputNames.Perm df.names :=
    outputNames_withTextDimensions labels
  have below : (df.withTextDimensions labels).IsScoped ↔ df.names.Nodup ∧ df.query.IsScoped :=
    withTextDimensions_isScoped_iff
  rw [← below]
  clear below
  generalize df.withTextDimensions labels = rows at *
  generalize hq : (groupingSetRows plan set).withTable groupingTable rows = q
  have above : ¬ q.IsSource := by
    subst hq
    exact fun source => nomatch (show none = some _ from source)
  have children : q.children = [rows] := by
    subst hq
    rfl
  have joins : q.joins = [] := by
    subst hq
    rfl
  have scope : q.scope = .of groupingTable rows.outputNames := by
    subst hq
    rfl
  have exprs : (∀ e ∈ q.exprs, q.scope.Fits e) ↔
      ∀ f ∈ BlendPlan.distinctFormulas plan.metricFormulas, BlendPlan.Reads set f →
        q.scope.Fits f.formula := by
    subst hq
    exact fits_groupingSetRows
  rw [Query.isScoped_iff above]
  unfold Query.IsResolved
  rw [exprs, children, joins, scope, List.forall_mem_singleton]
  have same : (∀ f ∈ BlendPlan.distinctFormulas plan.metricFormulas, BlendPlan.Reads set f →
      (RowScope.of groupingTable rows.outputNames).Fits f.formula) ↔
        ∀ f ∈ BlendPlan.distinctFormulas plan.metricFormulas, BlendPlan.Reads set f →
          (RowScope.of groupingTable df.names).Fits f.formula :=
    forall₂_congr fun f _ => imp_congr_right fun _ => RowScope.fits_of_perm offered
  rw [same]
  refine and_congr_left fun _ => and_iff_left ?_
  intro j hj
  cases hj

/-- Aggregates are in scope exactly if the formulas fit the rows, which are in scope. -/
theorem aggregatedRows_isScoped_iff {groupingSets? : Option (List (List String))}
    (nodup : df.query.IsScoped → df.names.Nodup) :
    (df.aggregatedRows plan groupingSets?).IsScoped ↔
      plan.MetricsFit df.names groupingSets? ∧ df.query.IsScoped := by
  unfold aggregatedRows BlendPlan.MetricsFit
  split
  · exact groupedRows_isScoped_iff
  · exact groupedRows_isScoped_iff
  · rename_i sets nonempty
    obtain ⟨first, hfirst⟩ := List.exists_mem_of_ne_nil sets nonempty
    unfold groupingSetsRows
    rw [Query.isScoped_unionAll, List.forall_mem_map]
    simp only [groupingSetRows_isScoped_iff]
    constructor
    · intro all
      exact ⟨fun set hset => (all set hset).1, (all first hfirst).2.2⟩
    · rintro ⟨fit, below⟩ set hset
      exact ⟨fit set hset, nodup below, below⟩

end

end Dataframe

end SemanticLayer
