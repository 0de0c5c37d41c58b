import SemanticLayer.Blend.Answer
import SemanticLayer.Proofs.Blend.AggregateScoping
import SemanticLayer.Proofs.Filter.Conditions

/-!
# Scoping of results

* `Dataframe.names_withMetrics`: results go by the columns of their taxons;
* `Dataframe.withMetrics_isScoped_iff`: when results and their filter are in scope;
* `Dataframe.project_isScoped_iff`: when the answer is.
-/

namespace SemanticLayer

open Sql (Expr Query SelectItem RowScope)
open Formula (PreFormula)

namespace Dataframe

variable {df df' : Dataframe}

/-- The query of the results, before they are filtered. -/
def resultQuery (df : Dataframe) (plan : BlendPlan) (r : BlendRequest) : Query :=
  (Query.ofItems ((distinctResults plan.results).values.map fun b =>
    (b.2.fill plan.groups.keySet).named b.1.columnName)).fromTable
      (.subquery (df.aggregatedRows plan r.groupingSets?) metricSource)

theorem withMetrics_eq_ok {plan : BlendPlan} {r : BlendRequest}
    (h : df.withMetrics plan r = .ok df') :
    filteredResults (df.resultQuery plan r) df'.columns r.filter? = .ok df'.query ∧
      df'.columns = (distinctResults plan.results).mapValues fun slug b =>
        ⟨b.1.columnName, b.1.slug, ((df.columns.get? slug).map (·.quantity)).getD .scalar⟩ := by
  obtain ⟨q, hq, h⟩ := Result.bind_eq_ok.1 h
  cases h
  exact ⟨hq, rfl⟩

theorem names_filteredResults {q q' : Query} {columns : SortedMap String DataframeColumn}
    {filter? : Option FilterClause} (h : filteredResults q columns filter? = .ok q') :
    q'.outputNames = q.outputNames := by
  unfold filteredResults at h
  split at h
  · cases h
    rfl
  · obtain ⟨condition, _, h⟩ := Result.bind_eq_ok.1 h
    cases h
    exact Query.filterMap_outputName?_ofColumn q.outputNames

theorem outputNames_resultQuery (plan : BlendPlan) (r : BlendRequest) :
    (df.resultQuery plan r).outputNames.Perm
      ((distinctResults plan.results).values.map (·.1.columnName)) :=
  (Query.outputNames_ofItems rfl rfl).trans (.of_eq (Query.filterMap_outputName?_named _ _ _))

/-- The results are the taxons of the answer and what it is filtered and ordered by. -/
theorem names_withMetrics {plan : BlendPlan} {r : BlendRequest}
    (h : df.withMetrics plan r = .ok df') :
    df'.names.Perm ((distinctResults plan.results).values.map (·.1.columnName)) := by
  rw [names, names_filteredResults (withMetrics_eq_ok h).1]
  exact outputNames_resultQuery plan r

variable {plan : BlendPlan} {r : BlendRequest}

/-- Filtered results are in scope exactly if no two results have one name. -/
theorem filteredResults_isScoped_iff {q q' : Query} {columns : SortedMap String DataframeColumn}
    {filter? : Option FilterClause} (hc : ∀ c ∈ columns.values, c.name ∈ q.outputNames)
    (h : filteredResults q columns filter? = .ok q') :
    q'.IsScoped ↔ (filter?.isSome = true → q.outputNames.Nodup) ∧ q.IsScoped := by
  unfold filteredResults at h
  split at h
  · cases h
    exact (and_iff_right fun h => nomatch h).symm
  obtain ⟨condition, hcondition, h⟩ := Result.bind_eq_ok.1 h
  cases h
  generalize hq : ((Query.empty.select (q.outputNames.map SelectItem.ofColumn)).fromTable
    (.subquery q "metric_result")).filter condition = s
  have above : ¬ s.IsSource := by
    subst hq
    exact fun source => absurd (Option.some.inj source) (by decide)
  have children : s.children = [q] := by
    subst hq
    rfl
  have exprs : s.exprs =
      (q.outputNames.map SelectItem.ofColumn).map (·.expr) ++ [condition] := by
    subst hq
    exact List.append_nil _
  have joins : s.joins = [] := by
    subst hq
    rfl
  have scope : s.scope = .of "metric_result" q.outputNames := by
    subst hq
    rfl
  have kept : q.outputNames.Nodup → (RowScope.of "metric_result" q.outputNames).Fits condition := by
    intro nodup
    refine FilterClause.reads_condition ?_ _ hcondition
    intro slug c found
    obtain ⟨⟨slug', c'⟩, hc', e⟩ := List.mem_map.1 (SortedMap.mem_of_get? found)
    cases e
    refine RowScope.fits_col.2 (List.nodup_iff_count_eq_one.1 nodup _ (hc c' ?_))
    exact SortedMap.mem_values.2 ⟨_, hc'⟩
  rw [Query.isScoped_iff above]
  unfold Query.IsResolved
  rw [exprs, children, joins, scope, List.forall_mem_singleton, List.forall_mem_append,
    List.forall_mem_map, List.forall_mem_map, List.forall_mem_singleton]
  refine and_congr_left fun _ => ?_
  constructor
  · rintro ⟨⟨columns, _⟩, _⟩ _
    exact List.nodup_iff_count_eq_one.2 fun n hn => RowScope.fits_col.1 (columns n hn)
  · intro nodup
    have nodup := nodup rfl
    refine ⟨⟨fun n hn => ?_, kept nodup⟩, fun j hj => nomatch hj⟩
    exact RowScope.fits_col.2 (List.nodup_iff_count_eq_one.1 nodup n hn)

end Dataframe

namespace BlendPlan

variable (plan : BlendPlan)

/-- Whether the last formulas read nothing but aggregates. -/
def ResultsFit : Prop :=
  ∀ b ∈ (Dataframe.distinctResults plan.results).values,
    (RowScope.of Dataframe.metricSource
      ((distinctFormulas plan.metricFormulas).map (·.label))).Fits (b.2.fill plan.groups.keySet)

/-- The columns of the results. -/
def resultNames : List String :=
  (Dataframe.distinctResults plan.results).values.map (·.1.columnName)

end BlendPlan

namespace Dataframe

theorem slug_distinctResults {results : List (Taxon × Formula.PostFormula)} {slug : String}
    {b : Taxon × Formula.PostFormula} (h : (slug, b) ∈ (distinctResults results).toList) :
    b.1.slug = slug := by
  unfold distinctResults at h
  induction results using List.reverseRecOn with
  | nil => cases h
  | append_singleton results result ih =>
    rw [List.foldl_append, List.foldl_cons, List.foldl_nil] at h
    rcases SortedMap.mem_toList_insertIfNew.1 h with h | ⟨_, rfl, rfl⟩
    · exact ih h
    · rfl

variable {df df' : Dataframe} {plan : BlendPlan} {r : BlendRequest}

/-- A result stands under its slug. -/
theorem name_withMetrics (h : df.withMetrics plan r = .ok df') {slug : String}
    {c : DataframeColumn} (hc : df'.columns.get? slug = some c) : c.name = Identifier.safe slug := by
  rw [(withMetrics_eq_ok h).2] at hc
  obtain ⟨⟨slug', b⟩, hb, e⟩ := List.mem_map.1 (SortedMap.mem_of_get? hc)
  cases e
  exact congrArg Identifier.safe (slug_distinctResults hb)

/-- Results are in scope exactly if they read aggregates only, which are in scope; a filter on
them needs distinct names. -/
theorem withMetrics_isScoped_iff (nodup : df.query.IsScoped → df.names.Nodup)
    (h : df.withMetrics plan r = .ok df') :
    df'.query.IsScoped ↔ (r.filter?.isSome = true → plan.resultNames.Nodup) ∧ plan.ResultsFit ∧
      plan.MetricsFit df.names r.groupingSets? ∧ df.query.IsScoped := by
  obtain ⟨filtered, columns⟩ := withMetrics_eq_ok h
  have offered : (df.resultQuery plan r).outputNames.Perm
      ((distinctResults plan.results).values.map (·.1.columnName)) := outputNames_resultQuery plan r
  have known : ∀ c ∈ df'.columns.values, c.name ∈ (df.resultQuery plan r).outputNames := by
    intro c hc
    obtain ⟨slug, hc⟩ := SortedMap.mem_values.1 hc
    rw [columns] at hc
    obtain ⟨e, he, same⟩ := List.mem_map.1 hc
    cases same
    refine offered.mem_iff.2 (List.mem_map_of_mem (f := fun b : Taxon × _ => b.1.columnName) ?_)
    exact SortedMap.mem_values.2 ⟨e.1, he⟩
  rw [filteredResults_isScoped_iff known filtered, offered.nodup_iff, BlendPlan.resultNames,
    ← aggregatedRows_isScoped_iff nodup]
  refine and_congr_right fun _ => ?_
  refine (Query.isScoped_selection (by decide)).trans (and_congr_left fun _ => ?_)
  refine (and_iff_left fun e he => nomatch he).trans (List.forall_mem_map.trans ?_)
  exact forall₂_congr fun b _ => RowScope.fits_of_perm (names_aggregatedRows plan r.groupingSets?)

theorem fits_answerItems {s : RowScope} {ts : List Taxon} {items : List SelectItem}
    (hc : ∀ slug c, df.columns.get? slug = some c → c.name = Identifier.safe slug)
    (h : ts.mapM df.answerItem = .ok items) :
    (∀ i ∈ items, s.Fits i.expr) ↔ ∀ t ∈ ts, s.names.count t.columnName = 1 := by
  have each := Result.mapM_eq_ok.1 h
  clear h
  induction each with
  | nil => exact iff_of_true (fun i hi => nomatch hi) fun t ht => nomatch ht
  | cons found _ ih =>
    rw [List.forall_mem_cons, List.forall_mem_cons]
    refine and_congr ?_ ih
    unfold answerItem at found
    split at found
    · cases found
    · rename_i c hcolumn
      cases found
      rw [Taxon.columnName, ← hc _ c hcolumn]
      cases c.quantity with
      | scalar => exact RowScope.fits_col
      | array => exact RowScope.fits_cast.trans RowScope.fits_col

/-- The answer is in scope exactly if each of its taxons is the only result of its name. -/
theorem project_isScoped_iff {taxons : TaxonMap}
    (hc : ∀ slug c, df.columns.get? slug = some c → c.name = Identifier.safe slug)
    (h : df.project taxons r = .ok df') :
    df'.query.IsScoped ↔
      (∀ t ∈ taxons.values, df.names.count t.columnName = 1) ∧ df.query.IsScoped := by
  obtain ⟨order, _, h⟩ := Result.bind_eq_ok.1 h
  obtain ⟨items, hitems, h⟩ := Result.bind_eq_ok.1 h
  cases h
  refine (Query.isScoped_selection (by decide)).trans (and_congr_left fun _ => ?_)
  exact (and_iff_left fun e he => nomatch he).trans (fits_answerItems hc hitems)

end Dataframe

end SemanticLayer
