import Mathlib.Data.Prod.Basic
import SemanticLayer.Proofs.Blend.ComparisonMatching
import SemanticLayer.Proofs.Blend.Labels
import SemanticLayer.Proofs.Blend.Slots

/-!
# Grouping sets

The rows of a grouping set keep the columns whose labels are the safe forms of its slugs, and mark
all others.  A dimension's formula reads columns by the labels that its plan gave them, which need
not be the safe form of its slug.

* `Sql.Query.GroupsColumn`, `LeavesOut`: rows are grouped by a column, or are not;
* `Dataframe.groupsColumn_iff`, `leavesOut_iff`: which columns a grouping set keeps;
* `BlendPlan.GroupsMembers`: a grouping set groups by a dimension exactly if it is a member;
* `groupingSets_groupMembers_iff`: when it does.
-/

namespace SemanticLayer

open Sql (Expr Query SelectItem)
open Formula (PostFormula)

namespace Sql.Query

/-- Whether rows are grouped by a column: its formula is selected, and is one to group by. -/
def GroupsColumn (q : Query) (label : String) (formula : Expr) : Prop :=
  formula.named label ∈ q.items ∧ formula ∈ q.grouping

/-- Whether a column is left out: the marker stands for it, and its formula is one to group by at
most for another column. -/
def LeavesOut (q : Query) (label : String) (formula : Expr) : Prop :=
  (Expr.string Dataframe.leftOutMarker).named label ∈ q.items ∧
    (formula ∈ q.grouping → ∃ other ≠ label, formula.named other ∈ q.items)

end Sql.Query

namespace Dataframe

variable {plan : BlendPlan} {set : List String} {label : String} {e : Expr}

theorem nodup_slots (plan : BlendPlan) :
    ((plan.summed.map AggregateSlot.sum ++
      plan.groups.toList.map fun e => AggregateSlot.group e.1 e.2).map AggregateSlot.name).Nodup := by
  rw [List.map_append, List.map_map, List.map_map]
  exact plan.labels_perm.nodup_iff.2 (BlendPlan.labels_distinctFormulas plan.metricFormulas).1

/-- What stands under the label of a group: its formula, or the marker. -/
theorem named_mem_groupingSetRows (h : (label, e) ∈ plan.groups.toList) {x : Expr} :
    x.named label ∈ (groupingSetRows plan set).items ↔
      x = if label ∈ set.map Identifier.safe then e else .string leftOutMarker := by
  have known : AggregateSlot.group label e ∈ plan.summed.map AggregateSlot.sum ++
      plan.groups.toList.map fun e => AggregateSlot.group e.1 e.2 :=
    List.mem_append_right _ (List.mem_map.2 ⟨(label, e), h, rfl⟩)
  have value : (AggregateSlot.group label e).value set =
      if label ∈ set.map Identifier.safe then e else .string leftOutMarker := by
    unfold AggregateSlot.value
    simp only [SortedSet.contains_iff, SortedSet.mem_ofList]
  rw [(groupingSetRows_fills plan set).2, List.mem_map, ← value]
  constructor
  · rintro ⟨slot, hslot, same⟩
    obtain ⟨rfl, named⟩ := SelectItem.mk.inj same
    have slot_eq : slot = .group label e :=
      List.inj_on_of_nodup_map (nodup_slots plan) (List.mem_mergeSort.1 hslot) known
        (Option.some.inj named)
    rw [slot_eq]
  · rintro rfl
    exact ⟨_, List.mem_mergeSort.2 known, rfl⟩

theorem mem_grouping_groupingSetRows :
    e ∈ (groupingSetRows plan set).grouping ↔
      ∃ label ∈ set.map Identifier.safe, (label, e) ∈ plan.groups.toList := by
  refine SortedMap.mem_values.trans ⟨?_, ?_⟩
  · rintro ⟨label, h⟩
    obtain ⟨h, member⟩ := SortedMap.mem_filter.1 h
    exact ⟨label, SortedSet.mem_ofList.1 (SortedSet.contains_iff.1 member), h⟩
  · rintro ⟨label, member, h⟩
    refine ⟨label, SortedMap.mem_filter.2 ⟨h, ?_⟩⟩
    exact SortedSet.contains_iff.2 (SortedSet.mem_ofList.2 member)

/-- Rows are grouped by the columns whose labels are safe forms of the set's slugs. -/
theorem groupsColumn_iff (h : (label, e) ∈ plan.groups.toList)
    (unmarked : e ≠ .string leftOutMarker) :
    (groupingSetRows plan set).GroupsColumn label e ↔ label ∈ set.map Identifier.safe := by
  unfold Query.GroupsColumn
  rw [named_mem_groupingSetRows h, mem_grouping_groupingSetRows]
  constructor
  · rintro ⟨same, _⟩
    by_contra other
    rw [if_neg other] at same
    exact unmarked same
  · intro member
    exact ⟨(if_pos member).symm, label, member, h⟩

/-- All other columns are left out. -/
theorem leavesOut_iff (h : (label, e) ∈ plan.groups.toList)
    (unmarked : e ≠ .string leftOutMarker) :
    (groupingSetRows plan set).LeavesOut label e ↔ label ∉ set.map Identifier.safe := by
  unfold Query.LeavesOut
  rw [named_mem_groupingSetRows h, mem_grouping_groupingSetRows]
  constructor
  · rintro ⟨same, _⟩ member
    rw [if_pos member] at same
    exact unmarked same.symm
  · intro left
    refine ⟨(if_neg left).symm, ?_⟩
    rintro ⟨other, member, hother⟩
    refine ⟨other, ?_, (named_mem_groupingSetRows hother).2 (if_pos member).symm⟩
    rintro rfl
    exact left member

/-- The rows of a grouping set, which read the rows of all sets. -/
def groupingSetQuery (df : Dataframe) (plan : BlendPlan) (set : List String) : Query :=
  (groupingSetRows plan set).withTable groupingTable (df.withTextDimensions plan.groups.keySet)

/-- Results are read from the rows of each grouping set. -/
theorem groupingSetQuery_mem_parts {df results : Dataframe} {r : BlendRequest}
    (built : df.withMetrics plan r = .ok results) {sets : List (List String)}
    (hsets : r.groupingSets? = some sets) (hset : set ∈ sets) :
    df.groupingSetQuery plan set ∈ results.query.parts := by
  have aggregated : df.groupingSetQuery plan set ∈
      (df.aggregatedRows plan r.groupingSets?).parts := by
    rw [hsets]
    unfold aggregatedRows
    split
    · rename_i none
      cases none
    · rename_i empty
      cases empty
      cases hset
    · rename_i same
      cases same
      exact Query.mem_parts_unionAll (List.mem_map_of_mem hset)
  have shown : df.groupingSetQuery plan set ∈ (df.resultQuery plan r).parts :=
    Query.parts_of_child (List.mem_singleton_self _) aggregated
  have filtered := (withMetrics_eq_ok built).1
  unfold filteredResults at filtered
  split at filtered
  · rw [← Except.ok.inj filtered]
    exact shown
  · obtain ⟨condition, _, filtered⟩ := Result.bind_eq_ok.1 filtered
    rw [← Except.ok.inj filtered]
    exact Query.parts_of_child (List.mem_singleton_self _) shown

end Dataframe

/-- Whether the formula of a result reads a column of the aggregated rows. -/
def Formula.PostFormula.Reads (post : PostFormula) (plan : BlendPlan) (label : String) : Prop :=
  (none, label) ∈ (post.fill plan.groups.keySet).columns

namespace BlendPlan

/-- Whether a taxon is a member of a grouping set. -/
def IsMember (t : Taxon) (set : List String) : Prop :=
  ∃ slug ∈ set, Slug.withoutQuotes slug = t.slug

/-- Whether rows are grouped by all columns that a result reads if its taxon is a member of their
grouping set, and leave them out if it is not.  A formula that is the marker itself is both. -/
def GroupsMembers (plan : BlendPlan) (rows : Query) (set : List String) (t : Taxon)
    (post : PostFormula) : Prop :=
  ∀ label e, (label, e) ∈ plan.groups.toList → e ≠ .string Dataframe.leftOutMarker →
    post.Reads plan label →
      (IsMember t set → rows.GroupsColumn label e) ∧ (¬ IsMember t set → rows.LeavesOut label e)

/-- The condition: a column goes by the safe form of a slug of the set if and only if the taxon that
reads it is a member. -/
def LabelsMembers (plan : BlendPlan) (set : List String) (t : Taxon) (post : PostFormula) : Prop :=
  ∀ label e, (label, e) ∈ plan.groups.toList → e ≠ .string Dataframe.leftOutMarker →
    post.Reads plan label → (IsMember t set ↔ label ∈ set.map Identifier.safe)

theorem groupsMembers_iff {plan : BlendPlan} {df : Dataframe} {set : List String} {t : Taxon}
    {post : PostFormula} :
    plan.GroupsMembers (df.groupingSetQuery plan set) set t post ↔
      plan.LabelsMembers set t post := by
  unfold GroupsMembers LabelsMembers
  refine forall₂_congr fun label e => forall₃_congr fun h unmarked _ => ?_
  have groups : (df.groupingSetQuery plan set).GroupsColumn label e ↔
      label ∈ set.map Identifier.safe := Dataframe.groupsColumn_iff h unmarked
  have leaves : (df.groupingSetQuery plan set).LeavesOut label e ↔
      label ∉ set.map Identifier.safe := Dataframe.leavesOut_iff h unmarked
  rw [groups, leaves, not_imp_not]
  exact iff_iff_implies_and_implies.symm

end BlendPlan

variable {ts : RequestTaxons} {plan : BlendPlan}

/-- What the share of a taxon of the answer shows: the taxon, if it is raw as its column. -/
theorem RequestTaxons.results_answerShare {t : Taxon} {s : Share} (h : ts.answerShare t = .ok s) :
    ∃ post, s.plan.results = [(t, post)] ∧
      (t.isComputed = false → post = ⟨.col t.columnName, none, .empty⟩) := by
  obtain ⟨added, hadded, rfl⟩ := Result.map_eq_ok.1 h
  unfold BlendPlan.addTaxon at hadded
  split at hadded
  · rename_i computed
    obtain ⟨o, _, hadded⟩ := Result.bind_eq_ok.1 hadded
    cases hadded
    refine ⟨o.post, rfl, fun raw => ?_⟩
    unfold Taxon.isComputed Taxon.calculation? at raw
    rw [computed] at raw
    cases raw
  · cases hadded
    exact ⟨_, rfl, fun _ => rfl⟩

theorem RequestTaxons.results_comparisonShare {slug : String} {s : Share}
    (h : ts.comparisonShare slug = .ok s) : s.plan.results = [] := by
  obtain ⟨added, hadded, rfl⟩ := Result.map_eq_ok.1 h
  unfold BlendPlan.addComparisonTaxon at hadded
  split at hadded
  · cases hadded
  · split at hadded
    · obtain ⟨o, _, hadded⟩ := Result.bind_eq_ok.1 hadded
      cases hadded
      rfl
    · cases hadded
      rfl

/-- A raw taxon is shown as its column. -/
theorem RequestTaxons.reads_raw (h : ts.plan = .ok plan) {t : Taxon} {post : PostFormula}
    (shown : (t, post) ∈ plan.results) (raw : t.isComputed = false) {label : String} :
    post.Reads plan label ↔ label = t.columnName := by
  obtain ⟨shares, hshares, _, sum⟩ := plan_shares h
  have results : plan.results = shares.flatMap (·.plan.results) := sum.results
  rw [results] at shown
  obtain ⟨s, hs, among⟩ := List.mem_flatMap.1 shown
  obtain ⟨taxons, _, hshares⟩ := Result.bind_eq_ok.1 hshares
  obtain ⟨answer, hanswer, hshares⟩ := Result.bind_eq_ok.1 hshares
  obtain ⟨compared, hcompared, hshares⟩ := Result.bind_eq_ok.1 hshares
  cases hshares
  rcases List.mem_append.1 hs with hs | hs
  · obtain ⟨u, _, hu⟩ := Result.mapM_ok_mem hanswer hs
    obtain ⟨post', only, column⟩ := results_answerShare hu
    rw [only] at among
    cases List.mem_singleton.1 among
    rw [column raw]
    exact List.mem_singleton.trans Prod.mk_right_inj
  · obtain ⟨slug, _, hslug⟩ := Result.mapM_ok_mem hcompared hs
    rw [results_comparisonShare hslug] at among
    cases among

/-- Where results are built, their rows come from one query for each grouping set.  It groups by the
columns of a dimension exactly if the dimension is a member, if and only if those columns go by the
safe forms of the set's slugs exactly for its members.  For a raw dimension that is its own column. -/
theorem groupingSets_groupMembers_iff {taxonomy : TaxonMap} {useFallback : Bool}
    {request : BlendRequest} {p : PlannedRequest} {df results : Dataframe}
    {sets : List (List String)} {set : List String}
    (loaded : PlannedRequest.load taxonomy useFallback request = .ok p)
    (built : df.withMetrics p.plan p.request = .ok results)
    (hsets : p.request.groupingSets? = some sets) (hset : set ∈ sets) :
    df.groupingSetQuery p.plan set ∈ results.query.parts ∧
    ∀ t post, (t, post) ∈ p.plan.results → t.isDimension = true →
      (p.plan.GroupsMembers (df.groupingSetQuery p.plan set) set t post ↔
        p.plan.LabelsMembers set t post) ∧
      (t.isComputed = false → ∀ label, post.Reads p.plan label ↔ label = t.columnName) := by
  obtain ⟨ts, _, loaded⟩ := Result.bind_eq_ok.1 loaded
  obtain ⟨plan, planned, loaded⟩ := Result.bind_eq_ok.1 loaded
  cases loaded
  refine ⟨Dataframe.groupingSetQuery_mem_parts built hsets hset, fun t post shown _ =>
    ⟨BlendPlan.groupsMembers_iff, fun raw label => ?_⟩⟩
  exact RequestTaxons.reads_raw planned shown raw

/-- Costs by day and country, and whether the country is the one at home. -/
def homeTaxons : TaxonMap :=
  let dimension (slug : String) (definition : TaxonDefinition) : Taxon :=
    ⟨slug, slug, none, .dimension, definition, .text, "acme", none, none, none⟩
  Taxon.mapOf [dimension "day" (.raw .groupBy), dimension "country" (.raw .groupBy),
    dimension "is_home" (.computed "country = \"US\""),
    ⟨"spend", "spend", none, .metric, .raw .sum, .numeric, "acme", none, none, none⟩]

def homeModel : Model :=
  { costsOf "acme" none .available with
    attributes := .ofList (["day", "country", "spend"].map fun slug =>
      (slug, .of slug ("\"" ++ slug ++ "\""))) }

/-- The costs for each value of one dimension, and for each day. -/
def homeRequest (dimension : String) : BlendRequest :=
  { BlendRequest.ofParts [{ SourceRequest.ofDataSource "ads" ⟨"acme", none, .available, none⟩ with
      taxons := ["spend"] }] [] with
    groupingSets? := some [[dimension], ["day"]] }

/-- By country: the country is grouped by, and the day is left out. -/
theorem groupingSets_groupMembers_country :
    ∃ p df results, PlannedRequest.load homeTaxons true (homeRequest "country") = .ok p ∧
      p.data .empty [homeModel.augmented] none = .ok df ∧
      df.withMetrics p.plan p.request = .ok results ∧
      p.request.groupingSets? = some [["country"], ["day"]] ∧
      df.groupingSetQuery p.plan ["country"] ∈ results.query.parts ∧
      ∀ t post, (t, post) ∈ p.plan.results → t.isDimension = true →
        p.plan.GroupsMembers (df.groupingSetQuery p.plan ["country"]) ["country"] t post := by
  have found : (PlannedRequest.load homeTaxons true (homeRequest "country")).toOption.any fun p =>
      p.request.groupingSets? = some [["country"], ["day"]] &&
      (p.plan.results.all fun b => b.1.isDimension → b.1.isComputed = false ∧
        ((∃ slug ∈ ["country"], Slug.withoutQuotes slug = b.1.slug) ↔
          b.1.columnName ∈ ["country"].map Identifier.safe)) &&
      (p.data .empty [homeModel.augmented] none).toOption.any fun df =>
        (df.withMetrics p.plan p.request).toOption.any fun _ => true := by
    decide +kernel
  obtain ⟨p, loaded, found⟩ := Result.ok_of_any found
  obtain ⟨found, rows⟩ := Bool.and_eq_true_iff.1 found
  obtain ⟨sets, labels⟩ := Bool.and_eq_true_iff.1 found
  obtain ⟨df, hdf, built⟩ := Result.ok_of_any rows
  obtain ⟨results, hresults, _⟩ := Result.ok_of_any built
  have hsets := of_decide_eq_true sets
  obtain ⟨part, dimensions⟩ :=
    groupingSets_groupMembers_iff loaded hresults hsets (List.mem_cons_self ..)
  refine ⟨p, df, results, loaded, hdf, hresults, hsets, part, fun t post shown dimension => ?_⟩
  obtain ⟨members, reads⟩ := dimensions t post shown dimension
  obtain ⟨raw, own⟩ := of_decide_eq_true (List.all_eq_true.1 labels _ shown) dimension
  refine members.2 fun label e _ _ hlabel => ?_
  rw [(reads raw label).1 hlabel]
  exact own

/-- By whether the country is at home: what this is computed of has labels of its own, and is left
out. -/
theorem groupingSets_home_left_out :
    ∃ p df results, PlannedRequest.load homeTaxons true (homeRequest "is_home") = .ok p ∧
      p.data .empty [homeModel.augmented] none = .ok df ∧
      df.withMetrics p.plan p.request = .ok results ∧
      p.request.groupingSets? = some [["is_home"], ["day"]] ∧
      df.groupingSetQuery p.plan ["is_home"] ∈ results.query.parts ∧
      ∃ t post, (t, post) ∈ p.plan.results ∧ t.slug = "is_home" ∧ t.isDimension = true ∧
        ¬ p.plan.GroupsMembers (df.groupingSetQuery p.plan ["is_home"]) ["is_home"] t post := by
  have found : (PlannedRequest.load homeTaxons true (homeRequest "is_home")).toOption.any fun p =>
      p.request.groupingSets? = some [["is_home"], ["day"]] &&
      (p.plan.results.any fun b => b.1.slug = "is_home" && b.1.isDimension &&
        p.plan.groups.toList.any fun group =>
          group.2.text .snowflake ≠ (Expr.string Dataframe.leftOutMarker).text .snowflake &&
          (b.2.fill p.plan.groups.keySet).columns.contains (none, group.1) &&
          group.1 ∉ ["is_home"].map Identifier.safe) &&
      (p.data .empty [homeModel.augmented] none).toOption.any fun df =>
        (df.withMetrics p.plan p.request).toOption.any fun _ => true := by
    decide +kernel
  obtain ⟨p, loaded, found⟩ := Result.ok_of_any found
  obtain ⟨found, rows⟩ := Bool.and_eq_true_iff.1 found
  obtain ⟨sets, shown⟩ := Bool.and_eq_true_iff.1 found
  obtain ⟨df, hdf, built⟩ := Result.ok_of_any rows
  obtain ⟨results, hresults, _⟩ := Result.ok_of_any built
  have hsets := of_decide_eq_true sets
  obtain ⟨⟨t, post⟩, shown, home⟩ := List.any_eq_true.1 shown
  obtain ⟨home, columns⟩ := Bool.and_eq_true_iff.1 home
  obtain ⟨slug, dimension⟩ := Bool.and_eq_true_iff.1 home
  obtain ⟨⟨label, e⟩, grouped, column⟩ := List.any_eq_true.1 columns
  obtain ⟨column, other⟩ := Bool.and_eq_true_iff.1 column
  obtain ⟨unmarked, reads⟩ := Bool.and_eq_true_iff.1 column
  refine ⟨p, df, results, loaded, hdf, hresults, hsets,
    Dataframe.groupingSetQuery_mem_parts hresults hsets (List.mem_cons_self ..), t, post, shown,
    of_decide_eq_true slug, dimension, fun groups => ?_⟩
  have labels := BlendPlan.groupsMembers_iff.1 groups label e grouped
    (fun marked => of_decide_eq_true unmarked (by rw [marked])) (List.contains_iff_mem.1 reads)
  have member : BlendPlan.IsMember t ["is_home"] :=
    ⟨"is_home", List.mem_singleton_self _, (of_decide_eq_true slug).symm ▸ by decide⟩
  exact of_decide_eq_true other (labels.1 member)

end SemanticLayer
