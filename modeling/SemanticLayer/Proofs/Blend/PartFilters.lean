import SemanticLayer.Proofs.Blend.ComparedTaxons
import SemanticLayer.Proofs.Blend.PartOrders
import SemanticLayer.Proofs.Blend.SortingTaxons
import SemanticLayer.Proofs.Filter.WellFormed

/-!
# Filters on the rows of parts

The taxons that filter the rows of a part are computed by templates.  A plan keeps these by data
source, so of several parts over one data source only the last one has its templates planned.

* `SourceRequest.filterSlugs`: the taxons that filter the rows of a part;
* `BlendPlan.get?_addAllFilters`: the templates that a run over the parts leaves;
* `PlannedRequest.mem_keys_filterTemplates`: those that the rows of a part get;
* `SourceRows.columns`, `SourceRows.conditions_of_dataframe`: the columns that rows are filtered by,
  and that a part whose query is built has a condition for each of its filters;
* `Catalog.readsFilters_iff`: when the columns of a part are enough for its own filters.
-/

namespace SemanticLayer

namespace SourceRequest

variable {p q : SourceRequest}

/-- The filters on the rows of a part: that of its scope and its own. -/
def filters (p : SourceRequest) : List FilterClause :=
  p.scope.preaggregationFilter?.toList ++ p.preaggregationFilter?.toList

/-- The taxons that filter the rows of a part. -/
def filterSlugs (p : SourceRequest) : List String := p.filters.flatMap FilterClause.taxonList

/-- Whether the taxons that filter the rows of a part have columns. -/
def ReadsFilters (p : SourceRequest) (columns : TaxonColumns) : Prop :=
  ∀ slug ∈ p.filterSlugs, slug ∈ columns.keys

/-- Whether the filters on the rows of a part have conditions. -/
def HasConditions (p : SourceRequest) (columns : TaxonColumns) : Prop :=
  ∀ f ∈ p.filters, ∃ e, f.condition columns = .ok e

/-- The last one of some parts that is over the data source of a part. -/
def lastLike (p : SourceRequest) (ps : List SourceRequest) : SourceRequest :=
  (ps.reverse.find? fun q => q.dataSources = p.dataSources).getD p

theorem dataSource_eq_ok {dataSource : String} :
    p.dataSource = .ok dataSource ↔ p.dataSources = [dataSource] := by
  unfold SourceRequest.dataSource
  split
  · rename_i own
    rw [own, Except.ok.injEq, List.cons.injEq, and_iff_left rfl]
  · rename_i several
    exact iff_of_false nofun fun single => several _ single

theorem mem_filters {f : FilterClause} :
    f ∈ p.filters ↔ p.scope.preaggregationFilter? = some f ∨ p.preaggregationFilter? = some f := by
  unfold filters
  rw [List.mem_append, Option.mem_toList, Option.mem_toList]

theorem hasConditions_iff {columns : TaxonColumns} :
    p.HasConditions columns ↔
      p.ReadsFilters columns ∧ ∀ f ∈ p.filters, ∀ part ∈ f.parts, part.IsFilled := by
  unfold HasConditions ReadsFilters filterSlugs
  simp only [FilterClause.exists_condition_iff, List.mem_flatMap, forall_exists_index, and_imp]
  constructor
  · exact fun h => ⟨fun slug f hf hs => (h f hf).1 slug hs, fun f hf => (h f hf).2⟩
  · exact fun h f hf => ⟨fun slug hs => h.1 slug f hf hs, h.2 f hf⟩

/-- Parts that differ in what they ask for and how they are ordered have the same last one. -/
theorem filterSlugs_lastLike {ps qs : List SourceRequest} {p q : SourceRequest}
    (h : List.Forall₂ (fun p q => q = { p.unordered with taxons := q.taxons }) ps qs)
    (hpq : q = { p.unordered with taxons := q.taxons }) :
    (q.lastLike qs).filterSlugs = (p.lastLike ps).filterSlugs := by
  have found {xs ys : List SourceRequest}
      (h : List.Forall₂ (fun p q => q = { p.unordered with taxons := q.taxons }) xs ys) :
      ((ys.find? fun r => r.dataSources = q.dataSources).getD q).filterSlugs =
        ((xs.find? fun r => r.dataSources = p.dataSources).getD p).filterSlugs := by
    have own : q.dataSources = p.dataSources := by rw [hpq]; rfl
    induction h with
    | nil =>
      change q.filterSlugs = p.filterSlugs
      rw [hpq]
      rfl
    | @cons x y xs ys hxy _ ih =>
      have same : y.dataSources = x.dataSources := by rw [hxy]; rfl
      by_cases like : x.dataSources = p.dataSources
      · have like' : y.dataSources = q.dataSources := same.trans (like.trans own.symm)
        rw [List.find?_cons_of_pos (by simpa using like'),
          List.find?_cons_of_pos (by simpa using like), Option.getD_some, Option.getD_some, hxy]
        rfl
      · have like' : y.dataSources ≠ q.dataSources := by rwa [same, own]
        rw [List.find?_cons_of_neg (by simpa using like'),
          List.find?_cons_of_neg (by simpa using like)]
        exact ih
  exact found (List.forall₂_reverse_iff.2 h)

end SourceRequest

/-! ## Templates by data source -/

namespace BlendPlan

variable {ts : RequestTaxons} {plan plan' : BlendPlan} {p : SourceRequest} {dataSource : String}

/-- Steps that each store one key store all of them. -/
theorem mem_keys_foldlM {step : FilterTemplates → String → Result FilterTemplates}
    {slugs : List String} {before after : FilterTemplates} {slug : String}
    (one : ∀ found s next, step found s = .ok next →
      (slug ∈ next.keys ↔ slug = s ∨ slug ∈ found.keys))
    (h : slugs.foldlM step before = .ok after) :
    slug ∈ after.keys ↔ slug ∈ slugs ∨ slug ∈ before.keys := by
  induction slugs generalizing before with
  | nil =>
    cases h
    exact (or_iff_right List.not_mem_nil).symm
  | cons s slugs ih =>
    rw [List.foldlM_cons] at h
    obtain ⟨next, first, h⟩ := Result.bind_eq_ok.1 h
    rw [ih h, one _ _ _ first, List.mem_cons, or_assoc, or_left_comm]

/-- The templates for the filters of a part over a data source have the taxons of these filters. -/
theorem mem_keys_filterTemplatesOf {taxons : TaxonMap} (listed : taxons.IsListed)
    {templates : FilterTemplates} (h : filterTemplatesOf taxons dataSource
      [p.preaggregationFilter?, p.scope.preaggregationFilter?] = .ok templates) {slug : String} :
    slug ∈ templates.keys ↔ slug ∈ p.filterSlugs := by
  have stored : slug ∈ templates.keys ↔ _ := mem_keys_foldlM (fun found s next first => ?_) h
  · have named (f? : Option FilterClause) :
        slug ∈ (f?.map fun f => f.slugs.toList).getD [] ↔ ∃ f, f? = some f ∧ slug ∈ f.taxonList := by
      cases f? with
      | none => simp
      | some f =>
        have own : slug ∈ f.slugs.toList ↔ slug ∈ f.taxonList := SortedSet.mem_ofList
        simpa using own
    have none : slug ∉ (SortedMap.empty : FilterTemplates).keys := List.not_mem_nil
    rw [stored, or_iff_left none, SourceRequest.filterSlugs]
    simp only [List.mem_flatMap, List.mem_cons, List.not_mem_nil, or_false, named,
      SourceRequest.mem_filters]
    constructor
    · rintro ⟨_, rfl | rfl, f, own, hs⟩
      · exact ⟨f, .inr own, hs⟩
      · exact ⟨f, .inl own, hs⟩
    · rintro ⟨f, own | own, hs⟩
      · exact ⟨_, .inr rfl, f, own, hs⟩
      · exact ⟨_, .inl rfl, f, own, hs⟩
  · split at first
    · cases first
    · rename_i t known
      split at first
      · cases first
      · obtain ⟨template, _, rfl⟩ := Result.map_eq_ok.1 first
        rw [SortedMap.mem_keys_insert, listed.slug_eq known]

/-- A part stores its own templates, and leaves those of other data sources. -/
theorem get?_addFilters (h : addFilters ts plan p = .ok plan') (dataSource : String) :
    ∃ own templates, p.dataSource = .ok own ∧ filterTemplatesOf ts.taxons own
        [p.preaggregationFilter?, p.scope.preaggregationFilter?] = .ok templates ∧
      plan'.filterTemplates.get? dataSource =
        if own = dataSource then some templates else plan.filterTemplates.get? dataSource := by
  obtain ⟨own, named, h⟩ := Result.bind_eq_ok.1 h
  obtain ⟨templates, planned, h⟩ := Result.bind_eq_ok.1 h
  cases h
  exact ⟨own, templates, named, planned, SortedMap.get?_insert⟩

/-- After all parts, the templates of a data source are those of the last part that is over it. -/
theorem get?_addAllFilters {ps : List SourceRequest} (listed : ts.taxons.IsListed)
    (h : ps.foldlM (addFilters ts) plan = .ok plan') {last : SourceRequest}
    (found : ps.reverse.find? (fun q => q.dataSources = [dataSource]) = some last) :
    ∃ templates, plan'.filterTemplates.get? dataSource = some templates ∧
      ∀ slug, slug ∈ templates.keys ↔ slug ∈ last.filterSlugs := by
  induction ps using List.reverseRecOn generalizing plan' with
  | nil => cases found
  | append_singleton ps p ih =>
    rw [List.foldlM_append] at h
    obtain ⟨before, hbefore, h⟩ := Result.bind_eq_ok.1 h
    obtain ⟨_, h, only⟩ := Result.bind_eq_ok.1 h
    cases only
    obtain ⟨own, templates, named, planned, stored⟩ := get?_addFilters h dataSource
    rw [SourceRequest.dataSource_eq_ok] at named
    rw [List.reverse_append, List.reverse_singleton, List.singleton_append] at found
    by_cases same : own = dataSource
    · rw [List.find?_cons_of_pos (by simpa [named] using same)] at found
      cases found
      rw [if_pos same] at stored
      exact ⟨templates, stored, fun slug => mem_keys_filterTemplatesOf listed planned⟩
    · rw [List.find?_cons_of_neg (by simpa [named] using same)] at found
      rw [stored, if_neg same]
      exact ih hbefore found

end BlendPlan

namespace PlannedRequest

variable {r : PlannedRequest} {p : SourceRequest} {s : SourceRows}

/-- The rows of a part get the templates of the last part over their data source. -/
theorem mem_keys_filterTemplates (listed : r.taxons.IsListed)
    (planned : r.toRequestTaxons.plan = .ok r.plan) (hp : p ∈ r.request.parts)
    {stored? : Option NameSet} (hs : r.partRows p stored? = .ok s) {slug : String} :
    slug ∈ s.filterTemplates.keys ↔ slug ∈ (p.lastLike r.request.parts).filterSlugs := by
  obtain ⟨_, _, hs⟩ := Result.bind_eq_ok.1 hs
  obtain ⟨dataSource, named, hs⟩ := Result.bind_eq_ok.1 hs
  cases hs
  obtain ⟨_, _, planned⟩ := Result.bind_eq_ok.1 planned
  obtain ⟨_, _, planned⟩ := Result.bind_eq_ok.1 planned
  obtain ⟨_, _, planned⟩ := Result.bind_eq_ok.1 planned
  rw [SourceRequest.dataSource_eq_ok] at named
  have there : (r.request.parts.reverse.find? fun q => q.dataSources = p.dataSources).isSome := by
    rw [List.find?_isSome]
    exact ⟨p, List.mem_reverse.2 hp, decide_eq_true rfl⟩
  obtain ⟨last, found⟩ := Option.isSome_iff_exists.1 there
  unfold SourceRequest.lastLike
  rw [found, Option.getD_some]
  rw [named] at found
  obtain ⟨templates, stored, keys⟩ := BlendPlan.get?_addAllFilters listed planned found
  change slug ∈ ((r.plan.filterTemplates.get? dataSource).getD .empty).keys ↔ _
  rw [stored]
  exact keys slug

end PlannedRequest

/-! ## Columns that rows are filtered by -/

namespace SourceRows

open Sql (Query)

variable {s : SourceRows} {models : List Model} {columns : TaxonColumns} {slug : String}

/-- The columns that the rows of a part over some models can be filtered by. -/
def filterColumns (s : SourceRows) (models : List Model) : Result TaxonColumns := do
  let dataSource ← s.part.dataSource
  let dataSources : NameSet := .singleton dataSource
  let selected ← s.selected
  let read ← s.read selected
  let usable ← Model.load models s.part.scope ⟨dataSources, s.part.modelName?, s.physicalSources?⟩
  let g ← JoinGraph.build dataSources usable
  let tree ← g.findTree read.keySet
  s.modelColumns read tree.taxonModels

/-- Whether the rows read a taxon apart from filters: it is selected or a template reads it, or it
sorts one of these. -/
def ReadsBesides (s : SourceRows) (slug : String) : Prop :=
  ∃ selected, s.selected = .ok selected ∧ (slug ∈ (s.own selected).keys ∨ s.Sorts selected slug)

theorem mem_keys_filterColumns (h : s.filterColumns models = .ok columns) :
    slug ∈ columns.keys ↔ slug ∈ s.filterTemplates.keys ∨ s.ReadsBesides slug := by
  obtain ⟨dataSource, _, h⟩ := Result.bind_eq_ok.1 h
  obtain ⟨selected, hselected, h⟩ := Result.bind_eq_ok.1 h
  obtain ⟨read, hread, h⟩ := Result.bind_eq_ok.1 h
  obtain ⟨usable, _, h⟩ := Result.bind_eq_ok.1 h
  obtain ⟨g, _, h⟩ := Result.bind_eq_ok.1 h
  obtain ⟨tree, _, h⟩ := Result.bind_eq_ok.1 h
  rw [mem_keys_modelColumns h, or_comm, mem_keys_of_read hread, ReadsBesides, hselected]
  simp only [Except.ok.injEq, exists_eq_left']

/-- Steps that each store one key store all of them. -/
theorem mem_keys_foldl {α : Type} {step : TaxonColumns → String × α → TaxonColumns}
    (one : ∀ found e, slug ∈ (step found e).keys ↔ slug = e.1 ∨ slug ∈ found.keys)
    {es : List (String × α)} {before : TaxonColumns} :
    slug ∈ (es.foldl step before).keys ↔ slug ∈ es.map (·.1) ∨ slug ∈ before.keys := by
  induction es generalizing before with
  | nil => exact (or_iff_right List.not_mem_nil).symm
  | cons e es ih => rw [List.foldl_cons, ih, one, List.map_cons, List.mem_cons, or_assoc, or_left_comm]

theorem mem_keys_outerColumns :
    slug ∈ (s.outerColumns columns).keys ↔ slug ∈ s.filterTemplates.keys ∨ slug ∈ columns.keys := by
  refine (mem_keys_foldl fun found e => SortedMap.mem_keys_insert).trans (or_congr_right ?_)
  unfold SortedMap.keys SortedMap.mapValues
  rw [List.map_map]
  rfl

theorem condition_of_filtered {q q' : Query} {f : FilterClause} {filter? : Option FilterClause}
    (h : filtered q filter? columns = .ok q') (hf : filter? = some f) :
    ∃ e, f.condition columns = .ok e := by
  subst hf
  obtain ⟨e, he, _⟩ := Result.map_eq_ok.1 h
  exact ⟨e, he⟩

theorem condition_of_joinedRows {tree : JoinTree} {g : JoinGraph} {items : List Sql.SelectItem}
    {q : Query} {f : FilterClause} (h : s.joinedRows tree g columns items = .ok q)
    (hf : s.part.scope.preaggregationFilter? = some f) : ∃ e, f.condition columns = .ok e := by
  obtain ⟨_, _, h⟩ := Result.bind_eq_ok.1 h
  exact condition_of_filtered h hf

/-- What a filter has a condition on over windows, it has one on below them. -/
theorem condition_of_outerColumns {f : FilterClause} (h : s.filterColumns models = .ok columns)
    (outer : ∃ e, f.condition (s.outerColumns columns) = .ok e) :
    ∃ e, f.condition columns = .ok e := by
  obtain ⟨read, filled⟩ := f.exists_condition_iff.1 outer
  refine f.exists_condition_iff.2 ⟨fun slug hs => ?_, filled⟩
  rcases mem_keys_outerColumns.1 (read slug hs) with template | known
  · exact (mem_keys_filterColumns h).2 (.inl template)
  · exact known

theorem hasConditions_of_dataframe {df : Dataframe} (h : s.dataframe models = .ok df) :
    ∃ columns, s.filterColumns models = .ok columns ∧ s.part.HasConditions columns := by
  obtain ⟨dataSource, named, h⟩ := Result.bind_eq_ok.1 h
  obtain ⟨selected, hselected, h⟩ := Result.bind_eq_ok.1 h
  obtain ⟨read, hread, h⟩ := Result.bind_eq_ok.1 h
  obtain ⟨usable, husable, h⟩ := Result.bind_eq_ok.1 h
  obtain ⟨g, hg, h⟩ := Result.bind_eq_ok.1 h
  obtain ⟨tree, htree, h⟩ := Result.bind_eq_ok.1 h
  obtain ⟨columns, hcolumns, h⟩ := Result.bind_eq_ok.1 h
  have built : s.filterColumns models = .ok columns :=
    Result.bind_eq_ok.2 ⟨dataSource, named, Result.bind_eq_ok.2 ⟨selected, hselected,
      Result.bind_eq_ok.2 ⟨read, hread, Result.bind_eq_ok.2 ⟨usable, husable,
        Result.bind_eq_ok.2 ⟨g, hg, Result.bind_eq_ok.2 ⟨tree, htree, hcolumns⟩⟩⟩⟩⟩⟩
  refine ⟨columns, built, fun f hf => ?_⟩
  dsimp only at h
  split at h
  · obtain ⟨rows, hrows, h⟩ := Result.bind_eq_ok.1 h
    obtain ⟨_, hfiltered, _⟩ := Result.bind_eq_ok.1 h
    obtain ⟨_, _, hrows⟩ := Result.bind_eq_ok.1 hrows
    obtain ⟨_, hinner, _⟩ := Result.bind_eq_ok.1 hrows
    rcases SourceRequest.mem_filters.1 hf with scope | own
    · exact condition_of_joinedRows hinner scope
    · exact condition_of_outerColumns built (condition_of_filtered hfiltered own)
  · obtain ⟨rows, hrows, h⟩ := Result.bind_eq_ok.1 h
    obtain ⟨_, hfiltered, _⟩ := Result.bind_eq_ok.1 h
    obtain ⟨_, _, hrows⟩ := Result.bind_eq_ok.1 hrows
    rcases SourceRequest.mem_filters.1 hf with scope | own
    · exact condition_of_joinedRows hrows scope
    · exact condition_of_filtered hfiltered own

end SourceRows

namespace Catalog

variable {c : Catalog} {o : Options} {r : BlendRequest} {p : PlannedRequest}

/-- Where a request with one part is answered, no filter on the rows of the part lacks what it has to
say. -/
theorem isFilled_of_answer {asked : SourceRequest} {df : Dataframe} (single : r.parts = [asked])
    (h : c.answer o r = .ok df) : ∀ f ∈ asked.filters, ∀ part ∈ f.parts, part.IsFilled := by
  obtain ⟨p, st, hp, _⟩ := answer_eq_ok h
  obtain ⟨distributed, hdistributed, loaded⟩ := Result.bind_eq_ok.1 hp
  have parts := (BlendRequest.parts_distributed hdistributed).1
  rw [← PlannedRequest.request_of_load loaded, single] at parts
  obtain ⟨part, _, same, _, rest⟩ := List.forall₂_cons_left_iff.1 parts
  have hpart : part ∈ p.request.parts := by
    rw [rest]
    exact List.mem_cons_self ..
  obtain ⟨d, _, built⟩ := Result.mapM_mem_ok st.sources_eq hpart
  obtain ⟨s, hs, built⟩ := Result.bind_eq_ok.1 built
  obtain ⟨columns, _, conditions⟩ := SourceRows.hasConditions_of_dataframe built
  have filters : s.part.filters = asked.filters := by
    obtain ⟨_, _, hs⟩ := Result.bind_eq_ok.1 hs
    obtain ⟨_, _, hs⟩ := Result.bind_eq_ok.1 hs
    cases hs
    change part.filters = asked.filters
    rw [same]
    rfl
  rw [← filters]
  exact (SourceRequest.hasConditions_iff.1 conditions).2

/-- Within a request that is planned, the rows of a part have the columns that its own filters read
exactly if each of these is one that the last part over the same data source filters by as well, or is
read for another reason.  Where the part is answered alone, its filters have conditions exactly then. -/
theorem readsFilters_iff (listed : c.taxons.IsListed)
    (planned : (r.distributed >>= PlannedRequest.load c.taxons o.useFallback) = .ok p) :
    List.Forall₂ (fun asked part => ∀ s columns, p.partRows part p.allowedSources = .ok s →
        s.filterColumns c.models = .ok columns →
        (asked.ReadsFilters columns ↔ ∀ slug ∈ asked.filterSlugs,
          slug ∈ (asked.lastLike r.parts).filterSlugs ∨ s.ReadsBesides slug) ∧
        ((∃ df, c.answer o { r with parts := [asked] } = .ok df) →
          (asked.HasConditions columns ↔ asked.ReadsFilters columns)))
      r.parts p.request.parts := by
  obtain ⟨distributed, hdistributed, loaded⟩ := Result.bind_eq_ok.1 planned
  have parts := (BlendRequest.parts_distributed hdistributed).1
  obtain ⟨ts, hts, loaded⟩ := Result.bind_eq_ok.1 loaded
  obtain ⟨plan, hplan, loaded⟩ := Result.bind_eq_ok.1 loaded
  cases loaded
  have request : ts.request = distributed := RequestTaxons.request_of_load hts
  rw [← request] at parts
  obtain ⟨length, each⟩ := List.forall₂_iff_zip.1 parts
  refine List.forall₂_iff_zip.2 ⟨length, ?_⟩
  intro asked part member s columns hs hcolumns
  have same := each member
  have last := SourceRequest.filterSlugs_lastLike parts same
  have templates (slug : String) :
      slug ∈ s.filterTemplates.keys ↔ slug ∈ (asked.lastLike r.parts).filterSlugs := by
    rw [← last]
    exact PlannedRequest.mem_keys_filterTemplates (RequestTaxons.isListed_load listed hts) hplan
      (List.of_mem_zip member).2 hs
  constructor
  · unfold SourceRequest.ReadsFilters
    simp only [SourceRows.mem_keys_filterColumns hcolumns, templates]
  · rintro ⟨df, alone⟩
    rw [SourceRequest.hasConditions_iff]
    exact and_iff_left (isFilled_of_answer rfl alone)

/-- Costs by day over one data source twice, once with a filter on the rows in its scope. -/
def billedParts : List SourceRequest :=
  let costs (filter? : Option FilterClause) : SourceRequest :=
    { SourceRequest.ofDataSource "ads" ⟨"acme", none, .available, filter?⟩ with
      taxons := ["day", "spend"] }
  [costs (some (.value "billed" .eq (some (.bool true)))), costs none]

/-- As long as the part with the filter is the last one, both parts have the columns of their
filters. -/
theorem readsFilters_reverse_billed :
    ∃ p, (((BlendRequest.ofParts billedParts.reverse []).distributed >>=
        PlannedRequest.load clickTaxons true) = .ok p ∧ clickTaxons.IsListed) ∧
      List.Forall₂ (fun asked part => ∀ s columns, p.partRows part p.allowedSources = .ok s →
          s.filterColumns clickCatalog.models = .ok columns → asked.ReadsFilters columns)
        billedParts.reverse p.request.parts := by
  have found : ((BlendRequest.ofParts billedParts.reverse []).distributed >>=
      PlannedRequest.load clickTaxons true).toOption.any (fun _ => true) := by
    decide +kernel
  obtain ⟨p, planned, _⟩ := Result.ok_of_any found
  have listed : clickTaxons.IsListed := by decide +kernel
  have last : ∀ asked ∈ billedParts.reverse, ∀ slug ∈ asked.filterSlugs,
      slug ∈ (asked.lastLike billedParts.reverse).filterSlugs := by
    decide +kernel
  have each := readsFilters_iff (c := clickCatalog) (o := .default) listed planned
  obtain ⟨length, each⟩ := List.forall₂_iff_zip.1 each
  refine ⟨p, ⟨planned, listed⟩, List.forall₂_iff_zip.2 ⟨length, ?_⟩⟩
  intro asked part member s columns hs hcolumns
  exact (each member s columns hs hcolumns).1.2 fun slug hslug =>
    .inl (last asked (List.of_mem_zip member).1 slug hslug)

/-- The part without filters comes last, and takes the column from the filter of the other one. -/
theorem answer_fails_billed :
    (∀ asked ∈ billedParts, ∃ df, clickCatalog.answer .default (.ofParts [asked] []) = .ok df) ∧
      clickCatalog.answer .default (.ofParts billedParts []) =
        .error (.invalidRequest (.filterTaxonNotAvailable "billed")) := by
  have alone : ∀ asked ∈ billedParts,
      (clickCatalog.answer .default (.ofParts [asked] [])).toOption.any (fun _ => true) := by
    decide +kernel
  have fails : (match clickCatalog.answer .default (.ofParts billedParts []) with
      | .error (.invalidRequest (.filterTaxonNotAvailable slug)) => decide (slug = "billed")
      | _ => false) = true := by
    decide +kernel
  constructor
  · intro asked hasked
    obtain ⟨df, answered, _⟩ := Result.ok_of_any (alone asked hasked)
    exact ⟨df, answered⟩
  · split at fails
    · rename_i slug failed
      rw [failed, of_decide_eq_true fails]
    · cases fails

end Catalog

end SemanticLayer
