import SemanticLayer.Blend.Compilation
import SemanticLayer.Proofs.Blend.Slots
import SemanticLayer.Proofs.JoinGraph.Models
import SemanticLayer.Proofs.Sql.Unions

/-!
# Tables that a query reads

Models enter a query only through the rows of a part, which reads a join tree over the models of
the part's scope.  Every later stage is built over the queries below it and the common tables it
adds.

* `SourceRows.dataframe_isBuilt`: the rows of a part;
* `Dataframe.blend_isBuilt`, `withFormulas_isBuilt`, `withComparison_isBuilt`,
  `withMetrics_isBuilt`, `project_isBuilt`: the stages above;
* `PlannedRequest.answer_isBuilt`: the whole answer;
* `Catalog.compile_isBuilt`: a statement is built over the tables of models that its request may
  read.
-/

namespace SemanticLayer

open Sql (Expr Query SelectItem)

variable {allowed : List String → Prop}

namespace Model

theorem mem_load {ms found : List Model} {s : Scope} {q : ModelQuery}
    (h : Model.load ms s q = .ok found) {m : Model} (hm : m ∈ found) :
    m ∈ ms ∧ s.canUse m = true ∧ q.matches m = true := by
  unfold Model.load at h
  split at h
  · cases h
  · cases h
    obtain ⟨hms, hboth⟩ := List.mem_filter.1 hm
    exact ⟨hms, by simpa using hboth⟩

end Model

/-- A query over tables of some models is built over those tables. -/
theorem JoinTree.source_isBuilt {t : JoinTree} {g : JoinGraph} {ms : List Model}
    {items : List SelectItem} {q : Query} (htree : t.Over ms)
    (hallowed : ∀ m ∈ ms, ∀ parts, m.tableRef.source = .table parts → allowed parts)
    (h : t.source g (.ofItems items) = .ok q) : q.IsBuilt allowed := by
  unfold JoinTree.source at h
  obtain ⟨joins, hjoins, h⟩ := Result.bind_eq_ok.1 h
  cases h
  have table (m : Model) (hm : m ∈ ms) : ∃ parts, m.tableRef.source = .table parts ∧ allowed parts :=
    ⟨_, rfl, hallowed m hm _ rfl⟩
  refine .tables rfl rfl ?_
  intro source hsource
  simp only [Query.sources, Option.toList_some, Query.ofItems, Query.select, Query.empty,
    List.nil_append, List.map_append, List.map_cons, List.map_nil, List.map_map,
    List.mem_append, List.mem_singleton, List.mem_map, Function.comp_apply] at hsource
  rcases hsource with rfl | ⟨j, hj, rfl⟩
  · exact table _ htree.model_mem
  · obtain ⟨m, hm, e⟩ := JoinTree.joins_of_over htree hjoins hj
    rw [e]
    exact table m hm

namespace SourceRows

variable {s : SourceRows} {g : JoinGraph} {t : JoinTree} {columns : TaxonColumns} {q : Query}

theorem filtered_isBuilt {rows : Query} {filter? : Option FilterClause}
    (hrows : rows.IsBuilt allowed) (h : filtered rows filter? columns = .ok q) :
    q.IsBuilt allowed := by
  unfold filtered at h
  split at h
  · cases h
    exact hrows
  · obtain ⟨condition, _, rfl⟩ := Result.map_eq_ok.1 h
    exact hrows.clauses rfl rfl rfl rfl

variable {ms : List Model} (htree : t.Over ms)
  (hallowed : ∀ m ∈ ms, ∀ parts, m.tableRef.source = .table parts → allowed parts)

include htree hallowed

theorem joinedRows_isBuilt {items : List SelectItem}
    (h : s.joinedRows t g columns items = .ok q) : q.IsBuilt allowed := by
  obtain ⟨rows, hrows, h⟩ := Result.bind_eq_ok.1 h
  exact filtered_isBuilt (JoinTree.source_isBuilt htree hallowed hrows) h

theorem plainRows_isBuilt {selected : TaxonMap} (h : s.plainRows selected t g columns = .ok q) :
    q.IsBuilt allowed := by
  obtain ⟨items, _, h⟩ := Result.bind_eq_ok.1 h
  exact joinedRows_isBuilt htree hallowed h

theorem windowRows_isBuilt {selected read : TaxonMap} {models : SortedMap String Model}
    (h : s.windowRows selected read models t g columns = .ok q) : q.IsBuilt allowed := by
  obtain ⟨items, _, h⟩ := Result.bind_eq_ok.1 h
  obtain ⟨inner, hinner, h⟩ := Result.bind_eq_ok.1 h
  cases h
  exact (joinedRows_isBuilt htree hallowed hinner).fromQuery _ _

end SourceRows

/-- Whether a part may read a model: its scope can use the model, and the model is stored where the
request allows. -/
def SourceRows.CanRead (s : SourceRows) (m : Model) : Prop :=
  s.part.scope.canUse m = true ∧ ∀ sources ∈ s.physicalSources?, m.physicalSource ∈ sources

theorem SourceRows.dataframe_isBuilt {s : SourceRows} {models : List Model} {df : Dataframe}
    (hallowed : ∀ m ∈ models, s.CanRead m → ∀ parts, m.tableRef.source = .table parts →
      allowed parts)
    (h : s.dataframe models = .ok df) : df.query.IsBuilt allowed := by
  obtain ⟨dataSource, _, h⟩ := Result.bind_eq_ok.1 h
  obtain ⟨selected, _, h⟩ := Result.bind_eq_ok.1 h
  obtain ⟨read, _, h⟩ := Result.bind_eq_ok.1 h
  obtain ⟨usable, husable, h⟩ := Result.bind_eq_ok.1 h
  obtain ⟨g, hg, h⟩ := Result.bind_eq_ok.1 h
  obtain ⟨tree, htree, h⟩ := Result.bind_eq_ok.1 h
  obtain ⟨columns, _, h⟩ := Result.bind_eq_ok.1 h
  have overUsable : tree.Over usable := JoinGraph.build_models hg ▸ JoinGraph.findTree_over htree
  have husable' : ∀ m ∈ usable, ∀ parts, m.tableRef.source = .table parts → allowed parts := by
    intro m hm
    obtain ⟨hmodel, huse, hmatches⟩ := Model.mem_load husable hm
    refine hallowed m hmodel ⟨huse, ?_⟩
    intro sources hsources
    have hphysical := (Bool.and_eq_true_iff.1 hmatches).2
    rw [Option.mem_def.1 hsources] at hphysical
    exact of_decide_eq_true hphysical
  -- with windows or without, the rows are read from the tree
  dsimp only at h
  split at h
  · obtain ⟨rows, hrows, h⟩ := Result.bind_eq_ok.1 h
    obtain ⟨kept, hkept, h⟩ := Result.bind_eq_ok.1 h
    cases h
    have reads := filtered_isBuilt (windowRows_isBuilt overUsable husable' hrows) hkept
    exact (reads.fromQuery [] _).clauses rfl rfl rfl rfl
  · obtain ⟨rows, hrows, h⟩ := Result.bind_eq_ok.1 h
    obtain ⟨kept, hkept, h⟩ := Result.bind_eq_ok.1 h
    cases h
    have reads := filtered_isBuilt (plainRows_isBuilt overUsable husable' hrows) hkept
    exact (reads.fromQuery [] _).clauses rfl rfl rfl rfl

theorem OverrideMapping.query_isBuilt (m : OverrideMapping) : m.query.IsBuilt allowed := by
  unfold OverrideMapping.query
  split
  · exact (Query.IsBuilt.constants []).clauses rfl rfl rfl rfl
  · refine .union m.rows_aligned ?_
    intro q hq
    obtain ⟨⟨v, w⟩, _, rfl⟩ := List.mem_map.1 hq
    exact .constants _

namespace OverrideTables

/-- Whether the tables of all mappings are built over allowed tables. -/
def AreBuilt (tables : OverrideTables) (allowed : List String → Prop) : Prop :=
  ∀ slug q, tables.get? slug = some q → q.IsBuilt allowed

variable {tables : OverrideTables} {q q' : Query}

theorem joinUse_isBuilt (ht : tables.AreBuilt allowed) (hq : q.IsBuilt allowed)
    {key : OverrideKey} {value : Expr} (h : tables.joinUse q key value = .ok q') :
    q'.IsBuilt allowed := by
  unfold joinUse at h
  split at h
  · cases h
  · rename_i body hbody
    cases h
    exact hq.joinCommon (ht _ body hbody) _ _ _ _

theorem join_isBuilt (ht : tables.AreBuilt allowed) (hq : q.IsBuilt allowed)
    {uses : List (OverrideKey × Expr)} (h : tables.join q uses = .ok q') :
    q'.IsBuilt allowed :=
  Result.foldlM_invariant (p := fun s => s.IsBuilt allowed) h hq fun _ _ _ _ hj hs =>
    joinUse_isBuilt ht hs hj

theorem areBuilt_load {ms : List OverrideMapping} {company : String} {uses : List OverrideKey}
    {maxMappings : Nat} (h : OverrideTables.load ms company uses maxMappings = .ok tables) :
    tables.AreBuilt allowed := by
  unfold OverrideTables.load at h
  dsimp only at h
  split at h
  · cases h
    intro slug q hq
    cases hq
  · split at h
    · cases h
    · obtain ⟨loaded, _, h⟩ := Result.bind_eq_ok.1 h
      cases h
      intro slug q hq
      obtain ⟨m, _, e⟩ := List.mem_map.1 (SortedMap.mem_of_get?_ofList hq)
      cases e
      exact m.query_isBuilt

end OverrideTables

namespace Dataframe

variable {df df' : Dataframe} {tables : OverrideTables}

theorem blend_isBuilt {taxons : TaxonMap} {templates : SourceTemplates} {dfs : List Dataframe}
    (hdfs : ∀ d ∈ dfs, d.query.IsBuilt allowed) (h : blend taxons templates dfs = .ok df) :
    df.query.IsBuilt allowed := by
  unfold blend at h
  split at h
  · cases h
  obtain ⟨blended, _, h⟩ := Result.bind_eq_ok.1 h
  cases h
  have aligned := branches_aligned (together dfs .empty).columns templates.labels dfs
  refine ((Query.IsBuilt.union aligned ?_).fromQuery [] _).clauses rfl rfl rfl rfl
  intro q hq
  obtain ⟨⟨d, i⟩, hd, rfl⟩ := List.mem_map.1 hq
  exact (hdfs d (List.fst_mem_of_mem_zipIdx hd)).fromQuery _ _

theorem withFormulas_isBuilt {formulas : List Formula.PreFormula} {overrides : OverrideUses}
    (ht : tables.AreBuilt allowed) (hdf : df.query.IsBuilt allowed)
    (h : df.withFormulas formulas tables overrides = .ok df') : df'.query.IsBuilt allowed := by
  unfold withFormulas at h
  split at h
  · cases h
    exact hdf
  · obtain ⟨q, hq, h⟩ := Result.bind_eq_ok.1 h
    cases h
    exact OverrideTables.join_isBuilt ht (hdf.fromQuery _ _) hq

theorem groupedComparison_isBuilt {metrics : SortedMap String Taxon}
    {formulas : List Formula.PreFormula} (hdf : df.query.IsBuilt allowed)
    (h : df.groupedComparison metrics formulas = .ok df') : df'.query.IsBuilt allowed := by
  obtain ⟨sums, _, h⟩ := Result.bind_eq_ok.1 h
  cases h
  exact (hdf.fromQuery [] _).clauses rfl rfl rfl rfl

theorem withComparison_isBuilt {data comparison : Dataframe} (plan : BlendPlan)
    (hd : data.query.IsBuilt allowed) (hc : comparison.query.IsBuilt allowed) :
    (data.withComparison comparison plan).query.IsBuilt allowed :=
  (hd.fromQuery _ _).joinQuery hc _ _ _

theorem aggregatedRows_isBuilt (plan : BlendPlan) (groupingSets? : Option (List (List String)))
    (hdf : df.query.IsBuilt allowed) :
    (df.aggregatedRows plan groupingSets?).IsBuilt allowed := by
  have grouped : (df.groupedRows plan).IsBuilt allowed :=
    (hdf.fromQuery [] _).clauses rfl rfl rfl rfl
  have texts : (df.withTextDimensions plan.groups.keySet).IsBuilt allowed :=
    hdf.fromQuery _ _
  unfold aggregatedRows
  split
  · exact grouped
  · exact grouped
  · refine .union (groupingSets_aligned plan _ _) ?_
    intro q hq
    obtain ⟨set, _, rfl⟩ := List.mem_map.1 hq
    exact Query.IsBuilt.fromCommon texts _ _ _

theorem withMetrics_isBuilt {plan : BlendPlan} {r : BlendRequest}
    (hdf : df.query.IsBuilt allowed) (h : df.withMetrics plan r = .ok df') :
    df'.query.IsBuilt allowed := by
  obtain ⟨q, hq, h⟩ := Result.bind_eq_ok.1 h
  cases h
  have rows := (aggregatedRows_isBuilt plan r.groupingSets? hdf).fromQuery
  unfold filteredResults at hq
  split at hq
  · cases hq
    exact rows _ _
  · obtain ⟨condition, _, hq⟩ := Result.bind_eq_ok.1 hq
    cases hq
    exact ((rows _ _).fromQuery [] _).clauses rfl rfl rfl rfl

theorem project_isBuilt {taxons : TaxonMap} {r : BlendRequest}
    (hdf : df.query.IsBuilt allowed) (h : df.project taxons r = .ok df') :
    df'.query.IsBuilt allowed := by
  obtain ⟨order, _, h⟩ := Result.bind_eq_ok.1 h
  obtain ⟨items, _, h⟩ := Result.bind_eq_ok.1 h
  cases h
  exact (hdf.fromQuery [] _).clauses rfl rfl rfl rfl

theorem compiled_isBuilt {d : Sql.Dialect} {c : CompiledRequest}
    (hdf : df.query.IsBuilt allowed) (h : df.compiled d = .ok c) :
    c.query.IsBuilt allowed := by
  unfold compiled at h
  split at h
  · cases h
  · cases h
    exact (hdf.fromQuery [] _).clauses rfl rfl rfl rfl

end Dataframe

namespace BlendRequest

/-- Whether a part of a request may read a model, and the request allows its connection. -/
def CanRead (r : BlendRequest) (m : Model) : Prop :=
  (∃ p ∈ r.parts, p.scope.canUse m = true) ∧
    ∀ sources ∈ r.physicalSources?, m.physicalSource ∈ sources

variable {r r' : BlendRequest}

theorem scopes_addToSource {slug dataSource : String} {ps qs : List SourceRequest}
    (h : addToSource slug dataSource ps = some qs) : qs.map (·.scope) = ps.map (·.scope) := by
  induction ps generalizing qs with
  | nil => cases h
  | cons p ps ih =>
    rw [addToSource] at h
    split at h
    · cases h
      rfl
    · obtain ⟨ps', hps, rfl⟩ := Option.map_eq_some_iff.1 h
      rw [List.map_cons, List.map_cons, ih hps]

theorem scopes_addToParts {ps qs : List SourceRequest} {slug : String}
    (h : addToParts ps slug = .ok qs) : qs.map (·.scope) = ps.map (·.scope) := by
  unfold addToParts at h
  split at h
  · cases h
    rw [List.map_map]
    rfl
  · split at h
    · rename_i hadd
      cases h
      exact scopes_addToSource hadd
    · cases h

/-- Distributing a request over its parts leaves their scopes and the connections as they are. -/
theorem scopes_distributed (h : r.distributed = .ok r') :
    r'.parts.map (·.scope) = r.parts.map (·.scope) ∧ r'.physicalSources? = r.physicalSources? := by
  obtain ⟨parts, hparts, h⟩ := Result.bind_eq_ok.1 h
  have kept : parts.map (·.scope) = r.parts.map (·.scope) := by
    refine Result.foldlM_invariant (p := fun ps => ps.map (·.scope) = r.parts.map (·.scope))
      hparts ?_ fun _ _ _ _ hadd hs => (scopes_addToParts hadd).trans hs
    rw [liftOrders, List.map_map]
    rfl
  split at h
  · cases h
  · cases h
    exact ⟨kept, rfl⟩

theorem CanRead.of_scopes {m : Model}
    (hs : r'.parts.map (·.scope) = r.parts.map (·.scope))
    (hp : r'.physicalSources? = r.physicalSources?) (h : r'.CanRead m) : r.CanRead m := by
  obtain ⟨⟨p, hmem, huse⟩, hstored⟩ := h
  have scope : p.scope ∈ r.parts.map (·.scope) := hs ▸ List.mem_map_of_mem hmem
  obtain ⟨p', hmem', e⟩ := List.mem_map.1 scope
  exact ⟨⟨p', hmem', e ▸ huse⟩, hp ▸ hstored⟩

end BlendRequest

theorem RequestTaxons.request_of_load {taxonomy : TaxonMap} {useFallback : Bool}
    {r : BlendRequest} {ts : RequestTaxons} (h : load taxonomy useFallback r = .ok ts) :
    ts.request = r := by
  unfold load at h
  obtain ⟨dataSources, _, h⟩ := Result.bind_eq_ok.1 h
  obtain ⟨askedOf, _, h⟩ := Result.bind_eq_ok.1 h
  obtain ⟨company, _, h⟩ := Result.bind_eq_ok.1 h
  obtain ⟨found, _, h⟩ := Result.bind_eq_ok.1 h
  obtain ⟨taxons, _, h⟩ := Result.bind_eq_ok.1 h
  obtain ⟨_, _, h⟩ := Result.bind_eq_ok.1 h
  cases h
  rfl

namespace PlannedRequest

theorem request_of_load {taxonomy : TaxonMap} {useFallback : Bool} {r : BlendRequest}
    {p : PlannedRequest} (h : load taxonomy useFallback r = .ok p) : p.request = r := by
  obtain ⟨ts, hts, h⟩ := Result.bind_eq_ok.1 h
  obtain ⟨plan, _, h⟩ := Result.bind_eq_ok.1 h
  cases h
  exact RequestTaxons.request_of_load hts

/-- The connections that the tables may be in, as the rows of parts take them. -/
def stored? (r : PlannedRequest) : Option NameSet := r.request.physicalSources?.map SortedSet.ofList

variable {r : PlannedRequest} {models : List Model} {tables : OverrideTables} {df : Dataframe}
  (ht : tables.AreBuilt allowed)
  (hallowed : ∀ m ∈ models, r.request.CanRead m →
    ∀ parts, m.tableRef.source = .table parts → allowed parts)

include hallowed

/-- The rows of a part are built over what the request may read, if their scope can use the models
that the part's scope can use. -/
theorem dataframe_isBuilt {p : SourceRequest} (hp : p ∈ r.request.parts) {s : SourceRows}
    (hscope : s.part.scope.canUse = p.scope.canUse) (hstored : s.physicalSources? = r.stored?)
    (h : s.dataframe models = .ok df) : df.query.IsBuilt allowed := by
  refine SourceRows.dataframe_isBuilt ?_ h
  rintro m hm ⟨huse, hsources⟩
  refine hallowed m hm ⟨⟨p, hp, hscope ▸ huse⟩, ?_⟩
  intro sources hs
  rw [hstored] at hsources
  exact SortedSet.mem_ofList.1 (hsources _ (Option.mem_map_of_mem _ hs))

include ht

theorem data_isBuilt (h : r.data tables models r.stored? = .ok df) :
    df.query.IsBuilt allowed := by
  obtain ⟨sources, hsources, h⟩ := Result.bind_eq_ok.1 h
  obtain ⟨blended, hblended, h⟩ := Result.bind_eq_ok.1 h
  refine Dataframe.withFormulas_isBuilt ht (Dataframe.blend_isBuilt ?_ hblended) h
  intro d hd
  obtain ⟨p, hp, hdf⟩ := Result.mapM_ok_mem hsources hd
  obtain ⟨s, hs, hdf⟩ := Result.bind_eq_ok.1 hdf
  obtain ⟨taxons, _, hs⟩ := Result.bind_eq_ok.1 hs
  obtain ⟨dataSource, _, hs⟩ := Result.bind_eq_ok.1 hs
  cases hs
  exact dataframe_isBuilt hallowed hp rfl rfl hdf

theorem comparison?_isBuilt
    (h : r.comparison? tables models r.stored? = .ok (some df)) :
    df.query.IsBuilt allowed := by
  unfold comparison? at h
  split at h
  · cases h
  obtain ⟨sources, hsources, h⟩ := Result.bind_eq_ok.1 h
  split at h
  · cases h
  obtain ⟨blended, hblended, h⟩ := Result.bind_eq_ok.1 h
  obtain ⟨columns, _, h⟩ := Result.bind_eq_ok.1 h
  have reads : blended.query.IsBuilt allowed := by
    refine Dataframe.blend_isBuilt ?_ hblended
    intro d hd
    obtain ⟨p, hp, hdf⟩ := Result.filterMapM_ok_mem hsources hd
    obtain ⟨taxons, _, hdf⟩ := Result.bind_eq_ok.1 hdf
    split at hdf
    · cases hdf
    obtain ⟨s, hs, hdf⟩ := Result.bind_eq_ok.1 hdf
    obtain ⟨d', hd', hdf⟩ := Result.bind_eq_ok.1 hdf
    cases hdf
    obtain ⟨dataSource, _, hs⟩ := Result.bind_eq_ok.1 hs
    obtain ⟨filterTemplates, _, hs⟩ := Result.bind_eq_ok.1 hs
    cases hs
    -- a part over its company sees the models that the part itself sees
    exact dataframe_isBuilt hallowed hp rfl rfl hd'
  have compared (items : List SelectItem) := reads.fromQuery items "comparison_source"
  dsimp only at h
  split at h
  · cases h
    exact compared _
  · obtain ⟨formulas, hformulas, h⟩ := Result.bind_eq_ok.1 h
    obtain ⟨grouped, hgrouped, h⟩ := Result.bind_eq_ok.1 h
    cases h
    exact Dataframe.groupedComparison_isBuilt
      (Dataframe.withFormulas_isBuilt ht (compared _) hformulas) hgrouped

end PlannedRequest

theorem PlannedRequest.answer_isBuilt {r : PlannedRequest} {c : Catalog} {maxMappings : Nat}
    {df : Dataframe}
    (hallowed : ∀ m ∈ c.models, r.request.CanRead m →
      ∀ parts, m.tableRef.source = .table parts → allowed parts)
    (h : r.answer c maxMappings = .ok df) : df.query.IsBuilt allowed := by
  obtain ⟨company, _, h⟩ := Result.bind_eq_ok.1 h
  obtain ⟨tables, htables, h⟩ := Result.bind_eq_ok.1 h
  obtain ⟨data, hdata, h⟩ := Result.bind_eq_ok.1 h
  obtain ⟨comparison?, hcomparison, h⟩ := Result.bind_eq_ok.1 h
  obtain ⟨metrics, hmetrics, h⟩ := Result.bind_eq_ok.1 h
  obtain ⟨answered, _, h⟩ := Result.bind_eq_ok.1 h
  have ht : tables.AreBuilt allowed := OverrideTables.areBuilt_load htables
  have data_reads := data_isBuilt ht hallowed hdata
  refine Dataframe.project_isBuilt (Dataframe.withMetrics_isBuilt ?_ hmetrics) h
  cases comparison? with
  | none => exact data_reads
  | some comparison =>
    have comparison_reads := comparison?_isBuilt ht hallowed hcomparison
    dsimp only
    split
    · exact Dataframe.withComparison_isBuilt r.plan data_reads comparison_reads
    · exact data_reads

/-- A statement is built over the tables of models that its request may read. -/
theorem Catalog.compile_isBuilt {c : Catalog} {o : Options} {r : BlendRequest}
    {out : CompiledRequest} (h : c.compile o r = .ok out) :
    out.query.IsBuilt fun parts =>
      ∃ m ∈ c.models, r.CanRead m ∧ m.tableRef.source = .table parts := by
  obtain ⟨df, hdf, h⟩ := Result.bind_eq_ok.1 h
  obtain ⟨_, _, hdf⟩ := Result.bind_eq_ok.1 hdf
  obtain ⟨r', hr', hdf⟩ := Result.bind_eq_ok.1 hdf
  obtain ⟨planned, hplanned, hdf⟩ := Result.bind_eq_ok.1 hdf
  refine Dataframe.compiled_isBuilt (PlannedRequest.answer_isBuilt ?_ hdf) h
  intro m hm hread parts hparts
  rw [PlannedRequest.request_of_load hplanned] at hread
  obtain ⟨hscopes, hphysical⟩ := BlendRequest.scopes_distributed hr'
  exact ⟨m, hm, hread.of_scopes hscopes hphysical, hparts⟩

/-- A statement reads those tables and its own common tables only. -/
theorem Catalog.compile_readsOnly {c : Catalog} {o : Options} {r : BlendRequest}
    {out : CompiledRequest} (h : c.compile o r = .ok out) :
    out.query.ReadsOnly fun parts =>
      ∃ m ∈ c.models, r.CanRead m ∧ m.tableRef.source = .table parts :=
  (compile_isBuilt h).readsOnly

end SemanticLayer
