import SemanticLayer.Proofs.Blend.BlendedScoping
import SemanticLayer.Proofs.Blend.ComparisonScoping
import SemanticLayer.Proofs.Blend.FormulaScoping
import SemanticLayer.Proofs.Blend.Isolation
import SemanticLayer.Proofs.Blend.ResultScoping

/-!
# Scoping of answers

The stages that an answer goes through, and when all their columns are in scope.

* `PlannedRequest.Stages`, `ComparisonStages`: the dataframes on the way to an answer;
* `Stages.IsWellNamed`: what names, formulas and filters have to agree on;
* `Catalog.answer_isScoped_iff`: an answer is in scope exactly if its stages are well named.
-/

namespace SemanticLayer

open Sql (Expr Query SelectItem RowScope)
open Formula (PreFormula)

namespace Dataframe

variable {df df' : Dataframe} {taxons : TaxonMap} {templates : SourceTemplates}
  {dfs : List Dataframe} {fs : List PreFormula} {tables : OverrideTables} {uses : OverrideUses}

theorem taxonNames_subset_blend (h : blend taxons templates dfs = .ok df) :
    ∀ name ∈ df.taxonNames, name ∈ df.names :=
  fun _ hn => (names_blend h).mem_iff.2 (List.mem_append_left _ hn)

/-- With formulas, rows offer the columns of their taxons still. -/
theorem taxonNames_subset_withFormulas (h : df.withFormulas fs tables uses = .ok df')
    (below : ∀ name ∈ df.taxonNames, name ∈ df.names) :
    ∀ name ∈ df'.taxonNames, name ∈ df'.names := by
  intro name hn
  rw [taxonNames, columns_withFormulas h] at hn
  by_cases hfs : fs = []
  · rcases withFormulas_eq_ok h with ⟨_, rfl⟩ | ⟨some, _⟩
    · exact below name hn
    · exact absurd hfs some
  · exact ((names_withFormulas h hfs).2 name).2 (.inl (below name hn))

/-- With formulas, rows offer the labels of all of them. -/
theorem labels_subset_withFormulas (h : df.withFormulas fs tables uses = .ok df') :
    ∀ label ∈ fs.map (·.label), label ∈ df'.names := by
  intro label hl
  have nonempty : fs ≠ [] := by
    rintro rfl
    cases hl
  exact ((names_withFormulas h nonempty).2 label).2 (.inr hl)

theorem nodup_withFormulas (h : df.withFormulas fs tables uses = .ok df')
    (nodup : df.names.Nodup) : df'.names.Nodup := by
  by_cases hfs : fs = []
  · rcases withFormulas_eq_ok h with ⟨_, rfl⟩ | ⟨some, _⟩
    · exact nodup
    · exact absurd hfs some
  · exact (names_withFormulas h hfs).1

end Dataframe

namespace PlannedRequest

/-- The connections that a request allows. -/
abbrev allowedSources (r : PlannedRequest) : Option NameSet :=
  r.request.physicalSources?.map SortedSet.ofList

/-! ## Comparisons -/

/-- The metrics of a comparison, by their names in it. -/
def comparedMetrics (columns : List (Taxon × DataframeColumn)) : SortedMap String Taxon :=
  .ofList ((columns.filter fun (t, _) => !t.isDimension).map fun (t, c) =>
    ((Dataframe.comparedColumn t c).name, t))

/-- The stages of a comparison. -/
structure ComparisonStages (r : PlannedRequest) (models : List Model) (tables : OverrideTables) where
  request : ComparisonRequest
  /-- The rows of each data source. -/
  sources : List Dataframe
  blended : Dataframe
  /-- The blended columns, each with its taxon. -/
  columns : List (Taxon × DataframeColumn)
  rows : Dataframe
  sources_eq : r.comparisonSources request models r.allowedSources = .ok sources
  blended_eq : Dataframe.blend r.taxons r.plan.comparisonTemplates sources = .ok blended
  columns_eq : (blended.columns.toList.mapM fun (slug, c) => (r.taxon slug).map (·, c)) =
    .ok columns
  rows_eq : (r.plan.comparisonFormulas = [] ∧
      rows = blended.compared r.plan.comparisonTemplates columns) ∨
    (r.plan.comparisonFormulas ≠ [] ∧ ∃ computed,
      (blended.compared r.plan.comparisonTemplates columns).withFormulas r.plan.comparisonFormulas
        tables r.plan.comparisonOverrides = .ok computed ∧
      computed.groupedComparison (comparedMetrics columns) r.plan.comparisonFormulas = .ok rows)

variable {r : PlannedRequest} {models : List Model} {tables : OverrideTables}

theorem comparison?_eq_ok {df : Dataframe}
    (h : r.comparison? tables models r.allowedSources = .ok (some df)) :
    ∃ k : r.ComparisonStages models tables, k.rows = df := by
  unfold comparison? at h
  split at h
  · cases h
  rename_i request _
  obtain ⟨sources, sources_eq, h⟩ := Result.bind_eq_ok.1 h
  split at h
  · cases h
  obtain ⟨blended, blended_eq, h⟩ := Result.bind_eq_ok.1 h
  obtain ⟨columns, columns_eq, h⟩ := Result.bind_eq_ok.1 h
  dsimp only at h
  split at h
  · rename_i none
    cases h
    exact ⟨⟨request, sources, blended, columns, _, sources_eq, blended_eq, columns_eq,
      .inl ⟨List.isEmpty_iff.1 none, rfl⟩⟩, rfl⟩
  · rename_i some
    obtain ⟨computed, computed_eq, h⟩ := Result.bind_eq_ok.1 h
    obtain ⟨rows, rows_eq, h⟩ := Result.bind_eq_ok.1 h
    cases h
    exact ⟨⟨request, sources, blended, columns, df, sources_eq, blended_eq, columns_eq,
      .inr ⟨fun none => some (List.isEmpty_iff.2 none), computed, computed_eq, rows_eq⟩⟩, rfl⟩

namespace ComparisonStages

variable (k : r.ComparisonStages models tables)

/-- The comparison under the names it has beside the data. -/
abbrev compared : Dataframe := k.blended.compared r.plan.comparisonTemplates k.columns

/-- Whether the names of a comparison are distinct where they are read, and its formulas read what
is there. -/
structure IsWellNamed : Prop where
  sources : ∀ d ∈ k.sources, d.names.Nodup
  blended : k.blended.names.Nodup
  formulas : r.plan.comparisonFormulas ≠ [] → Dataframe.FormulasFit k.compared.names
    r.plan.comparisonFormulas r.plan.comparisonOverrides

theorem isSourceOf : ∀ d ∈ k.sources, d.IsSourceOf r.plan.comparisonTemplates.labels := by
  intro d hd
  obtain ⟨p, _, h⟩ := Result.filterMapM_ok_mem k.sources_eq hd
  obtain ⟨taxons, _, h⟩ := Result.bind_eq_ok.1 h
  split at h
  · cases h
  obtain ⟨s, hs, h⟩ := Result.bind_eq_ok.1 h
  obtain ⟨d', hdf, h⟩ := Result.bind_eq_ok.1 h
  cases h
  obtain ⟨dataSource, _, hs⟩ := Result.bind_eq_ok.1 hs
  obtain ⟨filterTemplates, _, hs⟩ := Result.bind_eq_ok.1 hs
  cases hs
  exact SourceRows.isSourceOf rfl hdf

theorem name_mem_blended : ∀ b ∈ k.columns, b.2.name ∈ k.blended.names := by
  intro b hb
  obtain ⟨e, he, h⟩ := Result.mapM_ok_mem k.columns_eq hb
  obtain ⟨t, _, rfl⟩ := Result.map_eq_ok.1 h
  exact Dataframe.taxonNames_subset_blend k.blended_eq _
    (List.mem_map_of_mem (SortedMap.mem_values.2 ⟨e.1, he⟩))

theorem label_mem_blended :
    ∀ label ∈ r.plan.comparisonTemplates.values.flatten.map (·.label), label ∈ k.blended.names :=
  fun _ hl => (Dataframe.names_blend k.blended_eq).mem_iff.2
    (List.mem_append_right _ (SortedSet.mem_ofList.2 hl))

/-- The columns that a comparison adds are there. -/
theorem metrics_mem_rows : ∀ name ∈ k.rows.comparisonMetrics.map (·.name), name ∈ k.rows.names := by
  intro name hn
  obtain ⟨c, hc, rfl⟩ := List.mem_map.1 hn
  have known := Dataframe.mem_comparisonMetrics hc
  rcases k.rows_eq with ⟨_, e⟩ | ⟨_, computed, hcomputed, hrows⟩
  · rw [e] at known ⊢
    exact Dataframe.mem_names_compared known
  · refine Dataframe.mem_names_groupedComparison hrows (.inl (List.mem_map_of_mem ?_))
    rwa [Dataframe.groupedComparison_eq_ok hrows] at known

/-- A comparison is in scope exactly if it is well named. -/
theorem isScoped_iff (ht : tables.AreMappings) : k.rows.query.IsScoped ↔ k.IsWellNamed := by
  have blended := Dataframe.blend_isScoped_iff k.blended_eq k.isSourceOf
  have compared : k.compared.query.IsScoped ↔ k.blended.query.IsScoped :=
    Dataframe.compared_isScoped_iff (fun below => (blended.1 below).1) k.name_mem_blended
      k.label_mem_blended
  rw [← compared] at blended
  rcases k.rows_eq with ⟨none, e⟩ | ⟨some, computed, hcomputed, hrows⟩
  · rw [e, blended]
    constructor
    · rintro ⟨nodup, sources⟩
      exact ⟨sources, nodup, fun some => absurd none some⟩
    · rintro ⟨sources, nodup, _⟩
      exact ⟨nodup, sources⟩
  · have below : ∀ name ∈ computed.taxonNames, name ∈ computed.names := by
      refine Dataframe.taxonNames_subset_withFormulas hcomputed ?_
      intro name hn
      obtain ⟨c, hc, rfl⟩ := List.mem_map.1 hn
      exact Dataframe.mem_names_compared hc
    rw [Dataframe.groupedComparison_isScoped_iff hrows
      (fun _ => (Dataframe.names_withFormulas hcomputed some).1) below
      (Dataframe.labels_subset_withFormulas hcomputed),
      Dataframe.withFormulas_isScoped_iff ht hcomputed, blended]
    constructor
    · rintro ⟨formulas, nodup, sources⟩
      exact ⟨sources, nodup, formulas⟩
    · rintro ⟨sources, nodup, formulas⟩
      exact ⟨formulas, nodup, sources⟩

end ComparisonStages

/-! ## Answers -/

/-- The stages of an answer. -/
structure Stages (r : PlannedRequest) (c : Catalog) (maxMappings : Nat) where
  tables : OverrideTables
  /-- The rows of each data source. -/
  sources : List Dataframe
  blended : Dataframe
  /-- The blended rows with the formulas of dimensions. -/
  data : Dataframe
  /-- The comparison that is joined, if it has any metric. -/
  comparison? : Option (r.ComparisonStages c.models tables)
  rows : Dataframe
  /-- The results that the answer is taken from. -/
  results : Dataframe
  answered : TaxonMap
  tables_eq : (r.request.company >>= fun company => OverrideTables.load c.mappings company
    (r.plan.overrides.keys ++ r.plan.comparisonOverrides.keys) maxMappings) = .ok tables
  sources_eq : (r.request.parts.mapM fun p =>
    r.partRows p r.allowedSources >>= (·.dataframe c.models)) = .ok sources
  blended_eq : Dataframe.blend r.taxons r.plan.sourceTemplates sources = .ok blended
  data_eq : blended.withFormulas r.plan.dimensionFormulas tables r.plan.overrides = .ok data
  comparison_eq : (r.comparison? tables c.models r.allowedSources).map
    (Option.filter fun df => df.columns.keys.any Slug.isComparison) =
      .ok (comparison?.map (·.rows))
  rows_eq : rows = comparison?.elim data fun k => data.withComparison k.rows r.plan
  results_eq : rows.withMetrics r.plan r.request = .ok results
  answered_eq : r.answered = .ok answered

variable {c : Catalog} {maxMappings : Nat}

theorem answer_eq_ok {df : Dataframe} (h : r.answer c maxMappings = .ok df) :
    ∃ st : r.Stages c maxMappings, st.results.project st.answered r.request = .ok df := by
  unfold answer at h
  obtain ⟨company, company_eq, h⟩ := Result.bind_eq_ok.1 h
  obtain ⟨tables, tables_eq, h⟩ := Result.bind_eq_ok.1 h
  obtain ⟨data, hdata, h⟩ := Result.bind_eq_ok.1 h
  obtain ⟨comparison?, hcomparison, h⟩ := Result.bind_eq_ok.1 h
  obtain ⟨results, results_eq, h⟩ := Result.bind_eq_ok.1 h
  obtain ⟨answered, answered_eq, projected⟩ := Result.bind_eq_ok.1 h
  obtain ⟨sources, sources_eq, hdata⟩ := Result.bind_eq_ok.1 hdata
  obtain ⟨blended, blended_eq, data_eq⟩ := Result.bind_eq_ok.1 hdata
  have loaded : (r.request.company >>= fun company => OverrideTables.load c.mappings company
      (r.plan.overrides.keys ++ r.plan.comparisonOverrides.keys) maxMappings) = .ok tables :=
    Result.bind_eq_ok.2 ⟨company, company_eq, tables_eq⟩
  cases comparison? with
  | none =>
    refine ⟨⟨tables, sources, blended, data, none, _, results, answered, loaded, sources_eq,
      blended_eq, data_eq, ?_, rfl, results_eq, answered_eq⟩, projected⟩
    rw [hcomparison]
    rfl
  | some compared =>
    dsimp only at results_eq
    split at results_eq
    · rename_i joined
      obtain ⟨k, rfl⟩ := comparison?_eq_ok hcomparison
      refine ⟨⟨tables, sources, blended, data, some k, _, results, answered, loaded, sources_eq,
        blended_eq, data_eq, ?_, rfl, results_eq, answered_eq⟩, projected⟩
      rw [hcomparison]
      exact congrArg Except.ok (Option.filter_some_pos joined)
    · rename_i left
      refine ⟨⟨tables, sources, blended, data, none, _, results, answered, loaded, sources_eq,
        blended_eq, data_eq, ?_, rfl, results_eq, answered_eq⟩, projected⟩
      rw [hcomparison]
      exact congrArg Except.ok (Option.filter_some_neg (Bool.eq_false_iff.2 left))

namespace Stages

variable (st : r.Stages c maxMappings)

/-- Whether the names of an answer's stages are distinct where they are read, and all formulas read
what the stage below them offers. -/
structure IsWellNamed : Prop where
  sources : ∀ d ∈ st.sources, d.names.Nodup
  blended : st.blended.names.Nodup
  dimensions : r.plan.dimensionFormulas ≠ [] → Dataframe.FormulasFit st.blended.names
    r.plan.dimensionFormulas r.plan.overrides
  comparison : ∀ k ∈ st.comparison?, k.IsWellNamed
  /-- Data and comparison are matched on columns of both. -/
  matched : ∀ k ∈ st.comparison?, ∀ name ∈ r.plan.comparisonColumns,
    name ∈ st.data.names ∧ name ∈ k.rows.names
  metrics : r.plan.MetricsFit st.rows.names r.request.groupingSets?
  results : r.plan.ResultsFit
  /-- A filter on the results reads all of them. -/
  filtered : r.request.filter?.isSome = true → r.plan.resultNames.Nodup
  answered : ∀ t ∈ st.answered.values, r.plan.resultNames.count t.columnName = 1

theorem areMappings : st.tables.AreMappings := by
  obtain ⟨company, _, h⟩ := Result.bind_eq_ok.1 st.tables_eq
  exact OverrideTables.areMappings_load h

theorem isSourceOf : ∀ d ∈ st.sources, d.IsSourceOf r.plan.sourceTemplates.labels := by
  intro d hd
  obtain ⟨p, _, h⟩ := Result.mapM_ok_mem st.sources_eq hd
  obtain ⟨s, hs, h⟩ := Result.bind_eq_ok.1 h
  obtain ⟨taxons, _, hs⟩ := Result.bind_eq_ok.1 hs
  obtain ⟨dataSource, _, hs⟩ := Result.bind_eq_ok.1 hs
  cases hs
  exact SourceRows.isSourceOf rfl h

theorem data_isScoped_iff :
    st.data.query.IsScoped ↔
      (r.plan.dimensionFormulas ≠ [] → Dataframe.FormulasFit st.blended.names
        r.plan.dimensionFormulas r.plan.overrides) ∧
      st.blended.names.Nodup ∧ ∀ d ∈ st.sources, d.names.Nodup :=
  (Dataframe.withFormulas_isScoped_iff st.areMappings st.data_eq).trans
    (and_congr_right' (Dataframe.blend_isScoped_iff st.blended_eq st.isSourceOf))

/-- Rows are in scope exactly if data and comparison are, which are matched on columns of both. -/
theorem rows_isScoped_iff :
    st.rows.query.IsScoped ↔
      (∀ k ∈ st.comparison?, (∀ name ∈ r.plan.comparisonColumns,
        name ∈ st.data.names ∧ name ∈ k.rows.names) ∧ k.IsWellNamed) ∧
      st.data.query.IsScoped := by
  rw [st.rows_eq]
  cases hk : st.comparison? with
  | none => exact (and_iff_right fun k h => nomatch h).symm
  | some k =>
    have taxons := Dataframe.taxonNames_subset_withFormulas st.data_eq
      (Dataframe.taxonNames_subset_blend st.blended_eq)
    have labels := Dataframe.labels_subset_withFormulas st.data_eq
    refine (Dataframe.withComparison_isScoped_iff taxons labels k.metrics_mem_rows).trans ?_
    rw [k.isScoped_iff st.areMappings]
    constructor
    · rintro ⟨matched, below, fit⟩
      refine ⟨?_, below⟩
      intro k' hk'
      cases hk'
      exact ⟨matched, fit⟩
    · rintro ⟨all, below⟩
      obtain ⟨matched, fit⟩ := all k rfl
      exact ⟨matched, below, fit⟩

theorem nodup_rows (h : st.rows.query.IsScoped) : st.rows.names.Nodup := by
  have data := (st.data_isScoped_iff.1 (st.rows_isScoped_iff.1 h).2).2.1
  rw [st.rows_eq]
  cases hk : st.comparison? with
  | none => exact Dataframe.nodup_withFormulas st.data_eq data
  | some k => exact (Dataframe.names_withComparison r.plan).1

/-- The answer is in scope exactly if its stages are well named. -/
theorem isScoped_iff {df : Dataframe} (h : st.results.project st.answered r.request = .ok df) :
    df.query.IsScoped ↔ st.IsWellNamed := by
  have names (name : String) : st.results.names.count name = r.plan.resultNames.count name :=
    (Dataframe.names_withMetrics st.results_eq).count_eq name
  rw [Dataframe.project_isScoped_iff (fun _ _ => Dataframe.name_withMetrics st.results_eq) h,
    Dataframe.withMetrics_isScoped_iff st.nodup_rows st.results_eq, st.rows_isScoped_iff,
    st.data_isScoped_iff]
  simp only [names]
  constructor
  · rintro ⟨answered, filtered, results, metrics, compared, dimensions, blended, sources⟩
    exact ⟨sources, blended, dimensions, fun k hk => (compared k hk).2,
      fun k hk => (compared k hk).1, metrics, results, filtered, answered⟩
  · rintro ⟨sources, blended, dimensions, comparison, matched, metrics, results, filtered, answered⟩
    exact ⟨answered, filtered, results, metrics, fun k hk => ⟨matched k hk, comparison k hk⟩,
      dimensions, blended, sources⟩

end Stages

end PlannedRequest

namespace Catalog

variable {c : Catalog} {o : Options} {r : BlendRequest} {df : Dataframe}

/-- A request is answered through the stages of its plan. -/
theorem answer_eq_ok (h : c.answer o r = .ok df) :
    ∃ (p : PlannedRequest) (st : p.Stages c o.maxMappings),
      (r.distributed >>= PlannedRequest.load c.taxons o.useFallback) = .ok p ∧
      st.results.project st.answered p.request = .ok df := by
  obtain ⟨_, _, h⟩ := Result.bind_eq_ok.1 h
  obtain ⟨distributed, hdistributed, h⟩ := Result.bind_eq_ok.1 h
  obtain ⟨p, hp, h⟩ := Result.bind_eq_ok.1 h
  obtain ⟨st, hst⟩ := PlannedRequest.answer_eq_ok h
  exact ⟨p, st, Result.bind_eq_ok.2 ⟨distributed, hdistributed, hp⟩, hst⟩

/-- All columns of an answer above the queries of its data sources are in scope exactly if its
stages are well named. -/
theorem answer_isScoped_iff (h : c.answer o r = .ok df) :
    ∃ (p : PlannedRequest) (st : p.Stages c o.maxMappings),
      (r.distributed >>= PlannedRequest.load c.taxons o.useFallback) = .ok p ∧
      st.results.project st.answered p.request = .ok df ∧
      (df.query.IsScoped ↔ st.IsWellNamed) := by
  obtain ⟨p, st, hp, hdf⟩ := answer_eq_ok h
  exact ⟨p, st, hp, hdf, st.isScoped_iff hdf⟩

end Catalog

/-- Costs, and a taxon of their data source that is computed from them. -/
def doubledCosts : Catalog where
  taxons := costsTaxons.insert "ads|double"
    ⟨"ads|double", "Double", some "ads", .metric, .computed "spend + spend", .money, "acme", none,
      none, none⟩
  models := [(costsOf "acme" none .available).augmented]
  mappings := []

def doubledRequest : BlendRequest :=
  .ofParts [.ofDataSource "ads" ⟨"acme", some "north", .available, none⟩] ["ads|double"]

theorem answer_isScoped_costs :
    ∃ df, doubledCosts.answer .default costsRequest = .ok df ∧
      ∃ (p : PlannedRequest) (st : p.Stages doubledCosts Options.default.maxMappings),
        st.results.project st.answered p.request = .ok df ∧
        (df.query.IsScoped ↔ st.IsWellNamed) := by
  have answered : (doubledCosts.answer .default costsRequest).toOption.any (fun _ => true) := by
    decide +kernel
  obtain ⟨df, hdf, _⟩ := Result.ok_of_any answered
  obtain ⟨p, st, _, hst, inScope⟩ := Catalog.answer_isScoped_iff hdf
  exact ⟨df, hdf, p, st, hst, inScope⟩

/-- Without dimensions, the result of a formula reads its slug, but its aggregate goes by the safe
form of the slug. -/
theorem answer_labelled_not_isScoped :
    ∃ df, doubledCosts.answer .default doubledRequest = .ok df ∧ ¬ df.query.IsScoped := by
  have below : (doubledCosts.answer .default doubledRequest).toOption.any (fun df =>
      !decide df.query.IsSource &&
        df.query.children.any fun q => !decide q.IsSource && !decide q.IsResolved) := by
    decide +kernel
  obtain ⟨df, hdf, found⟩ := Result.ok_of_any below
  obtain ⟨above, found⟩ := Bool.and_eq_true_iff.1 found
  obtain ⟨q, hq, found⟩ := List.any_eq_true.1 found
  obtain ⟨belowAbove, unresolved⟩ := Bool.and_eq_true_iff.1 found
  refine ⟨df, hdf, fun inScope => ?_⟩
  have answer := (Query.isScoped_iff (by simpa using above)).1 inScope
  have results := (Query.isScoped_iff (by simpa using belowAbove)).1 (answer.2 q hq)
  exact absurd results.1 (by simpa using unresolved)

end SemanticLayer
