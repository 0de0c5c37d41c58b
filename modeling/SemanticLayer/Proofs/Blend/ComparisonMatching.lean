import SemanticLayer.Proofs.Blend.ComparedTaxons
import SemanticLayer.Proofs.Blend.RowMatching
import SemanticLayer.Proofs.Blend.Stages

/-!
# Matching of comparisons

Data is joined to its comparison on some columns.  No row of the data meets two rows of the
comparison exactly if the comparison is grouped by those columns only.

* `Sql.Query.groupedColumns`: the columns that rows are grouped by;
* `PlannedRequest.ComparisonStages.mem_groupedColumns`: those of a comparison are the dimensions it
  reads and the labels of its formulas; all its other columns are sums (`mem_names_rows`);
* `comparison_matchesOnce_iff`: data and comparison are matched on all of them exactly if the
  comparable metrics read no other dimensions.
-/

namespace SemanticLayer

open Sql (Expr Query SelectItem)
open Formula (PreFormula)

namespace Sql.Query

/-- The columns that rows are grouped by, in a query or in the one that it selects from. -/
def groupedColumns (q : Query) : List String :=
  let below : List Expr :=
    match q.source? with
    | some ⟨.subquery s, _⟩ => s.grouping
    | _ => []
  ((if q.grouping.isEmpty then below else q.grouping).flatMap Expr.columns).map (·.2)

theorem snd_columns_map_col (names : List String) :
    ((names.map Expr.col).flatMap Expr.columns).map (·.2) = names := by
  rw [List.flatMap_map, List.map_flatMap]
  exact List.flatMap_singleton' names

theorem groupedColumns_of_groups {q : Query} {names : List String}
    (h : q.grouping = names.map Expr.col) (some : names ≠ []) : q.groupedColumns = names := by
  have groups : q.grouping.isEmpty = false := by
    rw [h, List.isEmpty_map]
    exact Bool.eq_false_iff.2 (mt List.isEmpty_iff.1 some)
  unfold groupedColumns
  dsimp only
  rw [if_neg (by rw [groups]; exact Bool.false_ne_true), h, snd_columns_map_col]

theorem groupedColumns_of_below {q s : Query} {table : String} {names : List String}
    (h : q.grouping = []) (source : q.source? = some (.subquery s table))
    (below : s.grouping = names.map Expr.col) : q.groupedColumns = names := by
  unfold groupedColumns
  dsimp only
  rw [h, if_pos List.isEmpty_nil, source]
  dsimp only [TableRef.subquery]
  rw [below, snd_columns_map_col]

end Sql.Query

theorem Dataframe.groupedColumns_groupedComparison {df df' : Dataframe}
    {metrics : SortedMap String Taxon} {fs : List PreFormula}
    (h : df.groupedComparison metrics fs = .ok df') (some : fs ≠ []) :
    df'.query.groupedColumns = (df.comparisonGroups metrics fs).toList := by
  rw [groupedComparison_eq_ok h]
  refine Query.groupedColumns_of_groups rfl ?_
  obtain ⟨f, hf⟩ := List.exists_mem_of_ne_nil _ some
  exact List.ne_nil_of_mem (mem_comparisonGroups.2 (.inl (List.mem_map_of_mem hf)))

namespace PlannedRequest

variable {r : PlannedRequest} {models : List Model} {tables : OverrideTables}

/-- Whether a comparison reads a raw taxon, for a metric or to be matched on. -/
def IsCompared (r : PlannedRequest) (t : Taxon) : Prop :=
  r.taxons.get? t.slug = some t ∧
    (t.slug ∈ r.plan.comparisonRaw ∨ ∃ p ∈ r.request.parts, r.Compares p t.slug)

/-- Whether a name is that of a dimension that the comparison reads. -/
def NamesDimension (r : PlannedRequest) (name : String) : Prop :=
  ∃ t, r.IsCompared t ∧ t.isDimension = true ∧ t.columnName = name

/-- Whether a name is that of a metric in the comparison. -/
def NamesMetric (r : PlannedRequest) (name : String) : Prop :=
  ∃ t, r.IsCompared t ∧ t.isDimension = false ∧ Identifier.safe (Slug.comparison t.slug) = name

theorem taxon_eq_ok {slug : String} (h : Slug.IsUnquoted slug) {t : Taxon}
    (found : r.taxons.get? slug = some t) : r.taxon slug = .ok t := by
  unfold RequestTaxons.taxon
  rw [Slug.withoutQuotes_eq h, found]

namespace ComparisonStages

variable (k : r.ComparisonStages models tables)

theorem isNamed_blended : k.blended.IsNamed := by
  obtain ⟨_, _, _, same⟩ := Dataframe.blend_eq_ok k.blended_eq
  rw [same]
  exact Dataframe.isNamed_together fun d hd => (k.isSourceOf d hd).named

section
variable (listed : r.taxons.IsListed) (matched : r.plan.IsMatched r.toRequestTaxons)
include listed matched

theorem mem_keys_blended {slug : String} :
    slug ∈ k.blended.columns.keys ↔
      slug ∈ r.plan.comparisonRaw ∨ ∃ p ∈ r.request.parts, r.Compares p slug := by
  obtain ⟨_, nonempty, _, same⟩ := Dataframe.blend_eq_ok k.blended_eq
  rw [same, Dataframe.mem_keys_together]
  exact mem_keys_comparisonSources listed matched k.sources_eq nonempty

theorem hasRaw_of_mem_blended {slug : String} (h : slug ∈ k.blended.columns.keys) :
    r.HasRaw slug := by
  rcases (k.mem_keys_blended listed matched).1 h with h | ⟨_, _, _, _, _, _, _, hraw, hs⟩
  · exact matched.raw slug h
  · exact RequestTaxons.hasRaw_of_mem_rawSlugs listed hraw hs

/-- Each blended column is that of a taxon that the comparison reads. -/
theorem isCompared_of_mem {t : Taxon} {c : DataframeColumn} (h : (t, c) ∈ k.columns) :
    r.IsCompared t ∧ c.taxon = t.slug ∧ c.name = t.columnName := by
  obtain ⟨⟨slug, c'⟩, he, step⟩ := Result.mapM_ok_mem k.columns_eq h
  obtain ⟨t', found, same⟩ := Result.map_eq_ok.1 step
  cases same
  have known : slug ∈ k.blended.columns.keys := SortedMap.mem_keys.2 ⟨c, he⟩
  have raw := k.hasRaw_of_mem_blended listed matched known
  obtain ⟨t', found', _⟩ := raw.raw
  cases (taxon_eq_ok raw.unquoted found').symm.trans found
  obtain ⟨name, taxon⟩ := k.isNamed_blended slug c he
  cases listed.slug_eq found'
  exact ⟨⟨found', (k.mem_keys_blended listed matched).1 known⟩, taxon, name⟩

theorem exists_column {t : Taxon} (h : r.IsCompared t) : ∃ c, (t, c) ∈ k.columns := by
  obtain ⟨found, reads⟩ := h
  have known := (k.mem_keys_blended listed matched).2 reads
  obtain ⟨c, hc⟩ := SortedMap.mem_keys.1 known
  obtain ⟨b, hb, step⟩ := Result.mapM_mem_ok k.columns_eq hc
  have unquoted := (k.hasRaw_of_mem_blended listed matched known).unquoted
  dsimp only at step
  rw [taxon_eq_ok unquoted found] at step
  cases step
  exact ⟨c, hb⟩

/-- Blended rows are grouped by their dimensions and by the labels of the templates. -/
theorem grouping_blended :
    k.blended.query.grouping = ((k.columns.filter (·.1.isDimension)).map (·.2.name) ++
      r.plan.comparisonTemplates.labels.toList).map Expr.col := by
  obtain ⟨blended, found, query⟩ := Dataframe.exists_blendedTaxons k.blended_eq
  have same : blended = k.columns := by
    refine Except.ok.inj (found.symm.trans ((Result.mapM_congr ?_).trans k.columns_eq))
    rintro ⟨slug, c⟩ he
    have raw := k.hasRaw_of_mem_blended listed matched (SortedMap.mem_keys.2 ⟨c, he⟩)
    obtain ⟨t, found, _⟩ := raw.raw
    dsimp only
    rw [found, taxon_eq_ok raw.unquoted found]
    rfl
  rw [query, same]
  rfl

theorem contains_comparedMetrics {name : String} :
    (comparedMetrics k.columns).contains name = true ↔ r.NamesMetric name := by
  rw [SortedMap.contains_iff, comparedMetrics, SortedMap.mem_keys_ofList, List.map_map]
  constructor
  · intro h
    obtain ⟨⟨t, c⟩, hb, rfl⟩ := List.mem_map.1 h
    obtain ⟨hb, metric⟩ := List.mem_filter.1 hb
    obtain ⟨compared, taxon, _⟩ := k.isCompared_of_mem listed matched hb
    rw [Bool.not_eq_true'] at metric
    refine ⟨t, compared, metric, ?_⟩
    rw [← taxon]
    simp [Dataframe.comparedColumn, metric]
  · rintro ⟨t, compared, metric, rfl⟩
    obtain ⟨c, hb⟩ := k.exists_column listed matched compared
    have kept : !t.isDimension := by rw [metric, Bool.not_false]
    refine List.mem_map.2 ⟨(t, c), List.mem_filter.2 ⟨hb, kept⟩, ?_⟩
    rw [← (k.isCompared_of_mem listed matched hb).2.1]
    simp [Dataframe.comparedColumn, metric]

/-- A column of a comparison goes by its slug in it. -/
theorem name_comparedColumn {b : Taxon × DataframeColumn} (hb : b ∈ k.columns) :
    (Dataframe.comparedColumn b.1 b.2).name =
      Identifier.safe (Dataframe.comparedColumn b.1 b.2).taxon := by
  obtain ⟨_, taxon, name⟩ := k.isCompared_of_mem listed matched (c := b.2) hb
  unfold Dataframe.comparedColumn
  split
  · rw [name, taxon]
    rfl
  · rfl

/-- The columns of a comparison are its dimensions and its metrics. -/
theorem exists_comparedColumn_iff {name : String} :
    (∃ b ∈ k.columns, (Dataframe.comparedColumn b.1 b.2).name = name) ↔
      r.NamesDimension name ∨ r.NamesMetric name := by
  constructor
  · rintro ⟨⟨t, c⟩, hb, rfl⟩
    obtain ⟨compared, taxon, shown⟩ := k.isCompared_of_mem listed matched hb
    unfold Dataframe.comparedColumn
    cases dimension : t.isDimension with
    | true => exact .inl ⟨t, compared, dimension, shown.symm⟩
    | false => exact .inr ⟨t, compared, dimension, by rw [← taxon]; rfl⟩
  · rintro (⟨t, compared, dimension, rfl⟩ | ⟨t, compared, metric, rfl⟩)
    · obtain ⟨c, hb⟩ := k.exists_column listed matched compared
      refine ⟨(t, c), hb, ?_⟩
      rw [← (k.isCompared_of_mem listed matched hb).2.2, Dataframe.comparedColumn, if_pos dimension]
    · obtain ⟨c, hb⟩ := k.exists_column listed matched compared
      refine ⟨(t, c), hb, ?_⟩
      rw [← (k.isCompared_of_mem listed matched hb).2.1, Dataframe.comparedColumn,
        if_neg (Bool.eq_false_iff.1 metric)]

theorem mem_taxonNames_compared {name : String} :
    name ∈ k.compared.taxonNames ↔ r.NamesDimension name ∨ r.NamesMetric name := by
  rw [← k.exists_comparedColumn_iff listed matched]
  constructor
  · intro h
    obtain ⟨c, hc, rfl⟩ := List.mem_map.1 h
    obtain ⟨slug, hc⟩ := SortedMap.mem_values.1 hc
    obtain ⟨b, hb, rfl⟩ := Dataframe.mem_columns_compared hc
    exact ⟨b, hb, rfl⟩
  · rintro ⟨b, hb, rfl⟩
    -- Of several columns with one slug the last is kept, but all have one name.
    have known : (Dataframe.comparedColumn b.1 b.2).taxon ∈ k.compared.columns.keys :=
      SortedMap.mem_keys_ofList.2 (List.mem_map.2 ⟨_, List.mem_map_of_mem hb, rfl⟩)
    obtain ⟨c, hc⟩ := SortedMap.mem_keys.1 known
    obtain ⟨b', hb', e⟩ := List.mem_map.1 (SortedMap.mem_of_mem_ofList hc)
    obtain ⟨taxon, rfl⟩ := Prod.mk.inj e
    refine List.mem_map.2 ⟨_, SortedMap.mem_values.2 ⟨_, hc⟩, ?_⟩
    rw [k.name_comparedColumn listed matched hb', k.name_comparedColumn listed matched hb, taxon]

/-- A comparison is grouped by its dimensions and by the labels of its formulas, or of its templates
if there are no formulas. -/
theorem mem_groupedColumns {name : String} :
    name ∈ k.rows.query.groupedColumns ↔
      (r.NamesDimension name ∧ (r.plan.comparisonFormulas ≠ [] → ¬ r.NamesMetric name)) ∨
      (r.plan.comparisonFormulas = [] ∧ name ∈ r.plan.comparisonTemplates.labels) ∨
      name ∈ r.plan.comparisonFormulas.map (·.label) := by
  rcases k.rows_eq with ⟨none, e⟩ | ⟨some, computed, hcomputed, hrows⟩
  · have columns : k.rows.query.groupedColumns =
        (k.columns.filter (·.1.isDimension)).map (·.2.name) ++
          r.plan.comparisonTemplates.labels.toList := by
      rw [e]
      exact Query.groupedColumns_of_below rfl rfl (k.grouping_blended listed matched)
    have dimensions : name ∈ (k.columns.filter (·.1.isDimension)).map (·.2.name) ↔
        r.NamesDimension name := by
      constructor
      · intro h
        obtain ⟨⟨t, c⟩, hb, rfl⟩ := List.mem_map.1 h
        obtain ⟨hb, dimension⟩ := List.mem_filter.1 hb
        obtain ⟨compared, _, shown⟩ := k.isCompared_of_mem listed matched hb
        exact ⟨t, compared, dimension, shown.symm⟩
      · rintro ⟨t, compared, dimension, rfl⟩
        obtain ⟨c, hb⟩ := k.exists_column listed matched compared
        refine List.mem_map.2 ⟨(t, c), List.mem_filter.2 ⟨hb, dimension⟩, ?_⟩
        exact (k.isCompared_of_mem listed matched hb).2.2
    rw [columns, List.mem_append, dimensions, none, List.map_nil]
    simp only [ne_eq, not_true_eq_false, false_implies, and_true, true_and, List.not_mem_nil,
      or_false]
    rfl
  · have below : computed.columns = k.compared.columns := Dataframe.columns_withFormulas hcomputed
    have groups : name ∈ computed.comparisonGroups (comparedMetrics k.columns)
        r.plan.comparisonFormulas ↔ name ∈ r.plan.comparisonFormulas.map (·.label) ∨
          r.NamesDimension name ∧ ¬ r.NamesMetric name := by
      rw [Dataframe.mem_comparisonGroups, below]
      refine or_congr_right ?_
      rw [← k.contains_comparedMetrics listed matched, Bool.not_eq_true]
      constructor
      · rintro ⟨c, hc, unnamed, rfl⟩
        have shown := (k.mem_taxonNames_compared listed matched).1 (List.mem_map_of_mem hc)
        refine ⟨shown.resolve_right ?_, unnamed⟩
        rw [← k.contains_comparedMetrics listed matched, unnamed]
        exact Bool.false_ne_true
      · rintro ⟨dimension, unnamed⟩
        have shown := (k.mem_taxonNames_compared listed matched).2 (.inl dimension)
        obtain ⟨c, hc, rfl⟩ := List.mem_map.1 shown
        exact ⟨c, hc, unnamed, rfl⟩
    rw [Dataframe.groupedColumns_groupedComparison hrows some]
    refine groups.trans ?_
    simp only [ne_eq, some, not_false_eq_true, true_implies, false_and, false_or]
    exact or_comm

/-- All other columns of a comparison are metrics. -/
theorem mem_names_rows {name : String} :
    name ∈ k.rows.names ↔ name ∈ k.rows.query.groupedColumns ∨ r.NamesMetric name := by
  rcases k.rows_eq with ⟨none, e⟩ | ⟨some, computed, hcomputed, hrows⟩
  · have columns : name ∈ k.columns.map (fun b => (Dataframe.comparedColumn b.1 b.2).name) ↔
        r.NamesDimension name ∨ r.NamesMetric name :=
      List.mem_map.trans (k.exists_comparedColumn_iff listed matched)
    have labels : name ∈ r.plan.comparisonTemplates.values.flatten.map (·.label) ↔
        name ∈ r.plan.comparisonTemplates.labels := SortedSet.mem_ofList.symm
    rw [k.mem_groupedColumns listed matched, e, Dataframe.names_compared.mem_iff, List.mem_append,
      columns, labels, none]
    simp only [ne_eq, not_true_eq_false, false_implies, and_true, true_and, List.map_nil,
      List.not_mem_nil, or_false]
    exact or_right_comm
  · have sums : name ∈ (computed.columns.values.filter fun c =>
        (comparedMetrics k.columns).contains c.name).map (·.name) ↔ r.NamesMetric name := by
      rw [Dataframe.columns_withFormulas hcomputed]
      constructor
      · intro h
        obtain ⟨c, hc, rfl⟩ := List.mem_map.1 h
        exact (k.contains_comparedMetrics listed matched).1 (List.mem_filter.1 hc).2
      · intro metric
        have shown := (k.mem_taxonNames_compared listed matched).2 (.inr metric)
        obtain ⟨c, hc, rfl⟩ := List.mem_map.1 shown
        have known := (k.contains_comparedMetrics listed matched).2 metric
        exact List.mem_map_of_mem (List.mem_filter.2 ⟨hc, known⟩)
    rw [(Dataframe.names_groupedComparison hrows).mem_iff, List.mem_append, sums,
      Dataframe.groupedColumns_groupedComparison hrows some]
    exact or_comm

end

end ComparisonStages

/-- Whether the columns on which data and comparison are matched are all that tell the rows of the
comparison apart: comparable metrics read no dimension besides, but for one that goes by the name of
a metric and is summed with it where formulas are added, and no source computes one besides where
none are. -/
structure MatchesGroups (r : PlannedRequest) : Prop where
  dimensions : ∀ p ∈ r.request.parts, ∀ t, r.Compares p t.slug → r.taxons.get? t.slug = some t →
    t.isDimension = true → t.columnName ∈ r.plan.comparisonColumns ∨
      r.plan.comparisonFormulas ≠ [] ∧ r.NamesMetric t.columnName
  templates : r.plan.comparisonFormulas = [] →
    ∀ label ∈ r.plan.comparisonTemplates.labels, label ∈ r.plan.comparisonColumns

theorem ComparisonStages.matchesGroups_iff (k : r.ComparisonStages models tables)
    (listed : r.taxons.IsListed) (matched : r.plan.IsMatched r.toRequestTaxons) :
    (∀ name ∈ k.rows.query.groupedColumns, name ∈ r.plan.comparisonColumns) ↔ r.MatchesGroups := by
  simp only [k.mem_groupedColumns listed matched]
  constructor
  · intro all
    refine ⟨fun p hp t reads found dimension => ?_, fun none label hl =>
      all label (.inr (.inl ⟨none, hl⟩))⟩
    by_cases clash : r.plan.comparisonFormulas ≠ [] ∧ r.NamesMetric t.columnName
    · exact .inr clash
    · have compared : r.IsCompared t := ⟨found, .inr ⟨p, hp, reads⟩⟩
      exact .inl (all _ (.inl ⟨⟨t, compared, dimension, rfl⟩, not_and.1 clash⟩))
  · rintro ⟨dimensions, templates⟩ name
      (⟨⟨t, ⟨found, raw | ⟨p, hp, reads⟩⟩, dimension, rfl⟩, unnamed⟩ | ⟨none, hl⟩ | hl)
    · exact (matched.columns _).2 (.inl (List.mem_map_of_mem raw))
    · rcases dimensions p hp t reads found dimension with matched | ⟨some, clash⟩
      · exact matched
      · exact absurd clash (unnamed some)
    · exact templates none name hl
    · exact (matched.columns _).2 (.inr hl)

end PlannedRequest

open PlannedRequest

/-- A comparison shows metrics and the columns that its rows are grouped by.  Data is matched with
it on all of these, and then only does no row of the data meet two of its rows, exactly if
comparable metrics read no dimensions but those that the comparison is asked for. -/
theorem comparison_matchesOnce_iff {taxonomy : TaxonMap} {useFallback : Bool}
    {request : BlendRequest} {r : PlannedRequest} {tables : OverrideTables} {models : List Model}
    {df : Dataframe} (listed : taxonomy.IsListed)
    (loaded : PlannedRequest.load taxonomy useFallback request = .ok r)
    (compared : r.comparison? tables models r.allowedSources = .ok (some df)) :
    (∀ name, name ∈ df.names ↔ name ∈ df.query.groupedColumns ∨ r.NamesMetric name) ∧
    ((∀ name ∈ df.query.groupedColumns, name ∈ r.plan.comparisonColumns) ↔ r.MatchesGroups) ∧
    ∀ data : Dataframe, (∀ j ∈ (data.withComparison df r.plan).query.joins,
      Dataframe.MatchesOnce j.condition df.query.groupedColumns) ↔ r.MatchesGroups := by
  obtain ⟨ts, hts, loaded⟩ := Result.bind_eq_ok.1 loaded
  obtain ⟨plan, hplan, loaded⟩ := Result.bind_eq_ok.1 loaded
  cases loaded
  have known := RequestTaxons.isListed_load listed hts
  have matched := RequestTaxons.plan_isMatched known hplan
  obtain ⟨k, rfl⟩ := comparison?_eq_ok compared
  have groups := k.matchesGroups_iff known matched
  exact ⟨fun _ => k.mem_names_rows known matched, groups, fun _ =>
    Dataframe.withComparison_matchesOnce_iff.trans groups⟩

/-- Costs by day, the price of a click, and the same with estimates where nothing is billed yet. -/
def clickTaxons : TaxonMap :=
  let dimension (slug : String) (validation : ValidationType) : Taxon :=
    ⟨slug, slug, none, .dimension, .raw .groupBy, validation, "acme", none, none, none⟩
  let metric (slug : String) (definition : TaxonDefinition) : Taxon :=
    ⟨slug, slug, none, .metric, definition, .numeric, "acme", none, none, none⟩
  Taxon.mapOf [dimension "day" .text, dimension "billed" .boolean, dimension "company_id" .text,
    metric "spend" (.raw .sum), metric "estimate" (.raw .sum), metric "clicks" (.raw .sum),
    metric "cpc" (.computed "spend / clicks"),
    metric "known_cpc" (.computed "iff(billed, spend, estimate) / clicks")]

def clickModel : Model :=
  { costsOf "acme" none .available with
    attributes := .ofList (["day", "billed", "spend", "estimate", "clicks"].map fun slug =>
      (slug, .of slug ("\"" ++ slug ++ "\""))) }

/-- A metric by day, compared by day. -/
def clickRequest (metric : String) : BlendRequest :=
  { BlendRequest.ofParts [{ SourceRequest.ofDataSource "ads" ⟨"acme", none, .available, none⟩ with
      taxons := ["day", metric] }] [] with
    comparison? := some ⟨some ["day"]⟩ }

/-- The price of a click reads no dimension, so each row of the data meets one of the comparison. -/
theorem comparison_matchesOnce_cpc :
    ∃ r df, clickTaxons.IsListed ∧
      PlannedRequest.load clickTaxons true (clickRequest "cpc") = .ok r ∧
      r.comparison? .empty [clickModel.augmented] r.allowedSources = .ok (some df) ∧
      r.MatchesGroups ∧ ∀ data : Dataframe, ∀ j ∈ (data.withComparison df r.plan).query.joins,
        Dataframe.MatchesOnce j.condition df.query.groupedColumns := by
  have listed : clickTaxons.IsListed := by decide +kernel
  have found : (PlannedRequest.load clickTaxons true (clickRequest "cpc")).toOption.any fun r =>
      (r.comparison? .empty [clickModel.augmented] r.allowedSources).toOption.any fun df? =>
        df?.any fun df => ∀ name ∈ df.query.groupedColumns, name ∈ r.plan.comparisonColumns := by
    decide +kernel
  obtain ⟨r, loaded, found⟩ := Result.ok_of_any found
  obtain ⟨df?, compared, found⟩ := Result.ok_of_any found
  obtain ⟨df, rfl, matched⟩ := (Option.any_eq_true _ _).1 found
  obtain ⟨_, groups, once⟩ := comparison_matchesOnce_iff listed loaded compared
  have all : r.MatchesGroups := groups.1 (of_decide_eq_true matched)
  exact ⟨r, df, listed, loaded, compared, all, fun data => (once data).2 all⟩

/-- With estimates it reads whether costs are billed, so a day meets two rows of the comparison. -/
theorem comparison_known_not_matched :
    ∃ r df, PlannedRequest.load clickTaxons true (clickRequest "known_cpc") = .ok r ∧
      r.comparison? .empty [clickModel.augmented] r.allowedSources = .ok (some df) ∧
      ¬ (∀ name ∈ df.query.groupedColumns, name ∈ r.plan.comparisonColumns) ∧
      ∀ data : Dataframe, ¬ ∀ j ∈ (data.withComparison df r.plan).query.joins,
        Dataframe.MatchesOnce j.condition df.query.groupedColumns := by
  have found : (PlannedRequest.load clickTaxons true (clickRequest "known_cpc")).toOption.any
      fun r => (r.comparison? .empty [clickModel.augmented] r.allowedSources).toOption.any
        fun df? => df?.any fun df =>
          ¬ ∀ name ∈ df.query.groupedColumns, name ∈ r.plan.comparisonColumns := by
    decide +kernel
  obtain ⟨r, loaded, found⟩ := Result.ok_of_any found
  obtain ⟨df?, compared, found⟩ := Result.ok_of_any found
  obtain ⟨df, rfl, unmatched⟩ := (Option.any_eq_true _ _).1 found
  have grouped := of_decide_eq_true unmatched
  exact ⟨r, df, loaded, compared, grouped, fun _ =>
    mt Dataframe.withComparison_matchesOnce_iff.1 grouped⟩

end SemanticLayer
