import SemanticLayer.Proofs.Blend.ComparedTaxons
import SemanticLayer.Proofs.Blend.ComparisonMatching

/-!
# Columns of dataframes

Every stage passes on a dataframe that lists each column under its taxon, and whose query offers the
column.  Where rows are joined with a comparison, only the metrics of the comparison are selected,
and its dimensions are columns of the data.

* `RequestTaxons.closure_mono`, `rawSlugs_mono`: more slugs have more raw taxons behind them;
* `PlannedRequest.mem_partTaxons_of_compares`: what a part's comparable metrics read, the part
  selects;
* `Dataframe.ListsColumns`: the invariant;
* `PlannedRequest.ComparisonStages.listsColumns`, `Stages.listsColumns`: it holds at every stage;
* `PlannedRequest.Stages.mem_keys_data`: what parts select, the data has columns for.
-/

namespace SemanticLayer

open Sql (Expr Query SelectItem)
open Formula (PreFormula)

/-! ## Raw taxons behind slugs -/

namespace RequestTaxons

variable {ts : RequestTaxons}

/-- Whether the calculation of one taxon names another. -/
def Uses (ts : RequestTaxons) (slug used : String) : Prop :=
  ∃ t calculation slugs, ts.taxons.get? slug = some t ∧ t.calculation? = some calculation ∧
    Formula.usedSlugs calculation (some ts.dataSources) = .ok slugs ∧ used ∈ slugs.all

/-- What a round of the closure adds: the slugs that the last ones use. -/
theorem closure_eq_ok {rounds : Nat} {seen new reached : NameSet}
    (h : ts.closure (rounds + 1) seen new = .ok reached) :
    (new.isEmpty = true ∧ reached = seen) ∨
      ∃ next : NameSet, ts.closure rounds (seen ∪ new) (next.diff (seen ∪ new)) = .ok reached ∧
        ∀ used, used ∈ next ↔ ∃ slug ∈ new, ts.Uses slug used := by
  unfold closure at h
  split at h
  · rename_i none
    cases h
    exact .inl ⟨none, rfl⟩
  obtain ⟨used, hused, h⟩ := Result.bind_eq_ok.1 h
  refine .inr ⟨_, h, fun s => ?_⟩
  rw [SortedSet.mem_unions]
  constructor
  · rintro ⟨_, hall, hs⟩
    obtain ⟨u, hu, rfl⟩ := List.mem_map.1 hall
    obtain ⟨calculation, hc, read⟩ := Result.mapM_ok_mem hused hu
    obtain ⟨t, ht, computed⟩ := List.mem_filterMap.1 hc
    obtain ⟨slug, hslug, found⟩ := List.mem_filterMap.1 ht
    exact ⟨slug, hslug, t, calculation, u, found, computed, read, hs⟩
  · rintro ⟨slug, hslug, t, calculation, u, found, computed, read, hs⟩
    have named : calculation ∈ (new.toList.filterMap ts.taxons.get?).filterMap Taxon.calculation? :=
      List.mem_filterMap.2 ⟨t, List.mem_filterMap.2 ⟨slug, hslug, found⟩, computed⟩
    obtain ⟨u', hu', read'⟩ := Result.mapM_mem_ok hused named
    cases read.symm.trans read'
    exact ⟨_, List.mem_map_of_mem hu', hs⟩

theorem closure_seen {rounds : Nat} {seen new reached : NameSet}
    (h : ts.closure rounds seen new = .ok reached) : ∀ slug ∈ seen, slug ∈ reached := by
  induction rounds generalizing seen new with
  | zero =>
    cases h
    exact fun _ hs => hs
  | succ rounds ih =>
    rcases closure_eq_ok h with ⟨_, rfl⟩ | ⟨next, h, _⟩
    · exact fun _ hs => hs
    · exact fun slug hs => ih h slug (SortedSet.mem_cup.2 (.inl hs))

/-- In as many rounds, more slugs reach more.  The larger run is ahead in every round: it has seen
what the smaller one has seen, and has seen or meets next whatever the smaller one meets next. -/
theorem closure_mono {rounds : Nat} {seen seen' new new' reached reached' : NameSet}
    (hseen : ∀ slug ∈ seen, slug ∈ seen') (hnew : ∀ slug ∈ new, slug ∈ seen' ∪ new')
    (closed : ∀ slug ∈ seen', ∀ used, ts.Uses slug used → used ∈ seen' ∪ new')
    (h : ts.closure rounds seen new = .ok reached)
    (h' : ts.closure rounds seen' new' = .ok reached') : ∀ slug ∈ reached, slug ∈ reached' := by
  induction rounds generalizing seen seen' new new' with
  | zero =>
    cases h
    cases h'
    exact hseen
  | succ rounds ih =>
    rcases closure_eq_ok h with ⟨_, rfl⟩ | ⟨next, h, uses⟩
    · exact fun slug hs => closure_seen h' slug (hseen slug hs)
    have seenNext : ∀ slug ∈ seen ∪ new, slug ∈ seen' ∪ new' := fun slug hs =>
      (SortedSet.mem_cup.1 hs).elim (fun hs => SortedSet.mem_cup.2 (.inl (hseen slug hs)))
        (hnew slug)
    rcases closure_eq_ok h' with ⟨none, rfl⟩ | ⟨next', h', uses'⟩
    · -- The larger run is closed, so it would stay as it is.
      have done : ∀ slug, slug ∈ reached' ∪ new' ↔ slug ∈ reached' := fun slug => by
        rw [SortedSet.mem_cup]
        exact or_iff_left (SortedSet.isEmpty_iff.1 none slug)
      have stays : ts.closure rounds reached' .empty = .ok reached' := by
        cases rounds with
        | zero => rfl
        | succ _ => rfl
      simp only [done] at seenNext closed
      refine ih seenNext (fun slug hs => ?_) (fun slug hs used huse => ?_) h stays
      · obtain ⟨hs, _⟩ := SortedSet.mem_diff.1 hs
        obtain ⟨s, hs, huse⟩ := (uses slug).1 hs
        have known := seenNext s (SortedSet.mem_cup.2 (.inr hs))
        exact SortedSet.mem_cup.2 (.inl (closed s known slug huse))
      · exact SortedSet.mem_cup.2 (.inl (closed slug hs used huse))
    · have closedNext : ∀ slug ∈ seen' ∪ new', ∀ used, ts.Uses slug used →
          used ∈ (seen' ∪ new') ∪ next'.diff (seen' ∪ new') := by
        intro slug hs used huse
        rw [SortedSet.mem_cup, SortedSet.mem_diff]
        by_cases known : used ∈ seen' ∪ new'
        · exact .inl known
        · refine .inr ⟨(uses' used).2 ?_, known⟩
          rcases SortedSet.mem_cup.1 hs with hs | hs
          · exact absurd (closed slug hs used huse) known
          · exact ⟨slug, hs, huse⟩
      refine ih seenNext (fun slug hs => ?_) closedNext h h'
      obtain ⟨hs, _⟩ := SortedSet.mem_diff.1 hs
      obtain ⟨s, hs, huse⟩ := (uses slug).1 hs
      exact closedNext s (seenNext s (SortedSet.mem_cup.2 (.inr hs))) slug huse

theorem rawSlugs_mono {slugs slugs' raw raw' : NameSet} {dataSource : String}
    (hslugs : ∀ slug ∈ slugs, Slug.withoutQuotes slug ∈ slugs'.image Slug.withoutQuotes)
    (h : ts.rawSlugs slugs dataSource = .ok raw)
    (h' : ts.rawSlugs slugs' dataSource = .ok raw') : ∀ slug ∈ raw, slug ∈ raw' := by
  obtain ⟨reached, hreached, h⟩ := Result.bind_eq_ok.1 h
  obtain ⟨reached', hreached', h'⟩ := Result.bind_eq_ok.1 h'
  cases h
  cases h'
  have more : ∀ slug ∈ reached, slug ∈ reached' := by
    refine closure_mono (fun _ hs => hs) (fun slug hs => ?_)
      (fun slug hs => absurd hs (SortedSet.not_mem_empty slug)) hreached hreached'
    obtain ⟨asked, hasked, rfl⟩ := List.mem_map.1 (SortedSet.mem_ofList.1 hs)
    exact SortedSet.mem_cup.2 (.inr (hslugs asked hasked))
  intro slug hs
  obtain ⟨hs, source⟩ := SortedSet.mem_filter.1 hs
  obtain ⟨t, ht, rfl⟩ := List.mem_map.1 (SortedSet.mem_ofList.1 hs)
  obtain ⟨ht, uncomputed⟩ := List.mem_filter.1 ht
  obtain ⟨s, hs, found⟩ := List.mem_filterMap.1 ht
  have ht : t ∈ (reached'.toList.filterMap ts.taxons.get?).filter fun t => !t.isComputed :=
    List.mem_filter.2 ⟨List.mem_filterMap.2 ⟨s, more s hs, found⟩, uncomputed⟩
  exact SortedSet.mem_filter.2 ⟨SortedSet.mem_ofList.2 (List.mem_map_of_mem ht), source⟩

/-- A taxon that is asked for goes by the slug that it is asked by, without quotes. -/
theorem slug_of_mem_named (listed : ts.taxons.IsListed) {slugs : List String} {found : TaxonMap}
    (h : ts.named slugs = .ok found) {t : Taxon} (ht : t ∈ found.values) :
    ∃ slug ∈ slugs, Slug.withoutQuotes slug = t.slug := by
  obtain ⟨entries, hentries, rfl⟩ := Result.map_eq_ok.1 h
  obtain ⟨key, ht⟩ := SortedMap.mem_values.1 ht
  obtain ⟨slug, hslug, e⟩ := Result.mapM_ok_mem hentries (SortedMap.mem_of_mem_ofList ht)
  obtain ⟨t', known, e⟩ := Result.map_eq_ok.1 e
  cases e
  unfold taxon at known
  split at known
  · rename_i found
    cases known
    exact ⟨slug, hslug, (listed.slug_eq found).symm⟩
  · cases known

end RequestTaxons

namespace PlannedRequest

variable {r : PlannedRequest} {p : SourceRequest} {taxons : NameSet} {slug : String}

theorem mem_partTaxons_of_matched (h : r.partTaxons p = .ok taxons)
    (hs : slug ∈ r.plan.comparisonRaw) : slug ∈ taxons := by
  obtain ⟨dataSource, _, h⟩ := Result.bind_eq_ok.1 h
  obtain ⟨asked, _, h⟩ := Result.bind_eq_ok.1 h
  obtain ⟨grouped, _, h⟩ := Result.bind_eq_ok.1 h
  obtain ⟨filtered, _, h⟩ := Result.bind_eq_ok.1 h
  cases h
  simp only [SortedSet.mem_cup, SortedSet.mem_ofList]
  exact .inl (.inl (.inr hs))

/-- A part selects what its comparable metrics read. -/
theorem mem_partTaxons_of_compares (listed : r.taxons.IsListed) (h : r.partTaxons p = .ok taxons)
    (hs : r.Compares p slug) : slug ∈ taxons := by
  obtain ⟨named, dataSource, raw, hnamed, hdataSource, hraw, hs⟩ := hs
  obtain ⟨dataSource', hdataSource', h⟩ := Result.bind_eq_ok.1 h
  cases hdataSource.symm.trans hdataSource'
  obtain ⟨asked, hasked, h⟩ := Result.bind_eq_ok.1 h
  obtain ⟨grouped, _, h⟩ := Result.bind_eq_ok.1 h
  obtain ⟨filtered, _, h⟩ := Result.bind_eq_ok.1 h
  cases h
  have own : slug ∈ asked := by
    refine RequestTaxons.rawSlugs_mono (fun s hs => ?_) hraw hasked slug hs
    obtain ⟨t, ht, rfl⟩ := List.mem_map.1 (SortedSet.mem_ofList.1 hs)
    obtain ⟨a, ha, e⟩ := RequestTaxons.slug_of_mem_named listed hnamed (List.mem_filter.1 ht).1
    rw [← e, Slug.withoutQuotes_eq (Slug.isUnquoted_withoutQuotes a)]
    exact SortedSet.mem_ofList.2 (List.mem_map.2 ⟨a,
      SortedSet.mem_ofList.2 (List.mem_append_left _ ha), rfl⟩)
  simp only [SortedSet.mem_cup]
  exact .inl (.inl (.inl own))

end PlannedRequest

/-! ## Listed columns -/

theorem Slug.isComparison_comparison (slug : String) : isComparison (comparison slug) = true := by
  unfold isComparison comparison after?
  rw [String.toList_append, if_pos (List.isPrefixOf_iff_prefix.2 (List.prefix_append _ _))]
  rfl

namespace Dataframe

/-- Whether each column is listed under its taxon, and the query offers it. -/
def ListsColumns (df : Dataframe) : Prop :=
  ∀ slug c, (slug, c) ∈ df.columns.toList → c.taxon = slug ∧ c.name ∈ df.names

variable {df df' : Dataframe}

theorem IsNamed.listsColumns (named : df.IsNamed)
    (offered : ∀ name ∈ df.taxonNames, name ∈ df.names) : df.ListsColumns := by
  intro slug c hc
  refine ⟨(named slug c hc).2, offered c.name ?_⟩
  exact List.mem_map_of_mem (SortedMap.mem_values.2 ⟨slug, hc⟩)

theorem ListsColumns.offered (h : df.ListsColumns) : ∀ name ∈ df.taxonNames, name ∈ df.names := by
  intro name hn
  obtain ⟨c, hc, rfl⟩ := List.mem_map.1 hn
  obtain ⟨slug, hc⟩ := SortedMap.mem_values.1 hc
  exact (h slug c hc).2

theorem IsSourceOf.listsColumns {labels : NameSet} (h : df.IsSourceOf labels) :
    df.ListsColumns := by
  refine h.named.listsColumns fun name hn => ?_
  obtain ⟨own, _, names⟩ := h.names
  exact names.mem_iff.2 (List.mem_append_left _ (List.mem_append_left _ hn))

theorem listsColumns_blend {taxons : TaxonMap} {templates : SourceTemplates}
    {dfs : List Dataframe} (h : blend taxons templates dfs = .ok df)
    (named : ∀ d ∈ dfs, d.IsNamed) : df.IsNamed ∧ df.ListsColumns := by
  obtain ⟨_, _, _, same⟩ := blend_eq_ok h
  have together : df.IsNamed := same ▸ isNamed_together named
  exact ⟨together, together.listsColumns (taxonNames_subset_blend h)⟩

section
variable {fs : List PreFormula} {tables : OverrideTables} {uses : OverrideUses}

theorem IsNamed.withFormulas (h : df.withFormulas fs tables uses = .ok df')
    (named : df.IsNamed) : df'.IsNamed := by
  unfold IsNamed
  rw [columns_withFormulas h]
  exact named

theorem ListsColumns.withFormulas (h : df.withFormulas fs tables uses = .ok df')
    (lists : df.ListsColumns) : df'.ListsColumns := by
  intro slug c hc
  have known : c ∈ df'.columns.values := SortedMap.mem_values.2 ⟨slug, hc⟩
  rw [columns_withFormulas h] at hc
  refine ⟨(lists slug c hc).1, taxonNames_subset_withFormulas h lists.offered c.name ?_⟩
  exact List.mem_map_of_mem known

theorem ListsColumns.groupedComparison {metrics : SortedMap String Taxon}
    (h : df.groupedComparison metrics fs = .ok df') (lists : df.ListsColumns) :
    df'.ListsColumns := by
  intro slug c hc
  rw [groupedComparison_eq_ok h] at hc
  refine ⟨(lists slug c hc).1, mem_names_groupedComparison h (.inl ?_)⟩
  exact List.mem_map_of_mem (SortedMap.mem_values.2 ⟨slug, hc⟩)

end

/-- Data with a comparison lists its columns if the comparison's dimensions are columns of the data:
these are selected from the data only. -/
theorem listsColumns_withComparison {data comparison : Dataframe} {plan : BlendPlan}
    (hd : data.IsNamed) (hc : comparison.IsNamed)
    (dimensions : ∀ slug ∈ comparison.columns.keys, Slug.isComparison slug = false →
      slug ∈ data.columns.keys) :
    (data.withComparison comparison plan).ListsColumns := by
  have named : (data.withComparison comparison plan).IsNamed := by
    refine isNamed_together fun df hdf => ?_
    simp only [List.mem_cons, List.not_mem_nil, or_false] at hdf
    rcases hdf with rfl | rfl
    · exact hd
    · exact hc
  have ofData (slug : String) (h : slug ∈ data.columns.keys) :
      Identifier.safe slug ∈ data.taxonNames := by
    obtain ⟨c, hc⟩ := SortedMap.mem_keys.1 h
    rw [← (hd slug c hc).1]
    exact List.mem_map_of_mem (SortedMap.mem_values.2 ⟨slug, hc⟩)
  intro slug c h
  refine ⟨(named slug c h).2, ((names_withComparison plan).2 c.name).2 ?_⟩
  rw [(named slug c h).1]
  obtain ⟨df, hdf, own⟩ := mem_columns_together h
  simp only [List.mem_cons, List.not_mem_nil, or_false] at hdf
  refine List.mem_append_left _ (List.mem_append.2 ?_)
  rcases hdf with rfl | rfl
  · exact .inl (ofData slug (SortedMap.mem_keys.2 ⟨c, own⟩))
  · cases compares : Slug.isComparison slug with
    | false => exact .inl (ofData slug (dimensions slug (SortedMap.mem_keys.2 ⟨c, own⟩) compares))
    | true =>
      rw [← (hc slug c own).1]
      refine .inr (List.mem_map_of_mem (SortedMap.mem_values.2 ⟨slug, ?_⟩))
      exact List.mem_filter.2 ⟨own, compares⟩

theorem listsColumns_withMetrics {plan : BlendPlan} {r : BlendRequest}
    (h : df.withMetrics plan r = .ok df') : df'.ListsColumns := by
  intro slug c hc
  rw [(withMetrics_eq_ok h).2] at hc
  obtain ⟨⟨slug, b⟩, hb, e⟩ := List.mem_map.1 hc
  cases e
  refine ⟨slug_distinctResults hb, (names_withMetrics h).mem_iff.2 ?_⟩
  exact List.mem_map_of_mem (f := fun b : Taxon × _ => b.1.columnName)
    (SortedMap.mem_values.2 ⟨slug, hb⟩)

theorem listsColumns_project {taxons : TaxonMap} {r : BlendRequest}
    (h : df.project taxons r = .ok df') : df'.ListsColumns := by
  obtain ⟨order, _, h⟩ := Result.bind_eq_ok.1 h
  obtain ⟨items, hitems, h⟩ := Result.bind_eq_ok.1 h
  cases h
  intro slug c hc
  obtain ⟨t, ht, e⟩ := List.mem_map.1 (SortedMap.mem_of_mem_ofList hc)
  cases e
  refine ⟨rfl, (Query.outputNames_ofItems rfl rfl).mem_iff.2 ?_⟩
  obtain ⟨i, hi, step⟩ := Result.mapM_mem_ok hitems ht
  refine List.mem_filterMap.2 ⟨i, hi, ?_⟩
  unfold answerItem at step
  split at step
  · cases step
  · cases step
    rfl

end Dataframe

namespace PlannedRequest

variable {r : PlannedRequest} {models : List Model} {tables : OverrideTables}

namespace ComparisonStages

/-- Whether the dataframes of a comparison list their columns. -/
structure ListColumns (k : r.ComparisonStages models tables) : Prop where
  sources : ∀ d ∈ k.sources, d.ListsColumns
  blended : k.blended.ListsColumns
  compared : k.compared.ListsColumns
  /-- The comparison with its formulas, before it is grouped. -/
  computed : ∀ df, k.compared.withFormulas r.plan.comparisonFormulas tables
    r.plan.comparisonOverrides = .ok df → df.ListsColumns
  rows : k.rows.ListsColumns

variable (k : r.ComparisonStages models tables)

theorem columns_rows : k.rows.columns = k.compared.columns := by
  rcases k.rows_eq with ⟨_, e⟩ | ⟨_, computed, hcomputed, hrows⟩
  · rw [e]
  · have grouped : k.rows.columns = computed.columns :=
      congrArg (·.columns) (Dataframe.groupedComparison_eq_ok hrows)
    rw [grouped, Dataframe.columns_withFormulas hcomputed]

theorem listsColumns_compared : k.compared.ListsColumns := by
  intro slug c hc
  refine ⟨?_, Dataframe.mem_names_compared (SortedMap.mem_values.2 ⟨slug, hc⟩)⟩
  obtain ⟨b, _, e⟩ := List.mem_map.1 (SortedMap.mem_of_mem_ofList hc)
  cases e
  rfl

theorem listsColumns : k.ListColumns := by
  have compared := k.listsColumns_compared
  refine ⟨fun d hd => (k.isSourceOf d hd).listsColumns, ?_, compared,
    fun df h => compared.withFormulas h, ?_⟩
  · exact (Dataframe.listsColumns_blend k.blended_eq fun d hd => (k.isSourceOf d hd).named).2
  · rcases k.rows_eq with ⟨_, e⟩ | ⟨_, computed, hcomputed, hrows⟩
    · rw [e]
      exact compared
    · exact (compared.withFormulas hcomputed).groupedComparison hrows

section
variable (listed : r.taxons.IsListed) (matched : r.plan.IsMatched r.toRequestTaxons)
include listed matched

theorem isNamed_rows : k.rows.IsNamed := by
  intro slug c hc
  rw [k.columns_rows] at hc
  obtain ⟨b, hb, e⟩ := List.mem_map.1 (SortedMap.mem_of_mem_ofList hc)
  cases e
  exact ⟨k.name_comparedColumn listed matched hb, rfl⟩

/-- The dimensions of a comparison are what it is matched on and what its metrics read. -/
theorem mem_keys_rows {slug : String} (h : slug ∈ k.rows.columns.keys)
    (dimension : Slug.isComparison slug = false) :
    r.HasRaw slug ∧ (slug ∈ r.plan.comparisonRaw ∨ ∃ p ∈ r.request.parts, r.Compares p slug) := by
  rw [k.columns_rows] at h
  obtain ⟨c, hc⟩ := SortedMap.mem_keys.1 h
  obtain ⟨⟨t, c'⟩, hb, e⟩ := List.mem_map.1 (SortedMap.mem_of_mem_ofList hc)
  cases e
  unfold Dataframe.comparedColumn at dimension ⊢
  split at dimension
  · rename_i isDimension
    rw [if_pos isDimension]
    obtain ⟨compared, taxon, _⟩ := k.isCompared_of_mem listed matched hb
    rw [taxon]
    have known := (k.mem_keys_blended listed matched).2 compared.2
    exact ⟨k.hasRaw_of_mem_blended listed matched known, compared.2⟩
  · rw [Slug.isComparison_comparison] at dimension
    cases dimension

end

end ComparisonStages

namespace Stages

variable {c : Catalog} {maxMappings : Nat}

/-- Whether the dataframes on the way to an answer list their columns, those of a comparison that is
not joined included. -/
structure ListColumns (st : r.Stages c maxMappings) : Prop where
  sources : ∀ d ∈ st.sources, d.ListsColumns
  blended : st.blended.ListsColumns
  data : st.data.ListsColumns
  comparison : ∀ df, r.comparison? st.tables c.models r.allowedSources = .ok (some df) →
    ∃ k : r.ComparisonStages c.models st.tables, k.rows = df ∧ k.ListColumns
  rows : st.rows.ListsColumns
  results : st.results.ListsColumns

variable (st : r.Stages c maxMappings)

theorem isNamed_data : st.data.IsNamed :=
  (Dataframe.listsColumns_blend st.blended_eq fun d hd => (st.isSourceOf d hd).named).1.withFormulas
    st.data_eq

/-- The data has a column for each raw taxon that some part selects. -/
theorem mem_keys_data (listed : r.taxons.IsListed) {p : SourceRequest} (hp : p ∈ r.request.parts)
    {slug : String} (selects : ∀ taxons, r.partTaxons p = .ok taxons → slug ∈ taxons)
    (raw : r.HasRaw slug) : slug ∈ st.data.columns.keys := by
  obtain ⟨df, hdf, h⟩ := Result.mapM_mem_ok st.sources_eq hp
  obtain ⟨s, hs, h⟩ := Result.bind_eq_ok.1 h
  obtain ⟨taxons, htaxons, hs⟩ := Result.bind_eq_ok.1 hs
  obtain ⟨dataSource, _, hs⟩ := Result.bind_eq_ok.1 hs
  cases hs
  have source : slug ∈ df.columns.keys :=
    (SourceRows.mem_keys_dataframe listed h).2 ⟨.inl (selects taxons htaxons), raw.raw⟩
  obtain ⟨_, _, _, same⟩ := Dataframe.blend_eq_ok st.blended_eq
  rw [Dataframe.columns_withFormulas st.data_eq, same]
  exact Dataframe.mem_keys_together.2 ⟨df, hdf, source⟩

theorem listsColumns_rows (listed : r.taxons.IsListed)
    (matched : r.plan.IsMatched r.toRequestTaxons) : st.rows.ListsColumns := by
  have blended := Dataframe.listsColumns_blend st.blended_eq fun d hd => (st.isSourceOf d hd).named
  rw [st.rows_eq]
  cases hk : st.comparison? with
  | none => exact blended.2.withFormulas st.data_eq
  | some k =>
    refine Dataframe.listsColumns_withComparison st.isNamed_data (k.isNamed_rows listed matched)
      fun slug hs dimension => ?_
    obtain ⟨raw, reads⟩ := k.mem_keys_rows listed matched hs dimension
    rcases reads with hs | ⟨p, hp, hs⟩
    · obtain ⟨_, nonempty, _⟩ := Dataframe.blend_eq_ok st.blended_eq
      obtain ⟨d, hd⟩ := List.exists_mem_of_ne_nil _ nonempty
      obtain ⟨p, hp, _⟩ := Result.mapM_ok_mem st.sources_eq hd
      exact st.mem_keys_data listed hp (fun _ h => mem_partTaxons_of_matched h hs) raw
    · exact st.mem_keys_data listed hp (fun _ h => mem_partTaxons_of_compares listed h hs) raw

theorem listsColumns (listed : r.taxons.IsListed) (matched : r.plan.IsMatched r.toRequestTaxons) :
    st.ListColumns := by
  have blended := Dataframe.listsColumns_blend st.blended_eq fun d hd => (st.isSourceOf d hd).named
  refine ⟨fun d hd => (st.isSourceOf d hd).listsColumns, blended.2,
    blended.2.withFormulas st.data_eq, fun df h => ?_, st.listsColumns_rows listed matched,
    Dataframe.listsColumns_withMetrics st.results_eq⟩
  obtain ⟨k, hk⟩ := comparison?_eq_ok h
  exact ⟨k, hk, k.listsColumns⟩

end Stages

end PlannedRequest

end SemanticLayer
