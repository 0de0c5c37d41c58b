import Mathlib.Data.List.Induction
import SemanticLayer.Blend.BlendedRows
import SemanticLayer.Proofs.Blend.Scoping
import SemanticLayer.Proofs.Result

/-!
# Scoping of blended rows

What the rows of one data source offer to the rows that blend them, and what those offer.

* `SourceRows.names_dataframe`: the rows of a data source offer their taxons, the labels of their
  templates and the data source;
* `SourceRows.isSourceOf`: they can be blended by the templates they were planned with;
* `Dataframe.names_blend`: blended rows offer their taxons and the labels of all templates;
* `Dataframe.blend_isScoped_iff`: when their columns are in scope.
-/

namespace SemanticLayer

open Sql (Expr Query SelectItem RowScope)

/-! ## Rows of a data source -/

namespace SourceRows

theorem entry_rawTaxons {s : SourceRows} {slugs : List String} {ts : TaxonMap}
    (h : s.rawTaxons slugs = .ok ts) {slug : String} {t : Taxon} (ht : (slug, t) ∈ ts.toList) :
    t.slug = slug := by
  obtain ⟨found, _, h⟩ := Result.bind_eq_ok.1 h
  cases h
  obtain ⟨t', _, e⟩ := List.mem_map.1 (SortedMap.mem_of_mem_ofList ht)
  cases e
  rfl

variable {selected : TaxonMap} (hs : ∀ slug t, (slug, t) ∈ selected.toList → t.slug = slug)

include hs

/-- The columns of selected taxons stand under their slugs. -/
theorem toList_dataframeColumns (columns : TaxonColumns) :
    (dataframeColumns selected columns).toList = selected.values.map fun t =>
      (t.slug, ⟨t.columnName, t.slug, ((columns.get? t.slug).map (·.quantity)).getD .scalar⟩) := by
  refine SortedMap.toList_ofList ?_
  have slugs : selected.values.map (·.slug) = selected.keys := by
    unfold SortedMap.values SortedMap.keys
    rw [List.map_map]
    exact List.map_congr_left fun e he => hs e.1 e.2 he
  have increasing : (selected.values.map (·.slug)).Pairwise fun a b => compare a b = .lt := by
    rw [slugs]
    exact List.pairwise_map.2 selected.increasing
  exact List.pairwise_map.2 (List.pairwise_map.1 increasing)

end SourceRows

namespace SourceRows

variable {s : SourceRows} {models : List Model} {df : Dataframe}

theorem outputName?_aggregatedItem (t : Taxon) :
    (aggregatedItem t).outputName? = some t.columnName := by
  unfold aggregatedItem
  split
  · rfl
  · rfl

theorem outputNames_aggregated (dataSource : String) (selected : TaxonMap) (rows : Query) :
    (s.aggregated dataSource selected rows).outputNames.Perm
      (selected.values.map (·.columnName) ++ s.templates.map (·.label) ++
        [Slug.dataSourceColumn]) := by
  refine (Query.outputNames_ofItems rfl rfl).trans (.of_eq ?_)
  have taxons : (selected.values.map aggregatedItem).filterMap SelectItem.outputName? =
      selected.values.map (·.columnName) := by
    rw [List.filterMap_map, ← List.filterMap_eq_map]
    exact List.filterMap_congr fun t _ => outputName?_aggregatedItem t
  have templates : (s.templates.map fun t => SelectItem.ofColumn t.label).filterMap
      SelectItem.outputName? = s.templates.map (·.label) :=
    Query.filterMap_outputName?_named ..
  rw [List.filterMap_append, List.filterMap_append, taxons, templates]
  rfl

theorem dataframe_eq_ok (h : s.dataframe models = .ok df) :
    ∃ dataSource selected columns rows, s.selected = .ok selected ∧
      df.query = s.aggregated dataSource selected rows ∧
      df.columns = dataframeColumns selected columns := by
  obtain ⟨dataSource, _, h⟩ := Result.bind_eq_ok.1 h
  obtain ⟨selected, hselected, h⟩ := Result.bind_eq_ok.1 h
  obtain ⟨read, _, h⟩ := Result.bind_eq_ok.1 h
  obtain ⟨usable, _, h⟩ := Result.bind_eq_ok.1 h
  obtain ⟨g, _, h⟩ := Result.bind_eq_ok.1 h
  obtain ⟨tree, _, h⟩ := Result.bind_eq_ok.1 h
  obtain ⟨columns, _, h⟩ := Result.bind_eq_ok.1 h
  dsimp only at h
  split at h
  · obtain ⟨rows, _, h⟩ := Result.bind_eq_ok.1 h
    obtain ⟨kept, _, h⟩ := Result.bind_eq_ok.1 h
    cases h
    exact ⟨dataSource, selected, _, kept, hselected, rfl, rfl⟩
  · obtain ⟨rows, _, h⟩ := Result.bind_eq_ok.1 h
    obtain ⟨kept, _, h⟩ := Result.bind_eq_ok.1 h
    cases h
    exact ⟨dataSource, selected, _, kept, hselected, rfl, rfl⟩

theorem isNamed_dataframe (h : s.dataframe models = .ok df) : df.IsNamed := by
  obtain ⟨_, selected, columns, _, hselected, _, hcolumns⟩ := dataframe_eq_ok h
  intro slug c hc
  rw [hcolumns, toList_dataframeColumns fun _ _ => entry_rawTaxons hselected] at hc
  obtain ⟨t, _, e⟩ := List.mem_map.1 hc
  cases e
  exact ⟨rfl, rfl⟩

/-- The rows of a data source offer its taxons, the labels of its templates, and its name. -/
theorem names_dataframe (h : s.dataframe models = .ok df) :
    df.names.Perm (df.taxonNames ++ s.templates.map (·.label) ++ [Slug.dataSourceColumn]) := by
  obtain ⟨dataSource, selected, columns, rows, hselected, hquery, hcolumns⟩ := dataframe_eq_ok h
  have taxons : df.taxonNames = selected.values.map (·.columnName) := by
    unfold Dataframe.taxonNames
    rw [hcolumns, SortedMap.values,
      toList_dataframeColumns fun _ _ => entry_rawTaxons hselected, List.map_map, List.map_map]
    rfl
  rw [taxons, Dataframe.names, hquery]
  exact outputNames_aggregated dataSource selected rows

theorem isScoped_dataframe (h : s.dataframe models = .ok df) : df.query.IsScoped := by
  obtain ⟨dataSource, selected, _, rows, _, hquery, _⟩ := dataframe_eq_ok h
  rw [hquery]
  exact .leave rfl

end SourceRows

namespace Dataframe

/-- A dataframe of one data source, with labels among those of some templates. -/
structure IsSourceOf (df : Dataframe) (labels : NameSet) : Prop where
  named : df.IsNamed
  names : ∃ own : List String, (∀ label ∈ own, label ∈ labels) ∧
    df.names.Perm (df.taxonNames ++ own ++ [Slug.dataSourceColumn])
  inScope : df.query.IsScoped

end Dataframe

theorem SourceTemplates.mem_labels {ts : SourceTemplates} {dataSource : String}
    {t : Formula.SourceTemplate} (h : t ∈ (ts.get? dataSource).getD []) : t.label ∈ ts.labels := by
  cases found : ts.get? dataSource with
  | none =>
    rw [found] at h
    cases h
  | some own =>
    rw [found] at h
    have known : own ∈ ts.values :=
      SortedMap.mem_values.2 ⟨dataSource, SortedMap.mem_of_get? found⟩
    exact SortedSet.mem_ofList.2 (List.mem_map_of_mem (List.mem_flatten.2 ⟨own, known, h⟩))

/-- The rows of a data source are part of what is blended, if their templates are. -/
theorem SourceRows.isSourceOf {s : SourceRows} {models : List Model} {df : Dataframe}
    {templates : SourceTemplates} {dataSource : String}
    (ht : s.templates = (templates.get? dataSource).getD []) (h : s.dataframe models = .ok df) :
    df.IsSourceOf templates.labels where
  named := isNamed_dataframe h
  names := by
    refine ⟨s.templates.map (·.label), ?_, names_dataframe h⟩
    rw [List.forall_mem_map]
    intro t hm
    exact SourceTemplates.mem_labels (ht ▸ hm)
  inScope := isScoped_dataframe h

/-! ## Blended rows -/

namespace Dataframe

variable {df df' : Dataframe} {dfs : List Dataframe}

theorem mem_columns_together {query : Query} {slug : String} {c : DataframeColumn}
    (h : (slug, c) ∈ (together dfs query).columns.toList) :
    ∃ df ∈ dfs, (slug, c) ∈ df.columns.toList := by
  unfold together at h
  dsimp only at h
  induction dfs using List.reverseRecOn with
  | nil => cases h
  | append_singleton dfs df ih =>
    rw [List.foldl_append, List.foldl_cons, List.foldl_nil] at h
    rcases SortedMap.mem_toList_merge h with h | h
    · exact ⟨df, List.mem_append_right _ (List.mem_singleton_self _), h⟩
    · obtain ⟨df', hdf', h⟩ := ih h
      exact ⟨df', List.mem_append_left _ hdf', h⟩

theorem mem_keys_together {query : Query} {slug : String} :
    slug ∈ (together dfs query).columns.keys ↔ ∃ df ∈ dfs, slug ∈ df.columns.keys := by
  unfold together
  dsimp only
  induction dfs using List.reverseRecOn with
  | nil => simp [SortedMap.keys, SortedMap.empty]
  | append_singleton dfs df ih =>
    rw [List.foldl_append, List.foldl_cons, List.foldl_nil, SortedMap.mem_keys_merge, ih]
    constructor
    · rintro (h | ⟨df', hdf', h⟩)
      · exact ⟨df, List.mem_append_right _ (List.mem_singleton_self _), h⟩
      · exact ⟨df', List.mem_append_left _ hdf', h⟩
    · rintro ⟨df', hdf', h⟩
      rcases List.mem_append.1 hdf' with hdf' | hdf'
      · exact .inr ⟨df', hdf', h⟩
      · cases List.mem_singleton.1 hdf'
        exact .inl h

theorem isNamed_together {query : Query} (h : ∀ df ∈ dfs, df.IsNamed) :
    (together dfs query).IsNamed := by
  intro slug c hc
  obtain ⟨df, hdf, hc⟩ := mem_columns_together hc
  exact h df hdf slug c hc

theorem outputNames_branch (columns : SortedMap String DataframeColumn) (labels : NameSet)
    (df : Dataframe) (index : Nat) :
    (df.branch columns labels index).outputNames.Perm
      (columns.values.map (·.name) ++ labels.toList) := by
  refine (Query.outputNames_ofItems rfl rfl).trans (.of_eq ?_)
  rw [List.filterMap_append]
  congr 1
  · rw [SortedMap.values, List.map_map]
    exact Query.filterMap_outputName?_named columns.toList _ fun e => e.2.name
  · exact (Query.filterMap_outputName?_named labels.toList _ id).trans (List.map_id _)

theorem snd_blendedTaxons {taxons : TaxonMap} {columns : SortedMap String DataframeColumn}
    {blended : List (Taxon × DataframeColumn)} (h : blendedTaxons taxons columns = .ok blended) :
    blended.map (·.2) = columns.values := by
  have each := Result.mapM_eq_ok.1 h
  clear h
  unfold SortedMap.values
  generalize columns.toList = entries at each
  induction each with
  | nil => rfl
  | cons found _ ih =>
    rename_i e _ _ _
    dsimp only at found
    split at found
    · cases found
      rw [List.map_cons, List.map_cons, ih]
    · cases found

/-- The query over all branches. -/
def blendedQuery (templates : SourceTemplates) (dfs : List Dataframe)
    (blended : List (Taxon × DataframeColumn)) : Query :=
  ((Query.ofItems (blended.map (fun (t, c) => blendedItem t c) ++
    templates.labels.toList.map SelectItem.ofColumn)).fromTable
      (.subquery (.unionAll (dfs.zipIdx.map fun (df, i) =>
        df.branch (together dfs .empty).columns templates.labels i)) "blended")).groupBy
        (((blended.filter (·.1.isDimension)).map (·.2.name) ++ templates.labels.toList).map
          Expr.col)

section
variable {taxons : TaxonMap} {templates : SourceTemplates}

theorem blend_eq_ok (h : blend taxons templates dfs = .ok df) :
    ∃ blended, dfs ≠ [] ∧ blended.map (·.2) = df.columns.values ∧
      df = together dfs (blendedQuery templates dfs blended) := by
  unfold blend at h
  split at h
  · cases h
  rename_i nonempty
  obtain ⟨blended, hblended, h⟩ := Result.bind_eq_ok.1 h
  cases h
  refine ⟨blended, ?_, snd_blendedTaxons hblended, rfl⟩
  rintro rfl
  exact nonempty rfl

theorem exists_blendedTaxons (h : blend taxons templates dfs = .ok df) :
    ∃ blended, blendedTaxons taxons df.columns = .ok blended ∧
      df.query = blendedQuery templates dfs blended := by
  unfold blend at h
  split at h
  · cases h
  obtain ⟨blended, hblended, h⟩ := Result.bind_eq_ok.1 h
  cases h
  exact ⟨blended, hblended, rfl⟩

/-- Blended rows offer the columns of all taxons and the labels of all templates. -/
theorem names_blend (h : blend taxons templates dfs = .ok df) :
    df.names.Perm (df.taxonNames ++ templates.labels.toList) := by
  obtain ⟨blended, _, columns, rfl⟩ := blend_eq_ok h
  refine (Query.outputNames_ofItems rfl rfl).trans (.of_eq ?_)
  rw [List.filterMap_append, Query.filterMap_outputName?_ofColumn, taxonNames, ← columns,
    List.filterMap_map, List.map_map, ← List.filterMap_eq_map]
  congr 1
  refine List.filterMap_congr ?_
  rintro ⟨t, c⟩ _
  unfold Function.comp blendedItem
  dsimp only
  split
  · rfl
  · rfl

end

theorem branch_isScoped_iff {columns : SortedMap String DataframeColumn} {labels : NameSet}
    {index : Nat} :
    (df.branch columns labels index).IsScoped ↔
      ((∀ e ∈ columns.toList, e.1 ∈ df.columns.keys → df.names.count e.2.name = 1) ∧
        ∀ label ∈ labels.toList, label ∈ df.names → df.names.count label = 1) ∧
      df.query.IsScoped := by
  have other : "q" ++ toString index ≠ Query.sourceTable := by
    intro h
    have first := congrArg String.toList h
    rw [String.toList_append] at first
    cases first
  have column (taken : Prop) [Decidable taken] (name : String) :
      (RowScope.of ("q" ++ toString index) df.names).Fits (if taken then .col name else .null) ↔
        (taken → df.names.count name = 1) := by
    split
    · rename_i h
      exact RowScope.fits_col.trans ⟨fun once _ => once, fun once => once h⟩
    · rename_i h
      exact iff_of_true RowScope.fits_null fun taken => absurd taken h
  refine (Query.isScoped_selection other).trans (and_congr_left fun _ => ?_)
  rw [List.forall_mem_append, List.forall_mem_map, List.forall_mem_map]
  refine (and_iff_left fun e he => ?_).trans (and_congr ?_ ?_)
  · cases he
  · refine forall_congr' fun e => imp_congr_right fun _ => ?_
    refine (column _ _).trans (imp_congr_left ?_)
    exact SortedMap.contains_iff
  · exact forall_congr' fun label => imp_congr_right fun _ => column _ _

/-- The branch of a data source is in scope exactly if no two of its columns have one name. -/
theorem IsSourceOf.branch_isScoped_iff {dfs : List Dataframe} {labels : NameSet}
    {query : Query} (hdfs : ∀ d ∈ dfs, d.IsNamed) (hdf : df ∈ dfs) (h : df.IsSourceOf labels)
    {index : Nat} :
    (df.branch (together dfs query).columns labels index).IsScoped ↔ df.names.Nodup := by
  rw [Dataframe.branch_isScoped_iff, and_iff_left h.inScope]
  obtain ⟨own, howns, names⟩ := h.names
  constructor
  · rintro ⟨taxons, templates⟩
    have once : ∀ n ∈ df.taxonNames ++ own, df.names.count n = 1 := by
      intro n hn
      rcases List.mem_append.1 hn with hn | hn
      · obtain ⟨c, hc, rfl⟩ := List.mem_map.1 hn
        obtain ⟨slug, hc⟩ := SortedMap.mem_values.1 hc
        have known := SortedMap.mem_keys.2 ⟨c, hc⟩
        have shared : slug ∈ (together dfs query).columns.keys :=
          mem_keys_together.2 ⟨df, hdf, known⟩
        obtain ⟨c', hc'⟩ := SortedMap.mem_keys.1 shared
        have same : c'.name = c.name :=
          (isNamed_together hdfs slug c' hc').1.trans (h.named slug c hc).1.symm
        rw [← same]
        exact taxons _ hc' known
      · refine templates n (howns n hn) (names.mem_iff.2 ?_)
        exact List.mem_append_left _ (List.mem_append_right _ hn)
    refine names.nodup_iff.2 (List.nodup_iff_count_le_one.2 ?_)
    intro n
    by_cases hn : n ∈ df.taxonNames ++ own
    · exact Nat.le_of_eq ((names.count_eq n).symm.trans (once n hn))
    · rw [List.count_append, List.count_eq_zero_of_not_mem hn, Nat.zero_add]
      exact List.nodup_iff_count_le_one.1 (List.nodup_singleton _) n
  · intro nodup
    have once := List.nodup_iff_count_eq_one.1 nodup
    constructor
    · rintro ⟨slug, c'⟩ hc' known
      obtain ⟨c, hc⟩ := SortedMap.mem_keys.1 known
      have same : c'.name = c.name :=
        (isNamed_together hdfs slug c' hc').1.trans (h.named slug c hc).1.symm
      refine once _ (names.mem_iff.2 (List.mem_append_left _ (List.mem_append_left _ ?_)))
      rw [same]
      exact List.mem_map_of_mem (SortedMap.mem_values.2 ⟨slug, hc⟩)
    · intro label _ hlabel
      exact once label hlabel

theorem fits_blendedItem {s : RowScope} (t : Taxon) (c : DataframeColumn) :
    s.Fits (blendedItem t c).expr ↔ s.names.count c.name = 1 := by
  unfold blendedItem
  split
  · exact RowScope.fits_col
  · exact RowScope.fits_sum.trans RowScope.fits_col

/-- The items that blend rows read each column of the branches. -/
theorem fits_blended_iff {table : String} {rows labels : List String}
    {blended : List (Taxon × DataframeColumn)}
    (offered : rows.Perm (blended.map (·.2.name) ++ labels)) :
    ((∀ i ∈ blended.map (fun (t, c) => blendedItem t c) ++ labels.map SelectItem.ofColumn,
        (RowScope.of table rows).Fits i.expr) ∧
      ∀ e ∈ ((blended.filter (·.1.isDimension)).map (·.2.name) ++ labels).map Expr.col,
        (RowScope.of table rows).Fits e) ↔ rows.Nodup := by
  rw [List.forall_mem_append, List.forall_mem_map, List.forall_mem_map, List.forall_mem_map,
    List.nodup_iff_count_eq_one]
  constructor
  · rintro ⟨⟨columns, templates⟩, _⟩ n hn
    rcases List.mem_append.1 (offered.mem_iff.1 hn) with hn | hn
    · obtain ⟨⟨t, c⟩, hb, rfl⟩ := List.mem_map.1 hn
      exact (fits_blendedItem t c).1 (columns (t, c) hb)
    · exact RowScope.fits_col.1 (templates n hn)
  · intro once
    refine ⟨⟨?_, ?_⟩, ?_⟩
    · rintro ⟨t, c⟩ hb
      refine (fits_blendedItem t c).2 (once c.name (offered.mem_iff.2 ?_))
      exact List.mem_append_left _ (List.mem_map_of_mem (f := fun b => b.2.name) hb)
    · intro label hlabel
      exact RowScope.fits_col.2 (once label (offered.mem_iff.2 (List.mem_append_right _ hlabel)))
    · intro n hn
      refine RowScope.fits_col.2 (once n (offered.mem_iff.2 ?_))
      rcases List.mem_append.1 hn with hn | hn
      · obtain ⟨b, hb, rfl⟩ := List.mem_map.1 hn
        exact List.mem_append_left _ (List.mem_map_of_mem (f := fun b => b.2.name)
          (List.mem_of_mem_filter hb))
      · exact List.mem_append_right _ hn

/-- Blended rows are in scope exactly if neither they nor the rows of any source have two columns
of one name. -/
theorem blend_isScoped_iff {taxons : TaxonMap} {templates : SourceTemplates}
    {dfs : List Dataframe} (h : blend taxons templates dfs = .ok df)
    (hdfs : ∀ d ∈ dfs, d.IsSourceOf templates.labels) :
    df.query.IsScoped ↔ df.names.Nodup ∧ ∀ d ∈ dfs, d.names.Nodup := by
  have names := names_blend h
  obtain ⟨blended, nonempty, columns, rfl⟩ := blend_eq_ok h
  have other : "blended" ≠ Query.sourceTable := by decide
  have below : (Query.unionAll (dfs.zipIdx.map fun (d, i) =>
      d.branch (together dfs .empty).columns templates.labels i)).IsScoped ↔
        ∀ d ∈ dfs, d.names.Nodup := by
    rw [Query.isScoped_unionAll, List.forall_mem_map]
    have branches (d : Dataframe) (hd : d ∈ dfs) (i : Nat) :
        (d.branch (together dfs .empty).columns templates.labels i).IsScoped ↔ d.names.Nodup :=
      (hdfs d hd).branch_isScoped_iff (fun d hd => (hdfs d hd).named) hd
    constructor
    · intro all d hd
      obtain ⟨i, hi⟩ := List.mem_iff_getElem?.1 hd
      have member : (d, i) ∈ dfs.zipIdx := List.mem_zipIdx_iff_getElem?.2 hi
      exact (branches d hd i).1 (all (d, i) member)
    · rintro all ⟨d, i⟩ hd
      have member := List.fst_mem_of_mem_zipIdx hd
      exact (branches d member i).2 (all d member)
  have offered : (Query.unionAll (dfs.zipIdx.map fun (d, i) =>
      d.branch (together dfs .empty).columns templates.labels i)).outputNames.Perm
        (blended.map (·.2.name) ++ templates.labels.toList) := by
    obtain ⟨d, rest, rfl⟩ := List.exists_cons_of_ne_nil nonempty
    rw [List.zipIdx_cons, List.map_cons, Query.outputNames_unionAll]
    refine (outputNames_branch ..).trans (.of_eq ?_)
    rw [show (together (d :: rest) .empty).columns.values = blended.map (·.2) from columns.symm,
      List.map_map]
    rfl
  rw [taxonNames, ← columns, List.map_map] at names
  refine (Query.isScoped_selection other).trans (and_congr ?_ below)
  exact (fits_blended_iff offered).trans (offered.nodup_iff.trans names.nodup_iff.symm)

end Dataframe

end SemanticLayer
