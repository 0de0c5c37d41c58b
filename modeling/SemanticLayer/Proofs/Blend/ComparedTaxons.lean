import SemanticLayer.Proofs.Blend.BlendedScoping
import SemanticLayer.Proofs.Taxonomy.Listing
import SemanticLayer.Blend.ComparedRows

/-!
# Taxons of a comparison

What the rows of a comparison are made of: the raw taxons behind the metrics that can be compared,
and the dimensions that the comparison is asked for.

* `RequestTaxons.HasRaw`: a raw taxon that a part can select, under the slug it is kept by;
* `BlendPlan.IsMatched`: a plan matches data and comparison on every column it adds for that;
* `PlannedRequest.Compares`: the raw taxons that a part's comparable metrics read;
* `PlannedRequest.mem_keys_comparisonSources`: the columns of a comparison's sources.
-/

namespace SemanticLayer

/-- Whether a slug stays the same without its quotes. -/
def Slug.IsUnquoted (slug : String) : Prop := '"' ∉ slug.toList

namespace Slug

theorem withoutQuotes_eq {slug : String} (h : IsUnquoted slug) : withoutQuotes slug = slug := by
  have same : (slug.toList.flatMap fun c => if c = '"' then ['*', '*'] else [c]) =
      slug.toList.flatMap fun c => [c] := by
    refine List.flatMap_congr fun c hc => if_neg ?_
    rintro rfl
    exact h hc
  rw [withoutQuotes, same, List.flatMap_singleton', String.ofList_toList]

theorem isUnquoted_withoutQuotes (slug : String) : IsUnquoted (withoutQuotes slug) := by
  intro quote
  rw [withoutQuotes, String.toList_ofList] at quote
  obtain ⟨c, _, hc⟩ := List.mem_flatMap.1 quote
  split at hc
  · simp at hc
  · rename_i other
    exact other (List.mem_singleton.1 hc).symm

end Slug

namespace RequestTaxons

variable {ts : RequestTaxons} {slug : String}

theorem isListed_load {taxonomy : TaxonMap} {useFallback : Bool} {r : BlendRequest}
    (listed : taxonomy.IsListed) (h : load taxonomy useFallback r = .ok ts) :
    ts.taxons.IsListed := by
  unfold load at h
  obtain ⟨dataSources, _, h⟩ := Result.bind_eq_ok.1 h
  obtain ⟨askedOf, _, h⟩ := Result.bind_eq_ok.1 h
  obtain ⟨company, _, h⟩ := Result.bind_eq_ok.1 h
  have start : Resolver.IsListed ⟨taxonomy, some dataSources, true, .empty⟩ := ⟨listed, .empty⟩
  have resolved := Resolver.ensures_resolveRequest company r.slugs.toList _ start
  dsimp only at h
  generalize (Resolver.resolveRequest company r.slugs.toList).run _ = answer at h resolved
  obtain ⟨found, hfound, h⟩ := Result.bind_eq_ok.1 h
  obtain ⟨taxons, completed, h⟩ := Result.bind_eq_ok.1 h
  obtain ⟨_, _, h⟩ := Result.bind_eq_ok.1 h
  cases h
  exact Resolver.isListed_completeFacts (resolved.2 found hfound) completed

/-- A raw taxon that a part can select. -/
structure HasRaw (ts : RequestTaxons) (slug : String) : Prop where
  unquoted : Slug.IsUnquoted slug
  raw : ∃ t, ts.taxons.get? slug = some t ∧ t.isComputed = false

theorem isUnquoted_closure {rounds : Nat} {seen new reached : NameSet}
    (h : ts.closure rounds seen new = .ok reached) (hseen : ∀ s ∈ seen, Slug.IsUnquoted s)
    (hnew : ∀ s ∈ new, Slug.IsUnquoted s) : ∀ s ∈ reached, Slug.IsUnquoted s := by
  induction rounds generalizing seen new with
  | zero =>
    cases h
    exact hseen
  | succ rounds ih =>
    unfold closure at h
    split at h
    · cases h
      exact hseen
    obtain ⟨used, hused, h⟩ := Result.bind_eq_ok.1 h
    refine ih h (fun s hs => ?_) fun s hs => ?_
    · exact (SortedSet.mem_cup.1 hs).elim (hseen s) (hnew s)
    · obtain ⟨_, hall, hs⟩ := SortedSet.mem_unions.1 (SortedSet.mem_diff.1 hs).1
      obtain ⟨u, hu, rfl⟩ := List.mem_map.1 hall
      obtain ⟨c, _, read⟩ := Result.mapM_ok_mem hused hu
      exact Formula.usedSlugs_unquoted read s hs

theorem hasRaw_of_mem_rawSlugs (listed : ts.taxons.IsListed) {slugs raw : NameSet}
    {dataSource : String} (h : ts.rawSlugs slugs dataSource = .ok raw) (hs : slug ∈ raw) :
    ts.HasRaw slug := by
  obtain ⟨reached, hreached, h⟩ := Result.bind_eq_ok.1 h
  cases h
  obtain ⟨t, ht, rfl⟩ := List.mem_map.1 (SortedSet.mem_ofList.1 (SortedSet.mem_filter.1 hs).1)
  obtain ⟨ht, uncomputed⟩ := List.mem_filter.1 ht
  obtain ⟨s, hs, found⟩ := List.mem_filterMap.1 ht
  have unquoted := isUnquoted_closure hreached (fun _ hs => absurd hs (SortedSet.not_mem_empty _))
    (fun s hs => by
      obtain ⟨asked, _, rfl⟩ := List.mem_map.1 (SortedSet.mem_ofList.1 hs)
      exact Slug.isUnquoted_withoutQuotes asked)
  cases listed.slug_eq found
  exact ⟨unquoted _ hs, t, found, by simpa using uncomputed⟩

end RequestTaxons

/-! ## Columns to match on -/

namespace BlendPlan

variable {ts : RequestTaxons} {plan plan' : BlendPlan}

/-- Whether data and comparison are matched on the columns that the plan adds for the dimensions of
the comparison. -/
structure IsMatched (ts : RequestTaxons) (plan : BlendPlan) : Prop where
  raw : ∀ slug ∈ plan.comparisonRaw, ts.HasRaw slug
  columns : ∀ name, name ∈ plan.comparisonColumns ↔
    name ∈ plan.comparisonRaw.map Identifier.safe ∨ name ∈ plan.comparisonFormulas.map (·.label)

theorem IsMatched.of_same (h : plan.IsMatched ts) (raw : plan'.comparisonRaw = plan.comparisonRaw)
    (formulas : plan'.comparisonFormulas = plan.comparisonFormulas)
    (columns : plan'.comparisonColumns = plan.comparisonColumns) : plan'.IsMatched ts := by
  constructor
  · rw [raw]
    exact h.raw
  · rw [raw, formulas, columns]
    exact h.columns

theorem isMatched_addTaxon (h : plan.IsMatched ts) {t : Taxon}
    (added : addTaxon ts plan t = .ok plan') : plan'.IsMatched ts := by
  unfold addTaxon at added
  split at added
  · obtain ⟨o, _, added⟩ := Result.bind_eq_ok.1 added
    cases added
    exact h.of_same rfl rfl rfl
  · cases added
    exact h.of_same rfl rfl rfl

/-- A dimension of the comparison adds the columns to match on with what computes them. -/
theorem isMatched_addComparisonTaxon (listed : ts.taxons.IsListed) (h : plan.IsMatched ts)
    {slug : String} (added : addComparisonTaxon ts plan slug = .ok plan') : plan'.IsMatched ts := by
  unfold addComparisonTaxon at added
  split at added
  · cases added
  rename_i t found
  have own : t.slug = Slug.withoutQuotes slug := listed.slug_eq found
  split at added
  · obtain ⟨o, _, added⟩ := Result.bind_eq_ok.1 added
    cases added
    refine ⟨h.raw, fun name => ?_⟩
    rw [List.mem_append, h.columns, List.map_append, List.mem_append, or_assoc]
  · rename_i raw
    cases added
    refine ⟨List.forall_mem_append.2 ⟨h.raw, List.forall_mem_singleton.2 ⟨?_, t, ?_, ?_⟩⟩,
      fun name => ?_⟩
    · rw [own]
      exact Slug.isUnquoted_withoutQuotes slug
    · rw [own]
      exact found
    · exact Bool.eq_false_iff.2 raw
    · rw [List.mem_append, h.columns, List.map_append, List.mem_append, or_right_comm]
      rfl

theorem isMatched_addFilters (h : plan.IsMatched ts) {p : SourceRequest}
    (added : addFilters ts plan p = .ok plan') : plan'.IsMatched ts := by
  obtain ⟨_, _, added⟩ := Result.bind_eq_ok.1 added
  obtain ⟨_, _, added⟩ := Result.bind_eq_ok.1 added
  cases added
  exact h.of_same rfl rfl rfl

end BlendPlan

theorem RequestTaxons.plan_isMatched {ts : RequestTaxons} {plan : BlendPlan}
    (listed : ts.taxons.IsListed) (h : ts.plan = .ok plan) : plan.IsMatched ts := by
  obtain ⟨taxons, _, h⟩ := Result.bind_eq_ok.1 h
  obtain ⟨answered, ha, h⟩ := Result.bind_eq_ok.1 h
  obtain ⟨compared, hc, h⟩ := Result.bind_eq_ok.1 h
  have start : BlendPlan.empty.IsMatched ts :=
    ⟨fun _ hs => (nomatch hs), fun _ => (or_self_iff ..).symm⟩
  have answer := Result.foldlM_invariant (p := fun q => BlendPlan.IsMatched ts q) ha start
    fun _ _ _ _ added before => BlendPlan.isMatched_addTaxon before added
  have comparison := Result.foldlM_invariant (p := fun q => BlendPlan.IsMatched ts q) hc answer
    fun _ _ _ _ added before => BlendPlan.isMatched_addComparisonTaxon listed before added
  exact Result.foldlM_invariant (p := fun q => BlendPlan.IsMatched ts q) h comparison
    fun _ _ _ _ added before => BlendPlan.isMatched_addFilters before added

/-! ## What the sources of a comparison offer -/

namespace SourceRows

variable {s : SourceRows} {models : List Model} {df : Dataframe}

/-- The rows of a data source have a column for each raw taxon that is selected. -/
theorem mem_keys_dataframe (listed : s.taxons.IsListed) (h : s.dataframe models = .ok df)
    {slug : String} :
    slug ∈ df.columns.keys ↔ (slug ∈ s.part.taxons ∨ slug ∈ s.part.order.map (·.taxon)) ∧
      ∃ t, s.taxons.get? slug = some t ∧ t.isComputed = false := by
  obtain ⟨_, selected, columns, _, hselected, _, hcolumns⟩ := dataframe_eq_ok h
  have own : ∀ slug t, (slug, t) ∈ selected.toList → t.slug = slug :=
    fun _ _ => entry_rawTaxons hselected
  have keys : df.columns.keys = selected.keys := by
    unfold SortedMap.keys
    rw [hcolumns, toList_dataframeColumns own, List.map_map, SortedMap.values, List.map_map]
    exact List.map_congr_left fun e he => own e.1 e.2 he
  obtain ⟨found, hfound, e⟩ := Result.bind_eq_ok.1 hselected
  cases e
  rw [keys, Taxon.mapOf, SortedMap.mem_keys_ofList, List.map_map, ← List.mem_append]
  constructor
  · intro hs
    obtain ⟨t, ht, rfl⟩ := List.mem_map.1 hs
    obtain ⟨ht, uncomputed⟩ := List.mem_filter.1 ht
    obtain ⟨slug, hslug, known⟩ := Result.mapM_ok_mem hfound ht
    split at known
    · rename_i t' known'
      cases known
      cases listed.slug_eq known'
      exact ⟨hslug, t, known', by simpa using uncomputed⟩
    · cases known
  · rintro ⟨hs, t, known, uncomputed⟩
    obtain ⟨t', ht', known'⟩ := Result.mapM_mem_ok hfound hs
    rw [known] at known'
    cases known'
    refine List.mem_map.2 ⟨t, List.mem_filter.2 ⟨ht', by rw [uncomputed]; rfl⟩, ?_⟩
    exact listed.slug_eq known

end SourceRows

namespace PlannedRequest

variable {r : PlannedRequest} {slug : String}

/-- Whether the comparable metrics of a part read a raw taxon of its data source. -/
def Compares (r : PlannedRequest) (p : SourceRequest) (slug : String) : Prop :=
  ∃ named dataSource raw, r.named p.taxons = .ok named ∧ p.dataSource = .ok dataSource ∧
    r.rawSlugs (.ofList ((named.values.filter Taxon.canCompare).map (·.slug))) dataSource =
      .ok raw ∧ slug ∈ raw

theorem mem_comparisonPartTaxons {c : ComparisonRequest} {p : SourceRequest} {taxons : NameSet}
    (h : r.comparisonPartTaxons c p = .ok taxons) :
    slug ∈ taxons ↔ slug ∈ r.plan.comparisonRaw ∨ r.Compares p slug := by
  unfold comparisonPartTaxons at h
  dsimp only at h
  split at h
  · cases h
  obtain ⟨named, hnamed, h⟩ := Result.bind_eq_ok.1 h
  obtain ⟨dataSource, hdataSource, h⟩ := Result.bind_eq_ok.1 h
  obtain ⟨raw, hraw, h⟩ := Result.bind_eq_ok.1 h
  cases h
  refine (SortedSet.mem_union.trans (or_congr SortedSet.mem_ofList ?_))
  constructor
  · exact fun hs => ⟨named, dataSource, raw, hnamed, hdataSource, hraw, hs⟩
  · rintro ⟨named', dataSource', raw', hnamed', hdataSource', hraw', hs⟩
    cases hnamed.symm.trans hnamed'
    cases hdataSource.symm.trans hdataSource'
    cases hraw.symm.trans hraw'
    exact hs

variable {c : ComparisonRequest} {models : List Model} {physicalSources? : Option NameSet}

theorem mem_keys_comparisonRows (listed : r.taxons.IsListed) {p : SourceRequest}
    {taxons : NameSet} {s : SourceRows} (rows : r.comparisonRows p taxons physicalSources? = .ok s)
    {df : Dataframe} (h : s.dataframe models = .ok df) :
    slug ∈ df.columns.keys ↔
      slug ∈ taxons ∧ ∃ t, r.taxons.get? slug = some t ∧ t.isComputed = false := by
  obtain ⟨_, _, rows⟩ := Result.bind_eq_ok.1 rows
  obtain ⟨_, _, rows⟩ := Result.bind_eq_ok.1 rows
  cases rows
  refine (SourceRows.mem_keys_dataframe listed h).trans (and_congr_left' ?_)
  exact or_iff_left (by rintro ⟨⟩)

/-- Each source is that of a part. -/
theorem of_mem_comparisonSources {sources : List Dataframe}
    (h : r.comparisonSources c models physicalSources? = .ok sources) {df : Dataframe}
    (hdf : df ∈ sources) :
    ∃ p ∈ r.request.parts, ∃ taxons s, r.comparisonPartTaxons c p = .ok taxons ∧
      r.comparisonRows p taxons physicalSources? = .ok s ∧ s.dataframe models = .ok df := by
  obtain ⟨p, hp, h⟩ := Result.filterMapM_ok_mem h hdf
  obtain ⟨taxons, htaxons, h⟩ := Result.bind_eq_ok.1 h
  split at h
  · cases h
  obtain ⟨s, hs, h⟩ := Result.bind_eq_ok.1 h
  obtain ⟨df', hdf', h⟩ := Result.bind_eq_ok.1 h
  cases h
  exact ⟨p, hp, taxons, s, htaxons, hs, hdf'⟩

/-- Each part that has taxons to compare is a source. -/
theorem mem_comparisonSources {sources : List Dataframe}
    (h : r.comparisonSources c models physicalSources? = .ok sources) {p : SourceRequest}
    (hp : p ∈ r.request.parts) :
    ∃ taxons, r.comparisonPartTaxons c p = .ok taxons ∧ ∀ slug ∈ taxons,
      ∃ df ∈ sources, ∃ s, r.comparisonRows p taxons physicalSources? = .ok s ∧
        s.dataframe models = .ok df := by
  obtain ⟨df?, step, among⟩ := Result.filterMapM_mem_ok h hp
  obtain ⟨taxons, htaxons, step⟩ := Result.bind_eq_ok.1 step
  refine ⟨taxons, htaxons, fun slug hs => ?_⟩
  rw [if_neg fun none => SortedSet.isEmpty_iff.1 none slug hs] at step
  obtain ⟨s, hs, step⟩ := Result.bind_eq_ok.1 step
  obtain ⟨df, hdf, step⟩ := Result.bind_eq_ok.1 step
  cases step
  exact ⟨df, among df rfl, s, hs, hdf⟩

/-- The sources of a comparison have a column for each raw taxon that some part compares, or on
which data and comparison are matched. -/
theorem mem_keys_comparisonSources (listed : r.taxons.IsListed)
    (matched : r.plan.IsMatched r.toRequestTaxons) {sources : List Dataframe}
    (h : r.comparisonSources c models physicalSources? = .ok sources) (nonempty : sources ≠ []) :
    (∃ df ∈ sources, slug ∈ df.columns.keys) ↔
      slug ∈ r.plan.comparisonRaw ∨ ∃ p ∈ r.request.parts, r.Compares p slug := by
  constructor
  · rintro ⟨df, hdf, hs⟩
    obtain ⟨p, hp, taxons, s, htaxons, rows, hdf⟩ := of_mem_comparisonSources h hdf
    have selected := ((mem_keys_comparisonRows listed rows hdf).1 hs).1
    exact ((mem_comparisonPartTaxons htaxons).1 selected).imp_right fun hc => ⟨p, hp, hc⟩
  · intro hs
    have part (p : SourceRequest) (hp : p ∈ r.request.parts)
        (hs : slug ∈ r.plan.comparisonRaw ∨ r.Compares p slug) :
        ∃ df ∈ sources, slug ∈ df.columns.keys := by
      obtain ⟨taxons, htaxons, some⟩ := mem_comparisonSources h hp
      have selected : slug ∈ taxons := (mem_comparisonPartTaxons htaxons).2 hs
      obtain ⟨df, hdf, s, rows, hrows⟩ := some slug selected
      have raw : r.HasRaw slug := by
        rcases hs with hs | ⟨_, _, _, _, _, hraw, hs⟩
        · exact matched.raw slug hs
        · exact RequestTaxons.hasRaw_of_mem_rawSlugs listed hraw hs
      exact ⟨df, hdf, (mem_keys_comparisonRows listed rows hrows).2 ⟨selected, raw.raw⟩⟩
    rcases hs with hs | ⟨p, hp, hs⟩
    · obtain ⟨df, rest, rfl⟩ := List.exists_cons_of_ne_nil nonempty
      obtain ⟨p, hp, _⟩ := of_mem_comparisonSources h (List.mem_cons_self ..)
      exact part p hp (.inl hs)
    · exact part p hp (.inr hs)

end PlannedRequest

end SemanticLayer
