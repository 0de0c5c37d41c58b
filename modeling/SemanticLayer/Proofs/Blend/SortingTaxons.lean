import SemanticLayer.Blend.SourceRows
import SemanticLayer.Proofs.Taxonomy.AggregationReferences

/-!
# Taxons that sort windows

The rows of a data source read the taxons that are selected, those of templates, and those that
the aggregations of both name.  They do not read what the aggregations of the last name.

* `SourceRows.own`, `SourceRows.Sorts`: what is read for itself, and what only sorts that;
* `SourceRows.mem_keys_of_read`, `SourceRows.mem_keys_modelColumns`: the taxons that are read, and
  the columns of the rows;
* `sortingTaxons_kept_iff`: when a resolution and the rows of a data source have what the
  aggregations of their taxons name, and when windows find the columns that sort them.
-/

namespace SemanticLayer

namespace SourceRows

variable {s : SourceRows} {selected read : TaxonMap} {columns : TaxonColumns} {x : String}

/-! ## The taxons that are read -/

/-- The raw ones of the taxons that stand under some slugs. -/
def rawOf (s : SourceRows) (slugs : List String) : TaxonMap :=
  Taxon.mapOf ((slugs.filterMap s.taxons.get?).filter fun t => !t.isComputed)

theorem rawTaxons_eq_ok {slugs : List String} {ts : TaxonMap} (h : s.rawTaxons slugs = .ok ts) :
    ts = s.rawOf slugs := by
  obtain ⟨found, hfound, h⟩ := Result.bind_eq_ok.1 h
  cases h
  have each := Result.mapM_eq_ok.1 hfound
  clear hfound h
  unfold rawOf
  congr 2
  induction each with
  | nil => rfl
  | cons known _ ih =>
    split at known
    · rename_i there
      cases known
      rw [List.filterMap_cons_some there, ih]
    · cases known

/-- The taxon under one slug is raw, and has the other one. -/
def HasRaw (s : SourceRows) (slug x : String) : Prop :=
  ∃ t, s.taxons.get? slug = some t ∧ t.isComputed = false ∧ t.slug = x

theorem mem_keys_rawOf {slugs : List String} :
    x ∈ (s.rawOf slugs).keys ↔ ∃ slug ∈ slugs, s.HasRaw slug x := by
  unfold rawOf Taxon.mapOf
  rw [SortedMap.mem_keys_ofList, List.map_map, List.mem_map]
  simp only [List.mem_filter, List.mem_filterMap, Function.comp_apply, Bool.not_eq_true']
  constructor
  · rintro ⟨t, ⟨⟨slug, hslug, known⟩, raw⟩, e⟩
    exact ⟨slug, hslug, t, known, raw, e⟩
  · rintro ⟨slug, hslug, t, known, raw, e⟩
    exact ⟨t, ⟨⟨slug, hslug, known⟩, raw⟩, e⟩

/-- The slugs that templates read. -/
def templateSlugs (s : SourceRows) : NameSet :=
  .unions ((s.filterTemplates.values ++ s.templates).map (·.used))

/-- The taxons that are read for themselves. -/
def own (s : SourceRows) (selected : TaxonMap) : TaxonMap :=
  (s.rawOf s.templateSlugs.toList).merge selected

/-- The aggregation among the facts of a taxon that is read for itself names a raw taxon. -/
def Sorts (s : SourceRows) (selected : TaxonMap) (x : String) : Prop :=
  ∃ t ∈ (s.own selected).values, ∃ a, t.facts?.bind (·.aggregation?) = some a ∧
    ∃ slug ∈ a.usedSlugs, s.HasRaw slug x

theorem mem_keys_of_read (h : s.read selected = .ok read) :
    x ∈ read.keys ↔ x ∈ (s.own selected).keys ∨ s.Sorts selected x := by
  obtain ⟨templates, htemplates, h⟩ := Result.bind_eq_ok.1 h
  obtain ⟨sorting, hsorting, h⟩ := Result.bind_eq_ok.1 h
  cases h
  cases rawTaxons_eq_ok htemplates
  cases rawTaxons_eq_ok hsorting
  rw [SortedMap.mem_keys_merge, or_comm, mem_keys_rawOf]
  refine or_congr_right ?_
  constructor
  · rintro ⟨slug, hslug, raw⟩
    obtain ⟨_, named, hslug⟩ := SortedSet.mem_unions.1 hslug
    obtain ⟨a, ha, rfl⟩ := List.mem_map.1 named
    obtain ⟨t, ht, aggregated⟩ := List.mem_filterMap.1 ha
    exact ⟨t, ht, a, aggregated, slug, hslug, raw⟩
  · rintro ⟨t, ht, a, aggregated, slug, hslug, raw⟩
    have ha : a ∈ (s.own selected).values.filterMap fun t => t.facts?.bind (·.aggregation?) :=
      List.mem_filterMap.2 ⟨t, ht, aggregated⟩
    exact ⟨slug, SortedSet.mem_unions.2 ⟨_, List.mem_map_of_mem ha, hslug⟩, raw⟩

/-! ## The columns that sort windows -/

theorem mem_keys_withFilterTemplates :
    x ∈ (s.withFilterTemplates columns).keys ↔ x ∈ s.filterTemplates.keys ∨ x ∈ columns.keys := by
  unfold withFilterTemplates SortedMap.keys
  generalize s.filterTemplates.toList = es
  induction es generalizing columns with
  | nil => simp
  | cons e es ih =>
    refine ih.trans ?_
    have first := SortedMap.mem_keys_insertIfNew (m := columns) (k := e.1) (l := x)
      (v := .ofSql (columns.fill e.2))
    unfold SortedMap.keys at first
    rw [first, List.map_cons, List.mem_cons]
    tauto

/-- The columns of the rows are those of the taxons that are read, and the filter templates. -/
theorem mem_keys_modelColumns {models : SortedMap String Model}
    (h : s.modelColumns read models = .ok columns) :
    x ∈ columns.keys ↔ x ∈ read.keys ∨ x ∈ s.filterTemplates.keys := by
  obtain ⟨own, hown, h⟩ := Result.bind_eq_ok.1 h
  cases h
  rw [mem_keys_withFilterTemplates, SortedMap.mem_keys_ofList, or_comm]
  refine or_congr_left ?_
  have each := Result.mapM_eq_ok.1 hown
  clear hown h
  generalize read.keys = slugs at each ⊢
  induction each with
  | nil => rfl
  | cons column _ ih =>
    obtain ⟨m, _, column⟩ := Result.bind_eq_ok.1 column
    obtain ⟨sql, _, column⟩ := Result.bind_eq_ok.1 column
    cases column
    rw [List.map_cons, List.mem_cons, List.mem_cons]
    exact or_congr_right ih

end SourceRows

/-- Windows find the columns that sort them. -/
def TaxonColumns.SortWindows (columns : TaxonColumns) (ts : TaxonMap) : Prop :=
  ∀ t ∈ ts.values, ∀ function sort, t.window? = some (function, sort) → ∀ d ∈ sort,
    ∃ e, columns.sqlOf d.taxon = .ok e

theorem TaxonColumns.exists_sqlOf_iff {columns : TaxonColumns} {slug : String} :
    (∃ e, columns.sqlOf slug = .ok e) ↔ slug ∈ columns.keys := by
  unfold TaxonColumns.sqlOf
  rw [← SortedMap.contains_iff, SortedMap.contains_eq_isSome]
  cases columns.get? slug with
  | none => simp
  | some c => simp

theorem Taxon.window?_names {t : Taxon} {function : String} {sort : List SortDimension}
    (h : t.window? = some (function, sort)) :
    ∃ a, t.knownAggregation? = some a ∧ ∀ d ∈ sort, d.taxon ∈ a.usedSlugs := by
  unfold Taxon.window? at h
  split at h
  · rename_i aggregated
    cases h
    exact ⟨_, aggregated, fun d hd => SortedSet.mem_ofList.2 (List.mem_map_of_mem hd)⟩
  · rename_i aggregated
    cases h
    exact ⟨_, aggregated, fun d hd => SortedSet.mem_ofList.2 (List.mem_map_of_mem hd)⟩
  · cases h

namespace SourceRows

variable {s : SourceRows} {selected read : TaxonMap} {columns : TaxonColumns}
  {models : SortedMap String Model}

theorem aggregatesWithin_iff (h : s.read selected = .ok read) :
    read.AggregatesWithin read ↔
      ∀ t ∈ read.values, ∀ a, t.knownAggregation? = some a → ∀ x ∈ a.usedSlugs,
        x ∈ (s.own selected).keys ∨ s.Sorts selected x :=
  forall₅_congr fun _ _ _ _ _ => forall_congr' fun _ => mem_keys_of_read h

theorem sortWindows_iff (h : s.modelColumns read models = .ok columns) :
    columns.SortWindows read ↔
      ∀ t ∈ read.values, ∀ function sort, t.window? = some (function, sort) → ∀ d ∈ sort,
        d.taxon ∈ read.keys ∨ d.taxon ∈ s.filterTemplates.keys := by
  have found (slug : String) : (∃ e, columns.sqlOf slug = .ok e) ↔
      slug ∈ read.keys ∨ slug ∈ s.filterTemplates.keys :=
    TaxonColumns.exists_sqlOf_iff.trans (mem_keys_modelColumns h)
  exact forall₅_congr fun _ _ _ _ _ => forall₂_congr fun d _ => found d.taxon

/-- Where everything that aggregations name is read, windows find their columns. -/
theorem sortWindows_of_aggregatesWithin (h : s.modelColumns read models = .ok columns)
    (within : read.AggregatesWithin read) : columns.SortWindows read := by
  refine (sortWindows_iff h).2 fun t ht function sort window d hd => .inl ?_
  obtain ⟨a, aggregated, names⟩ := Taxon.window?_names window
  exact within t ht a aggregated d.taxon (names d hd)

end SourceRows

/-- When a resolution and the rows of a data source have all that their aggregations name.  The
resolution does if and only if what the taxons that aggregations bring name is loaded as well, the
rows if and only if all of it is read for itself or sorts what is.  Windows of such rows find the
columns that sort them; those of others do if and only if these are read or computed for filters. -/
theorem sortingTaxons_kept_iff {r : Resolver} {asked : NameSet} {used : UsedTaxons}
    {s : SourceRows} {selected read : TaxonMap} (brings : r.withAggregationTaxons = true)
    (resolved : r.resolve asked = .ok used) (reads : s.read selected = .ok read) :
    (used.required.AggregatesWithin used.all ↔ r.LoadsSecondNames r.dataSources? asked) ∧
    (read.AggregatesWithin read ↔
      ∀ t ∈ read.values, ∀ a, t.knownAggregation? = some a → ∀ x ∈ a.usedSlugs,
        x ∈ (s.own selected).keys ∨ s.Sorts selected x) ∧
    ∀ models columns, s.modelColumns read models = .ok columns →
      (read.AggregatesWithin read → columns.SortWindows read) ∧
      (columns.SortWindows read ↔
        ∀ t ∈ read.values, ∀ function sort, t.window? = some (function, sort) → ∀ d ∈ sort,
          d.taxon ∈ read.keys ∨ d.taxon ∈ s.filterTemplates.keys) := by
  unfold Resolver.resolve at resolved
  rw [brings] at resolved
  refine ⟨(Resolver.collected_of_resolveWith resolved).aggregatesWithin_iff,
    SourceRows.aggregatesWithin_iff reads, fun models columns h => ⟨?_, ?_⟩⟩
  · exact SourceRows.sortWindows_of_aggregatesWithin h
  · exact SourceRows.sortWindows_iff h

namespace SourceRows

/-- A raw taxon with its facts. -/
def rawTaxon (slug : String) (a : Aggregation) : Taxon :=
  { Taxon.ofFormula slug "" .metric "shop" with
    definition := .raw a
    facts? := some { FormulaFacts.none with aggregation? := some a } }

def firstBudget : Taxon := rawTaxon "budget" (.firstBy [⟨"date", none⟩])

/-- The rows that select the budget. -/
def budgetRows (taxons : TaxonMap) : SourceRows where
  part := { SourceRequest.ofDataSource "ads" ⟨"shop", none, .available, none⟩ with
    taxons := ["budget"] }
  taxons := taxons
  templates := []
  filterTemplates := .empty
  physicalSources? := none

/-- A budget of the first date. -/
def datedBudget : TaxonMap := Taxon.mapOf [firstBudget, rawTaxon "date" .groupBy]

/-- A budget of the first date, of which there is one for the last hour. -/
def hourlyBudget : TaxonMap :=
  Taxon.mapOf [firstBudget, rawTaxon "date" (.lastBy [⟨"hour", none⟩]), rawTaxon "hour" .groupBy]

/-- Resolves the budget with what aggregations name. -/
def budgetResolver (taxons : TaxonMap) : Resolver :=
  { Resolver.ofTaxons taxons with withAggregationTaxons := true }

theorem sortingTaxons_kept_dated : ∃ used read,
    (budgetResolver datedBudget).resolve (.singleton "budget") = .ok used ∧
    (budgetRows datedBudget).read (Taxon.mapOf [firstBudget]) = .ok read ∧
    (budgetResolver datedBudget).LoadsSecondNames none (.singleton "budget") ∧
    ∀ models columns, (budgetRows datedBudget).modelColumns read models = .ok columns →
      columns.SortWindows read := by
  obtain ⟨used, resolved, keeps⟩ : ∃ used, (budgetResolver datedBudget).resolve
      (.singleton "budget") = .ok used ∧ _ :=
    Result.ok_of_any (f := fun used => used.required.AggregatesWithin used.all)
      (by decide +kernel)
  obtain ⟨read, reads, within⟩ : ∃ read, (budgetRows datedBudget).read
      (Taxon.mapOf [firstBudget]) = .ok read ∧ _ :=
    Result.ok_of_any (f := fun read => read.AggregatesWithin read) (by decide +kernel)
  obtain ⟨kept, _, sorted⟩ := sortingTaxons_kept_iff rfl resolved reads
  exact ⟨used, read, resolved, reads, kept.1 (of_decide_eq_true keeps), fun models columns h =>
    (sorted models columns h).1 (of_decide_eq_true within)⟩

/-- A model with the budgets and their dates. -/
def budgets : Model where
  name := "budgets"
  attributes := .ofList (["budget", "date"].map fun slug => (slug, .of slug "\"cost\""))
  joins := []
  dataSources := ["ads"]
  type? := none
  visibility := .available
  company := "shop"
  project? := none
  table := ["budgets"]
  physicalSource? := none

/-- The hour is neither loaded nor read, so the window of the date does not find it. -/
theorem not_sortingTaxons_kept_hourly :
    (∃ used, (budgetResolver hourlyBudget).resolve (.singleton "budget") = .ok used ∧
      ¬ used.required.AggregatesWithin used.all) ∧
    (∃ read, (budgetRows hourlyBudget).read (Taxon.mapOf [firstBudget]) = .ok read ∧
      ¬ read.AggregatesWithin read) ∧
    (budgetRows hourlyBudget).dataframe [budgets] = .error (.defect (.noAccessor "hour")) := by
  obtain ⟨used, resolved, breaks⟩ : ∃ used, (budgetResolver hourlyBudget).resolve
      (.singleton "budget") = .ok used ∧ _ :=
    Result.ok_of_any (f := fun used => ¬ used.required.AggregatesWithin used.all)
      (by decide +kernel)
  obtain ⟨read, reads, breaks'⟩ : ∃ read, (budgetRows hourlyBudget).read
      (Taxon.mapOf [firstBudget]) = .ok read ∧ _ :=
    Result.ok_of_any (f := fun read => ¬ read.AggregatesWithin read) (by decide +kernel)
  have fails : (match (budgetRows hourlyBudget).dataframe [budgets] with
      | .error (.defect (.noAccessor slug)) => decide (slug = "hour")
      | _ => false) = true := by decide +kernel
  refine ⟨⟨used, resolved, of_decide_eq_true breaks⟩,
    ⟨read, reads, of_decide_eq_true breaks'⟩, ?_⟩
  split at fails
  · rename_i slug failed
    rw [failed, of_decide_eq_true fails]
  · cases fails

end SourceRows

end SemanticLayer
