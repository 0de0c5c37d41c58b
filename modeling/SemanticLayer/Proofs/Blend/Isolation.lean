import SemanticLayer.Proofs.Blend.Tables
import SemanticLayer.Proofs.Model.Augmentation

/-!
# Isolation of scopes

Models that the parts of a request cannot use, and mappings of other companies, have no say in its
answer, and the unions in that answer are aligned.

* `Inserted`: a list with more members put in at any places;
* `dataframe_congr`, `answer_congr`: what is computed depends on the models that a scope can use,
  and on the mappings of one company;
* `prepareAll_inserted`: a catalog of models as they are written down can be added to;
* `compile_isolated`: the two-catalog statement, with the tables that the answer reads;
* `unions_aligned`: every union is aligned, and each taxon, label and aggregate has its own place.
-/

namespace SemanticLayer

/-- The second list is the first one with more members of one kind put in at any places. -/
inductive Inserted {α : Type} (p : α → Prop) : List α → List α → Prop
  | nil : Inserted p [] []
  | keep {xs ys : List α} (x : α) (h : Inserted p xs ys) : Inserted p (x :: xs) (x :: ys)
  | insert {xs ys : List α} {y : α} (hy : p y) (h : Inserted p xs ys) : Inserted p xs (y :: ys)

namespace Inserted

variable {α : Type} {p : α → Prop} {xs ys : List α}

/-- A choice that takes none of the new members cannot tell the lists apart. -/
theorem filter_eq (h : Inserted p xs ys) {f : α → Bool} (hf : ∀ a, p a → f a = false) :
    ys.filter f = xs.filter f := by
  induction h with
  | nil => rfl
  | keep x _ ih => rw [List.filter_cons, List.filter_cons, ih]
  | insert hy _ ih => rw [List.filter_cons_of_neg (by simp [hf _ hy]), ih]

end Inserted

namespace Model

theorem load_congr {ms ms' : List Model} {s : Scope} (h : ms'.filter s.canUse = ms.filter s.canUse)
    (q : ModelQuery) : Model.load ms' s q = Model.load ms s q := by
  have found : ms'.filter (fun m => s.canUse m && q.matches m) =
      ms.filter fun m => s.canUse m && q.matches m := by
    simpa only [List.filter_filter, Bool.and_comm] using congrArg (List.filter q.matches) h
  rw [Model.load, Model.load, found]

end Model

theorem SourceRows.dataframe_congr {s : SourceRows} {ms ms' : List Model}
    (h : ms'.filter s.part.scope.canUse = ms.filter s.part.scope.canUse) :
    s.dataframe ms' = s.dataframe ms := by
  unfold SourceRows.dataframe
  simp only [Model.load_congr h]

theorem OverrideTables.load_congr {maps maps' : List OverrideMapping} {company : String}
    (h : maps'.filter (fun m => m.company = company) = maps.filter fun m => m.company = company)
    (uses : List OverrideKey) (maxMappings : Nat) :
    OverrideTables.load maps' company uses maxMappings =
      OverrideTables.load maps company uses maxMappings := by
  have found (slugs : NameSet) : maps'.filter (fun m => m.company = company && slugs.contains m.slug) =
      maps.filter fun m => m.company = company && slugs.contains m.slug := by
    simpa only [List.filter_filter, Bool.and_comm] using
      congrArg (List.filter fun m => slugs.contains m.slug) h
  unfold OverrideTables.load OverrideMapping.load
  simp only [found]

namespace PlannedRequest

variable {r : PlannedRequest} {ms ms' : List Model}
  (h : ∀ p ∈ r.request.parts, ms'.filter p.scope.canUse = ms.filter p.scope.canUse)

include h

theorem data_congr (tables : OverrideTables) (physicalSources? : Option NameSet) :
    r.data tables ms' physicalSources? = r.data tables ms physicalSources? := by
  unfold data
  congr 1
  refine Result.mapM_congr ?_
  intro p hp
  refine Result.bind_congr ?_
  intro s hs
  obtain ⟨taxons, _, hs⟩ := Result.bind_eq_ok.1 hs
  obtain ⟨dataSource, _, hs⟩ := Result.bind_eq_ok.1 hs
  cases hs
  exact SourceRows.dataframe_congr (h p hp)

theorem comparisonSources_congr (c : ComparisonRequest) (physicalSources? : Option NameSet) :
    r.comparisonSources c ms' physicalSources? = r.comparisonSources c ms physicalSources? := by
  refine Result.filterMapM_congr ?_
  intro p hp
  refine Result.bind_congr ?_
  intro taxons _
  split
  · rfl
  · refine Result.bind_congr ?_
    intro s hs
    obtain ⟨dataSource, _, hs⟩ := Result.bind_eq_ok.1 hs
    obtain ⟨filterTemplates, _, hs⟩ := Result.bind_eq_ok.1 hs
    cases hs
    -- over its company, a part can use the same models
    rw [SourceRows.dataframe_congr (h p hp)]

theorem answer_congr {taxons : TaxonMap} {maps maps' : List OverrideMapping}
    (hm : ∀ company, r.request.company = .ok company →
      maps'.filter (fun m => m.company = company) = maps.filter fun m => m.company = company)
    (maxMappings : Nat) :
    r.answer ⟨taxons, ms', maps'⟩ maxMappings = r.answer ⟨taxons, ms, maps⟩ maxMappings := by
  unfold answer comparison?
  refine Result.bind_congr ?_
  intro company hcompany
  simp only [OverrideTables.load_congr (hm company hcompany), data_congr h,
    comparisonSources_congr h]

end PlannedRequest

namespace BlendRequest

/-- Whether no part of a request can use a model. -/
def Hides (r : BlendRequest) (m : Model) : Prop := ∀ p ∈ r.parts, p.scope.canUse m = false

instance (r : BlendRequest) (m : Model) : Decidable (r.Hides m) :=
  inferInstanceAs (Decidable (∀ p ∈ r.parts, p.scope.canUse m = false))

/-- Whether a mapping belongs to another company than the one that asks. -/
def HidesMapping (r : BlendRequest) (m : OverrideMapping) : Prop := r.company ≠ .ok m.company

theorem company_distributed {r r' : BlendRequest} (h : r.distributed = .ok r') :
    r'.company = r.company := by
  have scopes := (scopes_distributed h).1
  unfold company
  cases hr' : r'.parts with
  | nil =>
    rw [hr', List.map_nil, eq_comm, List.map_eq_nil_iff] at scopes
    rw [scopes]
  | cons p' ps' =>
    cases hr : r.parts with
    | nil =>
      rw [hr, hr'] at scopes
      cases scopes
    | cons p ps =>
      rw [hr, hr', List.map_cons, List.map_cons] at scopes
      dsimp only
      rw [(List.cons.inj scopes).1]

end BlendRequest

theorem Scope.canUse_augmented (s : Scope) (m : Model) : s.canUse m.augmented = s.canUse m := by
  obtain ⟨attributes, h⟩ := m.sameBut_augmented
  rw [h]
  rfl

/-- Valid models put among those that are written down are put, augmented, among the models of the
catalog. -/
theorem prepareAll_inserted {p : Model → Prop} {ms ms' models : List Model}
    (h : Inserted (fun m => m.validate = .ok () ∧ p m.augmented) ms ms')
    (hms : Model.prepareAll ms = .ok models) :
    ∃ models', Model.prepareAll ms' = .ok models' ∧ Inserted p models models' := by
  unfold Model.prepareAll at hms ⊢
  induction h generalizing models with
  | nil =>
    cases hms
    exact ⟨[], rfl, .nil⟩
  | keep m _ ih =>
    rw [List.mapM_cons] at hms
    obtain ⟨m', hm, hms⟩ := Result.bind_eq_ok.1 hms
    obtain ⟨rest, hrest, hms⟩ := Result.bind_eq_ok.1 hms
    cases hms
    obtain ⟨rest', hrest', h⟩ := ih hrest
    refine ⟨m' :: rest', ?_, h.keep m'⟩
    rw [List.mapM_cons, hm, hrest']
    rfl
  | @insert _ _ m hm _ ih =>
    obtain ⟨rest', hrest', h⟩ := ih hms
    refine ⟨m.augmented :: rest', ?_, .insert hm.2 h⟩
    rw [List.mapM_cons, hm.1, hrest']
    rfl

/-- Models that no part of a request can use and mappings of other companies change neither the
answer nor the failure of a request; and an answer reads no tables but those of models that a part
can use, in the connections that the request allows. -/
theorem compile_isolated {c c' : Catalog} {o : Options} {r : BlendRequest}
    (ht : c'.taxons = c.taxons) (hmodels : Inserted r.Hides c.models c'.models)
    (hmappings : Inserted r.HidesMapping c.mappings c'.mappings) :
    c'.compile o r = c.compile o r ∧
      ∀ out, c.compile o r = .ok out → ∀ parts ∈ out.query.baseTables,
        ∃ m ∈ c.models, r.CanRead m ∧ m.tableRef.source = .table parts := by
  constructor
  · unfold Catalog.compile Catalog.answer
    rw [ht]
    refine congrArg (· >>= _) ?_
    refine Result.bind_congr fun _ _ => Result.bind_congr fun r' hr' => Result.bind_congr ?_
    intro planned hplanned
    have request := PlannedRequest.request_of_load hplanned
    refine PlannedRequest.answer_congr ?_ ?_ _
    · intro p hp
      rw [request] at hp
      have scope : p.scope ∈ r'.parts.map (·.scope) := List.mem_map_of_mem hp
      rw [(BlendRequest.scopes_distributed hr').1] at scope
      obtain ⟨q, hq, e⟩ := List.mem_map.1 scope
      rw [← e]
      exact hmodels.filter_eq fun m hm => hm q hq
    · intro company hcompany
      rw [request, BlendRequest.company_distributed hr'] at hcompany
      refine hmappings.filter_eq fun m hm => decide_eq_false ?_
      rintro rfl
      exact hm hcompany
  · intro out h parts hparts
    exact (Catalog.compile_readsOnly h).allowed_of_mem_baseTables hparts

/-- A model of ad costs, told apart by whose it is. -/
def costsOf (company : String) (project? : Option String) (visibility : Visibility) : Model :=
  { name := "costs"
    attributes := .ofList [("spend", .of "spend" "\"cost\"")]
    joins := []
    dataSources := ["ads"]
    type? := none
    visibility
    company
    project?
    table := ["db", company, "costs"]
    physicalSource? := none }

/-- Costs that are asked for by a project of a company. -/
def costsRequest : BlendRequest :=
  .ofParts [.ofDataSource "ads" ⟨"acme", some "north", .available, none⟩] ["spend"]

def costsTaxons : TaxonMap :=
  .ofList [("spend",
    ⟨"spend", "Spend", none, .metric, .raw .sum, .money, "acme", none, none, none⟩)]

/-- Costs of another company, of another project, and hidden ones, all of the same name, are as good
as absent. -/
theorem compile_isolated_costs :
    let own := (costsOf "acme" none .available).augmented
    let rival := (costsOf "rival" none .available).augmented
    let south := (costsOf "acme" (some "south") .available).augmented
    let hidden := (costsOf "acme" none .hidden).augmented
    let names : OverrideMapping := ⟨"names", "names", [], "rival"⟩
    let alone : Catalog := ⟨costsTaxons, [own], []⟩
    let crowded : Catalog := ⟨costsTaxons, [rival, own, south, hidden], [names]⟩
    Inserted costsRequest.Hides alone.models crowded.models ∧
      Inserted costsRequest.HidesMapping alone.mappings crowded.mappings ∧
      crowded.compile .default costsRequest = alone.compile .default costsRequest := by
  intro own rival south hidden names alone crowded
  have hides (m : Model) (h : costsRequest.Hides m) : costsRequest.Hides m.augmented := by
    intro p hp
    rw [Scope.canUse_augmented]
    exact h p hp
  have models : Inserted costsRequest.Hides [own] [rival, own, south, hidden] :=
    .insert (hides _ (by decide)) (.keep own
      (.insert (hides _ (by decide)) (.insert (hides _ (by decide)) .nil)))
  have other : costsRequest.HidesMapping names := by
    intro h
    exact absurd (Except.ok.inj h) (by decide)
  have mappings : Inserted costsRequest.HidesMapping [] [names] := .insert other .nil
  exact ⟨models, mappings, (@compile_isolated alone crowded .default _ rfl models mappings).1⟩

end SemanticLayer

namespace SemanticLayer

open Sql (Query)

/-- The queries of every union offer the same names in the same order: those of the data sources,
of the grouping sets and of the pairs of a mapping, and thus of all unions in a statement.  Each
place belongs to one slot, which some queries fill with null or with a marker. -/
theorem unions_aligned :
    (∀ (columns : SortedMap String DataframeColumn) (labels : NameSet) (dfs : List Dataframe),
      Query.AreAligned (dfs.zipIdx.map fun (df, i) => df.branch columns labels i) ∧
      ∀ (df : Dataframe) (i : Nat), (df.branch columns labels i).Fills (BlendedSlot.all columns labels)
        BlendedSlot.name (BlendedSlot.value df)) ∧
    (∀ (plan : BlendPlan) (rows : Query) (sets : List (List String)),
      Query.AreAligned (sets.map fun set =>
        (Dataframe.groupingSetRows plan set).withTable Dataframe.groupingTable rows) ∧
      ∀ set, (Dataframe.groupingSetRows plan set).Fills (AggregateSlot.all plan)
        AggregateSlot.name (AggregateSlot.value set)) ∧
    (∀ m : OverrideMapping,
      Query.AreAligned (m.pairs.map fun (v, w) => OverrideMapping.row v w) ∧
      ∀ pair ∈ m.pairs, (OverrideMapping.row pair.1 pair.2).Fills [.value, .replacement]
        MappingSlot.name (MappingSlot.entry pair)) ∧
    ∀ (c : Catalog) (o : Options) (r : BlendRequest) (out : CompiledRequest),
      c.compile o r = .ok out → out.query.All Query.IsAligned := by
  refine ⟨?_, ?_, ?_, ?_⟩
  · intro columns labels dfs
    exact ⟨Dataframe.branches_aligned columns labels dfs,
      fun df i => df.branch_fills columns labels i⟩
  · intro plan rows sets
    exact ⟨Dataframe.groupingSets_aligned plan rows sets,
      fun set => Dataframe.groupingSetRows_fills plan set⟩
  · intro m
    exact ⟨m.rows_aligned, fun pair _ => OverrideMapping.row_fills pair⟩
  · intro c o r out h
    exact (Catalog.compile_isBuilt h).all_isAligned

/-- The costs of two sources, for each day and over all days.  Their union stands in the common table
of either grouping set. -/
theorem unions_aligned_costs :
    let costs (source : String) : Model := { costsOf "acme" none .available with
      name := source, dataSources := [source], physicalSource? := some "warehouse",
      attributes := .ofList (["day", source ++ "|spend"].map fun slug =>
        (slug, .of slug "\"cost\"")) }
    let day : Taxon :=
      ⟨"day", "Day", none, .dimension, .raw .groupBy, .text, "acme", none, none, none⟩
    let spend (source : String) : Taxon :=
      ⟨source ++ "|spend", "Spend", some source, .metric, .raw .sum, .money, "acme", none, none, none⟩
    let c : Catalog := ⟨Taxon.mapOf [day, spend "ads", spend "tv"],
      [(costs "ads").augmented, (costs "tv").augmented], []⟩
    let scope : Scope := ⟨"acme", none, .available, none⟩
    let r : BlendRequest := { BlendRequest.ofParts
      [.ofDataSource "ads" scope, .ofDataSource "tv" scope] ["day", "ads|spend", "tv|spend"] with
      groupingSets? := some [["day"], []] }
    ∃ out, c.compile .default r = .ok out ∧
      out.query.parts.countP (·.union?.isSome) = 3 ∧ out.query.All Query.IsAligned := by
  intro costs day spend c scope r
  have compiled : (c.compile .default r).toOption.any fun out =>
      out.query.parts.countP (·.union?.isSome) = 3 := by
    decide +kernel
  obtain ⟨out, hout, united⟩ := Result.ok_of_any compiled
  exact ⟨out, hout, of_decide_eq_true united, unions_aligned.2.2.2 c .default r out hout⟩

end SemanticLayer
