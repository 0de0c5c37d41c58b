import SemanticLayer.Proofs.Blend.RequestOrder
import SemanticLayer.Proofs.Blend.Stages

/-!
# Parts that are ordered and limited

A part of a request can say how its rows are ordered and how many of them it takes.  The query of
its data source takes both from the part it is built for.  That part has no order any more: all
orders are moved to the request, whose answer is ordered by them, and the limits stay where they
are.

* `SourceRequest.IsPaged`: what the query of a part is ordered and limited by;
* `SourceRows.isPaged_dataframe`: the query of a data source, for the part it is built for;
* `BlendRequest.parts_distributed`: the parts that the queries are built for;
* `PlannedRequest.Stages.parts_answer`: the queries of the parts stand in the answer;
* `Catalog.answer_pagesParts_iff`: when limited parts are ordered as they ask.
-/

namespace SemanticLayer

open Sql (Expr Query SelectItem)

namespace SourceRequest

/-- The part without its order. -/
def unordered (p : SourceRequest) : SourceRequest := { p with order := [] }

/-- Whether a part takes some of its rows only. -/
def IsLimited (p : SourceRequest) : Prop := p.limit? ≠ none ∨ p.offset? ≠ none

/-- Whether a query is ordered and limited as a part asks. -/
structure IsPaged (p : SourceRequest) (q : Query) : Prop where
  order : q.order = p.order.map fun o => o.order.by (.col (Identifier.safe o.taxon))
  limit : q.limit? = p.limit?
  offset : q.offset? = p.offset?

/-- Whether the rows that a query keeps for a part are the first ones in the order of the part. -/
def KeepsFirst (p : SourceRequest) (q : Query) : Prop :=
  p.order ≠ [] → p.IsLimited → p.IsPaged q

variable {p : SourceRequest} {q : Query}

/-- A query that has only the limits of a part is what the part asks for as long as the part does
not have both an order and a limit. -/
theorem keepsFirst_iff (h : p.unordered.IsPaged q) :
    p.KeepsFirst q ↔ (p.order ≠ [] → ¬ p.IsLimited) := by
  constructor
  · intro keeps ordered limited
    have order := (keeps ordered limited).order
    rw [h.order] at order
    exact ordered (List.map_eq_nil_iff.1 order.symm)
  · intro apart ordered limited
    exact absurd limited (apart ordered)

theorem forall₂_keepsFirst_iff {ps : List SourceRequest} {ds : List Dataframe}
    (h : List.Forall₂ (fun p d => p.unordered.IsPaged d.query) ps ds) :
    List.Forall₂ (fun p d => p.KeepsFirst d.query) ps ds ↔
      ∀ p ∈ ps, p.order ≠ [] → ¬ p.IsLimited := by
  induction h with
  | nil => exact iff_of_true .nil (List.forall_mem_nil _)
  | cons hpd _ ih => rw [List.forall₂_cons, List.forall_mem_cons, keepsFirst_iff hpd, ih]

end SourceRequest

theorem SourceRows.isPaged_dataframe {s : SourceRows} {models : List Model} {df : Dataframe}
    (h : s.dataframe models = .ok df) : s.part.IsPaged df.query := by
  obtain ⟨dataSource, selected, _, rows, _, query, _⟩ := dataframe_eq_ok h
  rw [query]
  exact ⟨rfl, rfl, rfl⟩

theorem PlannedRequest.isPaged_partRows {r : PlannedRequest} {p : SourceRequest}
    {stored? : Option NameSet} {models : List Model} {df : Dataframe}
    (h : (r.partRows p stored? >>= (·.dataframe models)) = .ok df) : p.IsPaged df.query := by
  obtain ⟨s, hs, h⟩ := Result.bind_eq_ok.1 h
  obtain ⟨taxons, _, hs⟩ := Result.bind_eq_ok.1 hs
  obtain ⟨dataSource, _, hs⟩ := Result.bind_eq_ok.1 hs
  cases hs
  have paged := SourceRows.isPaged_dataframe h
  exact ⟨paged.order, paged.limit, paged.offset⟩

/-! ## The parts that queries are built for -/

namespace BlendRequest

variable {r r' : BlendRequest}

/-- Parts get taxons, and stay otherwise as they are. -/
theorem forall₂_handed (slugs : List String) (ps : List SourceRequest) :
    List.Forall₂ (fun p q => q = { p with taxons := q.taxons }) ps (handed slugs ps) := by
  induction ps generalizing slugs with
  | nil => exact .nil
  | cons p ps ih => exact .cons rfl (ih _)

/-- The parts of a request have no order left and get taxons; the request has all orders. -/
theorem parts_distributed (h : r.distributed = .ok r') :
    List.Forall₂ (fun p q => q = { p.unordered with taxons := q.taxons }) r.parts r'.parts ∧
      r'.order = r.order ++ r.parts.flatMap (·.order) := by
  obtain ⟨parts, hparts, h⟩ := Result.bind_eq_ok.1 h
  obtain ⟨_, rfl⟩ := (foldlM_addToParts _ _).1 hparts
  dsimp only at h
  split at h
  · obtain ⟨_, failed, _⟩ := Result.bind_eq_ok.1 h
    cases failed
  · cases h
    exact ⟨List.forall₂_map_left_iff.1 (forall₂_handed _ _), rfl⟩

end BlendRequest

/-! ## The queries within an answer -/

theorem Sql.Query.parts_unionAll {qs : List Query} {q s : Query} (hq : q ∈ qs) (hs : s ∈ q.parts) :
    s ∈ (unionAll qs).parts := by
  unfold unionAll
  split
  · cases List.mem_singleton.1 hq
    exact hs
  · exact parts_of_child hq hs

namespace Dataframe

variable {df df' : Dataframe} {q : Query}

theorem parts_blend {taxons : TaxonMap} {templates : SourceTemplates} {dfs : List Dataframe}
    {d : Dataframe} (h : blend taxons templates dfs = .ok df) (hd : d ∈ dfs)
    (hq : q ∈ d.query.parts) : q ∈ df.query.parts := by
  obtain ⟨blended, _, _, rfl⟩ := blend_eq_ok h
  have numbered : d ∈ dfs.zipIdx.map Prod.fst := by
    rw [List.zipIdx_map_fst]
    exact hd
  obtain ⟨e, he, rfl⟩ := List.mem_map.1 numbered
  refine Query.parts_of_child (List.mem_singleton_self _) ?_
  refine Query.parts_unionAll (List.mem_map_of_mem he) ?_
  exact Query.parts_of_child (List.mem_singleton_self _) hq

theorem parts_withFormulas {fs : List Formula.PreFormula} {tables : OverrideTables}
    {uses : OverrideUses} (h : df.withFormulas fs tables uses = .ok df')
    (hq : q ∈ df.query.parts) : q ∈ df'.query.parts := by
  rcases withFormulas_eq_ok h with ⟨_, rfl⟩ | ⟨_, ts, _, rfl⟩
  · exact hq
  · refine Query.parts_of_child ?_ hq
    change df.query ∈ (df.formulaQuery fs uses ts).children
    rw [children_formulaQuery]
    exact List.mem_append_right _ (List.mem_singleton_self _)

theorem parts_withComparison (comparison : Dataframe) (plan : BlendPlan)
    (hq : q ∈ df.query.parts) : q ∈ (df.withComparison comparison plan).query.parts := by
  have below : df.query ∈ (df.withComparison comparison plan).query.children :=
    Query.mem_children_joinSubquery.2 (.inl (List.mem_singleton_self _))
  exact Query.parts_of_child below hq

theorem parts_aggregatedRows (plan : BlendPlan) (groupingSets? : Option (List (List String)))
    (hq : q ∈ df.query.parts) : q ∈ (df.aggregatedRows plan groupingSets?).parts := by
  have grouped : q ∈ (df.groupedRows plan).parts :=
    Query.parts_of_child (List.mem_singleton_self _) hq
  rcases groupingSets? with _ | _ | ⟨set, sets⟩
  · exact grouped
  · exact grouped
  · refine Query.parts_unionAll (List.mem_map_of_mem (List.mem_cons_self ..)) ?_
    refine Query.parts_of_child (List.mem_cons_self ..) ?_
    exact Query.parts_of_child (List.mem_singleton_self _) hq

theorem parts_withMetrics {plan : BlendPlan} {r : BlendRequest}
    (h : df.withMetrics plan r = .ok df') (hq : q ∈ df.query.parts) : q ∈ df'.query.parts := by
  have shown : q ∈ (df.resultQuery plan r).parts :=
    Query.parts_of_child (List.mem_singleton_self _) (parts_aggregatedRows plan _ hq)
  have filtered := (withMetrics_eq_ok h).1
  unfold filteredResults at filtered
  split at filtered
  · rw [← Except.ok.inj filtered]
    exact shown
  · obtain ⟨condition, _, filtered⟩ := Result.bind_eq_ok.1 filtered
    rw [← Except.ok.inj filtered]
    exact Query.parts_of_child (List.mem_singleton_self _) shown

theorem parts_project {taxons : TaxonMap} {r : BlendRequest} (h : df.project taxons r = .ok df')
    (hq : q ∈ df.query.parts) : q ∈ df'.query.parts := by
  obtain ⟨order, _, h⟩ := Result.bind_eq_ok.1 h
  obtain ⟨items, _, h⟩ := Result.bind_eq_ok.1 h
  cases h
  exact Query.parts_of_child (List.mem_singleton_self _) hq

theorem order_project {taxons : TaxonMap} {r : BlendRequest} (h : df.project taxons r = .ok df') :
    r.order.mapM (answerOrder taxons) = .ok df'.query.order := by
  obtain ⟨order, horder, h⟩ := Result.bind_eq_ok.1 h
  obtain ⟨items, _, h⟩ := Result.bind_eq_ok.1 h
  cases h
  exact horder

end Dataframe

namespace PlannedRequest.Stages

variable {r : PlannedRequest} {c : Catalog} {maxMappings : Nat} {df : Dataframe}

/-- The query of each data source stands in the answer. -/
theorem parts_answer (st : r.Stages c maxMappings)
    (h : st.results.project st.answered r.request = .ok df) {d : Dataframe} (hd : d ∈ st.sources) :
    d.query ∈ df.query.parts := by
  have blended := Dataframe.parts_blend st.blended_eq hd (Query.mem_parts_self _)
  have data := Dataframe.parts_withFormulas st.data_eq blended
  have rows : d.query ∈ st.rows.query.parts := by
    rw [st.rows_eq]
    cases st.comparison? with
    | none => exact data
    | some k => exact Dataframe.parts_withComparison k.rows r.plan data
  exact Dataframe.parts_project h (Dataframe.parts_withMetrics st.results_eq rows)

/-- The query of each data source has the limits of its part, and no order. -/
theorem isPaged_sources {asked : BlendRequest} {o : Options}
    (hp : (asked.distributed >>= PlannedRequest.load c.taxons o.useFallback) = .ok r)
    (st : r.Stages c maxMappings) :
    List.Forall₂ (fun p d => p.unordered.IsPaged d.query) asked.parts st.sources := by
  obtain ⟨distributed, hdistributed, hp⟩ := Result.bind_eq_ok.1 hp
  have same := PlannedRequest.request_of_load hp
  have parts := (BlendRequest.parts_distributed hdistributed).1
  rw [← same] at parts
  have sources := Result.mapM_eq_ok.1 st.sources_eq
  refine List.forall₂_iff_get.2 ⟨?_, ?_⟩
  · exact parts.length_eq.trans sources.length_eq
  · intro i hi hi'
    have own := parts.get hi (parts.length_eq ▸ hi)
    have built := isPaged_partRows (sources.get (parts.length_eq ▸ hi) hi')
    rw [own] at built
    exact ⟨built.order, built.limit, built.offset⟩

end PlannedRequest.Stages

/-- A limit of a part applies in the part's order exactly if no part has both: the query of each
data source stands in the answer with the limits of its part and without an order, and the answer is
ordered by what the request and then its parts are ordered by. -/
theorem Catalog.answer_keepsFirst_iff {c : Catalog} {o : Options} {r : BlendRequest}
    {df : Dataframe} (h : c.answer o r = .ok df) :
    ∃ (p : PlannedRequest) (st : p.Stages c o.maxMappings),
      (r.distributed >>= PlannedRequest.load c.taxons o.useFallback) = .ok p ∧
      st.results.project st.answered p.request = .ok df ∧
      List.Forall₂ (fun part d => part.unordered.IsPaged d.query ∧ d.query ∈ df.query.parts)
        r.parts st.sources ∧
      (r.order ++ r.parts.flatMap (·.order)).mapM (Dataframe.answerOrder st.answered) =
        .ok df.query.order ∧
      (List.Forall₂ (fun part d => part.KeepsFirst d.query) r.parts st.sources ↔
        ∀ part ∈ r.parts, part.order ≠ [] → ¬ part.IsLimited) := by
  obtain ⟨p, st, hp, hdf⟩ := answer_eq_ok h
  have paged := PlannedRequest.Stages.isPaged_sources hp st
  obtain ⟨distributed, hdistributed, loaded⟩ := Result.bind_eq_ok.1 hp
  have order := Dataframe.order_project hdf
  rw [PlannedRequest.request_of_load loaded, (BlendRequest.parts_distributed hdistributed).2] at order
  refine ⟨p, st, hp, hdf, ?_, order, SourceRequest.forall₂_keepsFirst_iff paged⟩
  obtain ⟨length, each⟩ := List.forall₂_iff_zip.1 paged
  refine List.forall₂_iff_zip.2 ⟨length, ?_⟩
  intro part d member
  exact ⟨each member, st.parts_answer hdf (List.of_mem_zip member).2⟩

/-- The day on which most was spent. -/
def topDay : BlendRequest :=
  .ofParts [{ SourceRequest.ofDataSource "ads" ⟨"acme", none, .available, none⟩ with
    taxons := ["day", "spend"]
    order := [⟨"spend", .desc⟩]
    limit? := some 1 }] []

def clickCatalog : Catalog := ⟨clickTaxons, [clickModel.augmented], []⟩

theorem answer_keepsFirst_topDay :
    ∃ df, clickCatalog.answer .default topDay = .ok df ∧
      ∃ (p : PlannedRequest) (st : p.Stages clickCatalog Options.default.maxMappings),
        st.results.project st.answered p.request = .ok df ∧
        (List.Forall₂ (fun part d => part.KeepsFirst d.query) topDay.parts st.sources ↔
          ∀ part ∈ topDay.parts, part.order ≠ [] → ¬ part.IsLimited) := by
  have answered : (clickCatalog.answer .default topDay).toOption.any (fun _ => true) := by
    decide +kernel
  obtain ⟨df, hdf, _⟩ := Result.ok_of_any answered
  obtain ⟨p, st, _, hst, _, _, keeps⟩ := Catalog.answer_keepsFirst_iff hdf
  exact ⟨df, hdf, p, st, hst, keeps⟩

/-- The one day that is kept is any day: its query has a limit and no order. -/
theorem answer_not_keepsFirst_topDay :
    ∃ df, clickCatalog.answer .default topDay = .ok df ∧
      ∃ (p : PlannedRequest) (st : p.Stages clickCatalog Options.default.maxMappings),
        st.results.project st.answered p.request = .ok df ∧
        (∀ d ∈ st.sources, d.query.order = [] ∧ d.query.limit? = some 1) ∧
        ¬ List.Forall₂ (fun part d => part.KeepsFirst d.query) topDay.parts st.sources := by
  have answered : (clickCatalog.answer .default topDay).toOption.any (fun _ => true) := by
    decide +kernel
  obtain ⟨df, hdf, _⟩ := Result.ok_of_any answered
  obtain ⟨p, st, hp, hst⟩ := Catalog.answer_eq_ok hdf
  have paged := PlannedRequest.Stages.isPaged_sources hp st
  refine ⟨df, hdf, p, st, hst, ?_, ?_⟩
  · obtain ⟨d, _, only, none, rest⟩ := List.forall₂_cons_left_iff.1 paged
    rw [rest, List.forall₂_nil_left_iff.1 none]
    exact List.forall_mem_singleton.2 ⟨only.order, only.limit⟩
  · intro keeps
    refine (SourceRequest.forall₂_keepsFirst_iff paged).1 keeps _ (List.mem_cons_self ..) ?_ (.inl ?_)
    · exact List.cons_ne_nil _ _
    · exact Option.some_ne_none _

end SemanticLayer
