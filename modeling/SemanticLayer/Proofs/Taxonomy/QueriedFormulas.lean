import SemanticLayer.Proofs.Taxonomy.Aggregations
import SemanticLayer.Proofs.Taxonomy.Listing
import SemanticLayer.Proofs.Taxonomy.Usability

/-!
# Formulas in requests

A request can hold a calculation in place of a slug.  Its taxon is made for the request: what the
calculation names is resolved as required, optional references not excepted, and without the taxons
that aggregations name.  A taxon that is stored with the same calculation is resolved like any other.

* `answerTo_formula`: the answer to a calculation, in steps;
* `DifferAt`: two resolvers that differ in a taxon which nothing names resolve the rest alike;
* `IsNew`: a taxon to be stored with a calculation, and what it leads to;
* `queriesAsStored_iff`: when both answers are the same.
-/

namespace SemanticLayer

namespace Resolver

open Formula (UsedSlugs)

variable {r r' : Resolver} {dataSources? : Option NameSet} {slug : String}

/-- What a resolver gives for a request. -/
def answerTo (r : Resolver) (company : String) (request : List String) : Result TaxonMap :=
  ((resolveRequest company request).run r).1

theorem answerTo_slug (company : String) (proper : Slug.isFormula slug = false) :
    r.answerTo company [slug] = (r.resolve (.ofList [slug])).map (·.all) := by
  have split : [slug].partition Slug.isFormula = ([], [slug]) := by
    simp [List.partition_eq_filter_filter, proper]
  unfold answerTo resolveRequest
  rw [split]
  dsimp only
  rw [run_get_bind, run_lift_bind]
  rfl

/-- The formula by which a calculation is asked for as a metric. -/
def metricFormula (c : String) : String := "=m:" ++ c

/-- The taxon that is made for a calculation which is asked for as a metric. -/
def queried (c company : String) : Taxon :=
  .ofFormula (Slug.withoutQuotes (metricFormula c)) c .metric company

theorem metricFormula?_metricFormula (c : String) :
    Slug.metricFormula? (metricFormula c) = some c := by
  unfold Slug.metricFormula? Slug.after? metricFormula
  rw [String.toList_append, if_pos (by simp)]
  change some (String.ofList c.toList) = _
  rw [String.ofList_toList]

theorem isFormula_metricFormula (c : String) : Slug.isFormula (metricFormula c) = true := by
  unfold Slug.isFormula metricFormula
  rw [String.toList_append]
  rfl

theorem isFormula_queried (c company : String) : Slug.isFormula (queried c company).slug = true := by
  change Slug.isFormula (Slug.withoutQuotes (metricFormula c)) = true
  unfold Slug.isFormula Slug.withoutQuotes metricFormula
  rw [String.toList_ofList, String.toList_append]
  rfl

/-- A resolver that has made the taxon for a calculation. -/
def afterQuery (r : Resolver) (c company : String) : Resolver :=
  { r with temporary := r.temporary.insert (queried c company).slug (queried c company) }

theorem run_addFormula (c company : String) :
    (addFormula company (metricFormula c)).run r =
      match Formula.usedSlugs c r.dataSources? with
      | .ok named => (.ok (queried c company, named.all), r.afterQuery c company)
      | .error e => (.error e, r) := by
  have formula : formulaOf (metricFormula c) = .ok (c, .metric) := by
    unfold formulaOf
    rw [metricFormula?_metricFormula]
  unfold addFormula
  rw [formula, run_bind, run_lift]
  dsimp only
  rw [run_get_bind, run_bind, run_lift]
  cases Formula.usedSlugs c r.dataSources? <;> rfl

theorem run_completeFormula (ts : TaxonMap) (slug : String) :
    ((completeFormula ts slug).run r).1 =
      match ts.get? slug with
      | none => .ok ts
      | some t => (r.deriveFacts t).map fun facts => ts.insert slug { t with facts? := some facts } := by
  unfold completeFormula
  cases ts.get? slug with
  | none => rfl
  | some t =>
    dsimp only
    rw [run_get_bind, run_lift_bind]
    rfl

/-- The answer to a calculation: all that it names is resolved as required, and without the taxons
that aggregations name. -/
theorem answerTo_formula (c company : String) :
    r.answerTo company [metricFormula c] = (do
      let named ← Formula.usedSlugs c r.dataSources?
      let used ← (r.afterQuery c company).resolveWith r.dataSources? false named.all
      let t := queried c company
      let ts := (SortedMap.ofList [(t.slug, t)]).merge used.all
      match ts.get? t.slug with
      | none => .ok ts
      | some u =>
        ((r.afterQuery c company).deriveFacts u).map
          fun facts => ts.insert t.slug { u with facts? := some facts }) := by
  have split : [metricFormula c].partition Slug.isFormula = ([metricFormula c], []) := by
    simp [List.partition_eq_filter_filter, isFormula_metricFormula]
  have nothing : r.resolve (.ofList []) = .ok .empty := rfl
  have single (s : NameSet) : SortedSet.unions [s] = s := by
    refine SortedSet.ext fun x => ?_
    rw [SortedSet.mem_unions]
    simp
  unfold answerTo resolveRequest
  rw [split]
  dsimp only
  rw [run_get_bind, run_lift_bind, nothing]
  change ((if [metricFormula c].isEmpty = true then _ else _ : Session TaxonMap).run r).1 = _
  rw [if_neg (by simp), run_bind, List.mapM_cons, List.mapM_nil, run_bind, run_addFormula]
  cases Formula.usedSlugs c r.dataSources? with
  | error e => rfl
  | ok named =>
    dsimp only
    rw [run_bind, run_pure]
    dsimp only
    rw [run_pure]
    dsimp only
    rw [run_get_bind, run_lift_bind, List.map_cons, List.map_nil, single]
    refine Result.bind_congr fun used _ => ?_
    rw [List.map_cons, List.map_nil, List.map_cons, List.map_nil, List.foldlM_cons]
    simp only [List.foldlM_nil, bind_pure, run_completeFormula]
    rfl

/-! ## Resolvers that differ in one taxon -/

/-- Whether two resolvers know the same taxons but for one slug, which no calculation of the first
names. -/
structure DifferAt (r r' : Resolver) (slug : String) : Prop where
  same : ∀ s, s ≠ slug → r'.taxons.get? s = r.taxons.get? s
  unnamed : ∀ s u, r.Names none s u → slug ∉ u.all

namespace DifferAt

variable {used : UsedTaxons} {seen slugs : UsedSlugs} (k : r.DifferAt r' slug)
include k

theorem not_named {s : String} {u : UsedSlugs} (h : r.Names dataSources? s u) : slug ∉ u.all := by
  obtain ⟨v, names, _, all⟩ := h.unrestricted
  exact fun hs => k.unnamed s v names (all slug hs)

theorem load_eq {slugs : NameSet} (proper : ∀ s ∈ slugs, Slug.isFormula s = false)
    (other : slug ∉ slugs) (all : Bool) : r'.load slugs all = r.load slugs all := by
  have own (s : NameSet) (hs : ∀ x ∈ s, x ∈ slugs) : r'.taxons.restrict s = r.taxons.restrict s := by
    refine SortedMap.ext fun x t => ?_
    rw [get?_restrict, get?_restrict]
    refine and_congr_left fun hx => ?_
    rw [k.same x fun e => other (e ▸ hs x hx)]
  have formulas (r : Resolver) : r.temporary.restrict (slugs.filter Slug.isFormula) = .empty := by
    refine restrict_of_isEmpty (SortedSet.isEmpty_iff.2 fun s hs => ?_)
    obtain ⟨hs, formula⟩ := SortedSet.mem_filter.1 hs
    exact Bool.false_ne_true ((proper s hs).symm.trans formula)
  unfold load
  dsimp only
  rw [own _ fun x hx => (SortedSet.mem_filter.1 hx).1, formulas, formulas]

theorem round_eq (proper : Proper slugs) (other : slug ∉ slugs.all) :
    r'.round dataSources? seen slugs = r.round dataSources? seen slugs := by
  unfold round loadRound
  rw [k.load_eq proper.required fun h => other (UsedSlugs.mem_all.2 (.inl h)),
    k.load_eq proper.optional fun h => other (UsedSlugs.mem_all.2 (.inr h))]
  rfl

/-- They resolve what both know in the same way. -/
theorem resolves_eq {result result' : Result UsedTaxons}
    (h : Resolves r dataSources? used seen slugs result)
    (h' : Resolves r' dataSources? used seen slugs result') (proper : Proper slugs)
    (other : slug ∉ slugs.all) : result' = result := by
  induction h generalizing result' with
  | done none =>
    cases h' with
    | done => rfl
    | fails some => cases none.symm.trans some
    | next some => cases none.symm.trans some
  | fails some round =>
    cases h' with
    | done none => cases some.symm.trans none
    | fails _ round' =>
      rw [k.round_eq proper other, round] at round'
      cases round'
      rfl
    | next _ round' =>
      rw [k.round_eq proper other, round] at round'
      cases round'
  | next some round _ ih =>
    cases h' with
    | done none => cases some.symm.trans none
    | fails _ round' =>
      rw [k.round_eq proper other, round] at round'
      cases round'
    | next _ round' rest =>
      rw [k.round_eq proper other, round] at round'
      cases round'
      have succeeds := round_eq_ok proper round
      refine ih rest succeeds.proper fun hs => ?_
      rcases UsedSlugs.mem_all.1 hs with hs | hs
      · obtain ⟨_, _, _, u, names, hs⟩ := (succeeds.nextRequired slug).1 hs
        exact k.not_named names (UsedSlugs.mem_all.2 (.inl hs))
      · obtain ⟨_, _, _, u, names, hs⟩ | ⟨_, _, _, u, names, hs⟩ :=
          (succeeds.nextOptional slug).1 hs
        · exact k.not_named names (UsedSlugs.mem_all.2 (.inr hs))
        · exact k.not_named names hs

theorem resolveWith_eq {asked : NameSet} (proper : ∀ s ∈ asked, Slug.isFormula s = false)
    (other : slug ∉ asked) :
    r'.resolveWith dataSources? false asked = r.resolveWith dataSources? false asked :=
  k.resolves_eq (resolveWith_resolves proper) (resolveWith_resolves proper) (proper_asked proper)
    fun h => (UsedSlugs.mem_all.1 h).elim other (nomatch ·)

theorem reached_ne {asked : NameSet} (other : slug ∉ asked) {s : String}
    (h : Reached r dataSources? asked s) : s ≠ slug := by
  rintro rfl
  cases h with
  | asked h => exact other h
  | named _ names hx => exact k.not_named names hx

end DifferAt

/-- Taxons of one definition have the same facts, unless they name one of themselves. -/
theorem deriveFacts_congr {t u : Taxon} {used : UsedTaxons} (same : u.definition = t.definition)
    (ht : t.slug ∉ used.required.keys ∧ t.slug ∉ used.optional.keys)
    (hu : u.slug ∉ used.required.keys ∧ u.slug ∉ used.optional.keys) :
    u.deriveFacts used = t.deriveFacts used := by
  have left (t : Taxon) (h : t.slug ∉ used.required.keys ∧ t.slug ∉ used.optional.keys) :
      used.erase t.slug = used := by
    unfold UsedTaxons.erase
    rw [SortedMap.erase_of_notMem h.1, SortedMap.erase_of_notMem h.2]
  have calculation : u.calculation? = t.calculation? := by
    unfold Taxon.calculation?
    rw [same]
  have aggregation : u.aggregation? = t.aggregation? := by
    unfold Taxon.aggregation?
    rw [same]
  unfold Taxon.deriveFacts
  rw [left t ht, left u hu, calculation, aggregation]

/-- What a calculation uses is what its references lead to. -/
theorem reached_of_usedInDefinition {t : Taxon} {c : String} (defined : t.definition = .computed c)
    {used : UsedTaxons} (h : r.usedInDefinition t = .ok used) :
    ∃ named, Formula.usedSlugs c none = .ok named ∧
      ∀ s, s ∈ used.required.keys ∨ s ∈ used.optional.keys → Reached r none named.all s := by
  unfold usedInDefinition at h
  rw [defined] at h
  obtain ⟨named, read, h⟩ := Result.bind_eq_ok.1 h
  obtain ⟨required, hrequired, h⟩ := Result.bind_eq_ok.1 h
  obtain ⟨optional, hoptional, h⟩ := Result.bind_eq_ok.1 h
  cases h
  obtain ⟨_, _, proper⟩ := Formula.usedSlugs_names read
  have collects := resolveWith_collects
    (fun s hs => (proper s (UsedSlugs.mem_all.2 (.inl hs))).2) hrequired
  have collects' := resolveWith_collects
    (fun s hs => (proper s (UsedSlugs.mem_all.2 (.inr hs))).2) hoptional
  have first (s : String) (hs : s ∈ required.required.keys ∨ s ∈ required.optional.keys) :
      Reached r none named.all s :=
    (collects.reached_of_mem hs).mono fun x hx => UsedSlugs.mem_all.2 (.inl hx)
  have second (s : String) (hs : s ∈ optional.required.keys ∨ s ∈ optional.optional.keys) :
      Reached r none named.all s :=
    (collects'.reached_of_mem hs).mono fun x hx => UsedSlugs.mem_all.2 (.inr hx)
  refine ⟨named, read, fun s hs => ?_⟩
  rcases hs with hs | hs
  · exact first s (.inl hs)
  · rcases SortedMap.mem_keys_merge.1 hs with hs | hs
    · rcases SortedMap.mem_keys_merge.1 hs with hs | hs
      · exact second s (.inr hs)
      · exact second s (.inl hs)
    · exact first s (.inr hs)

/-- The facts of a calculation do not depend on the slug of its taxon. -/
theorem DifferAt.deriveFacts_eq (k : r.DifferAt r' slug) {t u : Taxon} {c : String}
    (ht : t.definition = .computed c) (hu : u.definition = .computed c)
    (own : ∀ named, Formula.usedSlugs c none = .ok named → slug ∉ named.all)
    (ht' : t.slug = slug ∨ Slug.isFormula t.slug = true)
    (hu' : u.slug = slug ∨ Slug.isFormula u.slug = true) :
    r'.deriveFacts u = r.deriveFacts t := by
  have used : r'.usedInDefinition u = r.usedInDefinition t := by
    unfold usedInDefinition
    rw [ht, hu]
    refine Result.bind_congr fun named read => ?_
    obtain ⟨_, _, proper⟩ := Formula.usedSlugs_names read
    rw [k.resolveWith_eq (fun s hs => (proper s (UsedSlugs.mem_all.2 (.inl hs))).2)
        fun h => own named read (UsedSlugs.mem_all.2 (.inl h)),
      k.resolveWith_eq (fun s hs => (proper s (UsedSlugs.mem_all.2 (.inr hs))).2)
        fun h => own named read (UsedSlugs.mem_all.2 (.inr h))]
  unfold deriveFacts
  rw [used]
  refine Result.bind_congr fun used found => ?_
  obtain ⟨named, read, reached⟩ := reached_of_usedInDefinition ht found
  obtain ⟨_, _, proper⟩ := Formula.usedSlugs_names read
  have other (t : Taxon) (h : t.slug = slug ∨ Slug.isFormula t.slug = true) :
      t.slug ∉ used.required.keys ∧ t.slug ∉ used.optional.keys := by
    have absent (hs : t.slug ∈ used.required.keys ∨ t.slug ∈ used.optional.keys) : False := by
      have hs := reached _ hs
      rcases h with same | formula
      · exact k.reached_ne (own named read) hs same
      · exact Bool.false_ne_true ((hs.proper fun s hs => (proper s hs).2).symm.trans formula)
    exact ⟨fun h => absent (.inl h), fun h => absent (.inr h)⟩
  exact deriveFacts_congr (hu.trans ht.symm) (other t ht') (other u hu')

/-! ## A stored calculation -/

/-- A resolver that knows one more taxon. -/
def storing (r : Resolver) (t : Taxon) : Resolver :=
  { r with taxons := r.taxons.insert t.slug t }

/-- A metric with a calculation, under a slug that is not taken and that nothing names. -/
structure IsNew (r : Resolver) (t : Taxon) (c : String) : Prop where
  metric : t.type = .metric
  definition : t.definition = .computed c
  facts : t.facts? = none
  proper : Slug.isFormula t.slug = false
  absent : t.slug ∉ r.taxons.keys
  unnamed : ∀ s u, r.Names none s u → t.slug ∉ u.all
  unaggregated : ∀ s, ¬ r.AggregatesBy s t.slug
  own : ∀ named, Formula.usedSlugs c none = .ok named → t.slug ∉ named.all

theorem required_sub (u : UsedSlugs) (x : String) (hx : x ∈ u.required) : x ∈ u.all :=
  UsedSlugs.mem_all.2 (.inl hx)

namespace IsNew

variable {t u : Taxon} {c company s x y : String} {named : UsedSlugs} (k : r.IsNew t c)
include k

theorem get?_storing :
    (r.storing t).taxons.get? s = some u ↔ s = t.slug ∧ u = t ∨ r.taxons.get? s = some u := by
  refine SortedMap.get?_insert_eq_some_iff.trans (or_congr_right (and_iff_right_of_imp fun found => ?_))
  rintro rfl
  exact k.absent (SortedMap.mem_keys.2 ⟨u, SortedMap.get?_eq_some_iff.1 found⟩)

theorem mem_storing : (s, u) ∈ (r.storing t).taxons.toList ↔
    s = t.slug ∧ u = t ∨ (s, u) ∈ r.taxons.toList := by
  rw [← SortedMap.get?_eq_some_iff, ← SortedMap.get?_eq_some_iff, k.get?_storing]

theorem mem_keys_storing : s ∈ (r.storing t).taxons.keys ↔ s = t.slug ∨ s ∈ r.taxons.keys := by
  rw [SortedMap.mem_keys, SortedMap.mem_keys]
  simp only [k.mem_storing, exists_or]
  exact or_congr_left ⟨fun ⟨_, h, _⟩ => h, fun h => ⟨t, h, rfl⟩⟩

theorem differAt_storing : r.DifferAt (r.storing t) t.slug where
  same := fun s hs => Option.ext fun u => by
    rw [k.get?_storing, or_iff_right fun h => hs h.1]
  unnamed := k.unnamed

theorem differAt_afterQuery : r.DifferAt (r.afterQuery c company) t.slug :=
  ⟨fun _ _ => rfl, k.unnamed⟩

theorem computed : t.calculation? = some c := by rw [Taxon.calculation?, k.definition]

theorem names_storing : (r.storing t).Names dataSources? s named ↔
    s = t.slug ∧ Formula.usedSlugs c dataSources? = .ok named ∨ r.Names dataSources? s named := by
  unfold Names
  simp only [k.mem_storing]
  constructor
  · rintro ⟨u, c', ⟨rfl, rfl⟩ | known, computed, read⟩
    · cases computed.symm.trans k.computed
      exact .inl ⟨rfl, read⟩
    · exact .inr ⟨u, c', known, computed, read⟩
  · rintro (⟨rfl, read⟩ | ⟨u, c', known, computed, read⟩)
    · exact ⟨t, c, .inl ⟨rfl, rfl⟩, k.computed, read⟩
    · exact ⟨u, c', .inr known, computed, read⟩

theorem aggregatesBy_storing : (r.storing t).AggregatesBy s x ↔ r.AggregatesBy s x := by
  unfold AggregatesBy
  simp only [k.mem_storing]
  constructor
  · rintro ⟨u, a, ⟨rfl, rfl⟩ | known, aggregation, hx⟩
    · have none : u.knownAggregation? = none := by
        rw [Taxon.knownAggregation?, k.facts, Taxon.aggregation?, k.definition]
        rfl
      cases none.symm.trans aggregation
    · exact ⟨u, a, known, aggregation, hx⟩
  · rintro ⟨u, a, known, aggregation, hx⟩
    exact ⟨u, a, .inr known, aggregation, hx⟩

theorem not_aggregatesBy : ¬ r.AggregatesBy t.slug x :=
  fun ⟨u, _, known, _⟩ => k.absent (SortedMap.mem_keys.2 ⟨u, known⟩)

variable {kind : UsedSlugs → NameSet}

theorem loads_ne (sub : ∀ u x, x ∈ kind u → x ∈ u.all)
    (read : Formula.usedSlugs c dataSources? = .ok named)
    (h : Loads r dataSources? kind (kind named) y) : y ≠ t.slug := by
  rintro rfl
  obtain ⟨s, hs, rfl | aggregates⟩ := h
  · cases hs with
    | asked hs =>
      obtain ⟨v, read', required, optional⟩ := Formula.usedSlugs_mono read
      refine k.own v read' (UsedSlugs.mem_all.2 ?_)
      exact (UsedSlugs.mem_all.1 (sub _ _ hs)).imp (required _) (optional _)
    | named _ _ names hx => exact k.differAt_storing.not_named names (sub _ _ hx)
  · exact k.unaggregated s aggregates

/-- The stored taxon leads to itself and to what its calculation leads to. -/
theorem got_storing (read : Formula.usedSlugs c dataSources? = .ok named) :
    Got (r.storing t) dataSources? kind (.ofList [t.slug]) s ↔
      s = t.slug ∨ Got r dataSources? kind (kind named) s := by
  constructor
  · intro h
    induction h with
    | asked hs => exact .inl (List.mem_singleton.1 (SortedSet.mem_ofList.1 hs))
    | @named s y x u _ loads names hx ih =>
      rcases k.names_storing.1 names with ⟨rfl, read'⟩ | names
      · cases read.symm.trans read'
        exact .inr (.asked hx)
      · have known : y ≠ t.slug := fun e => k.absent (e ▸ names.mem_keys)
        rw [k.aggregatesBy_storing] at loads
        rcases ih with rfl | got
        · exact absurd loads fun loads => loads.elim known k.not_aggregatesBy
        · exact .inr (got.named loads names hx)
  · have itself : Got (r.storing t) dataSources? kind (.ofList [t.slug]) t.slug :=
      .asked (SortedSet.mem_ofList.2 (List.mem_singleton.2 rfl))
    rintro (rfl | h)
    · exact itself
    · induction h with
      | asked hs => exact itself.named (.inl rfl) (k.names_storing.2 (.inl ⟨rfl, read⟩)) hs
      | named _ loads names hx ih =>
        exact ih.named (loads.imp_right k.aggregatesBy_storing.2) (k.names_storing.2 (.inr names)) hx

theorem loads_storing (read : Formula.usedSlugs c dataSources? = .ok named) :
    Loads (r.storing t) dataSources? kind (.ofList [t.slug]) y ↔
      y = t.slug ∨ Loads r dataSources? kind (kind named) y := by
  unfold Loads
  simp only [k.got_storing read, k.aggregatesBy_storing]
  constructor
  · rintro ⟨s, rfl | got, loads⟩
    · exact .inl (loads.resolve_right k.not_aggregatesBy)
    · exact .inr ⟨s, got, loads⟩
  · rintro (rfl | ⟨s, got, loads⟩)
    · exact ⟨_, .inl rfl, .inl rfl⟩
    · exact ⟨s, .inr got, loads⟩

/-- The stored taxon is complete if what its calculation leads to is. -/
theorem isComplete_storing (read : Formula.usedSlugs c dataSources? = .ok named) :
    IsCompleteWithAggregations (r.storing t) dataSources? (.ofList [t.slug]) ↔
      (∀ y, Loads r dataSources? (·.required) named.required y → y ∈ r.taxons.keys) ∧
        ∀ y, Loads r dataSources? (·.all) named.all y → r.Parses y := by
  have parses (y : String) (other : y ≠ t.slug) : (r.storing t).Parses y ↔ r.Parses y := by
    unfold Parses
    simp only [k.mem_storing, other, false_and, false_or]
  constructor
  · intro h
    refine ⟨fun y hy => ?_, fun y hy => ?_⟩
    · have known := h.needed y ((k.loads_storing read).2 (.inr hy))
      exact (k.mem_keys_storing.1 known).resolve_left (k.loads_ne required_sub read hy)
    · rw [← parses y (k.loads_ne (fun _ _ h => h) read hy)]
      exact h.parses y ((k.loads_storing read).2 (.inr hy))
  · rintro ⟨needed, readable⟩
    refine ⟨fun y hy => k.mem_keys_storing.2 ?_, fun y hy => ?_⟩
    · exact ((k.loads_storing read).1 hy).imp_right (needed y)
    · rcases (k.loads_storing read).1 hy with rfl | hy
      · intro u c' known computed
        obtain ⟨_, rfl⟩ | known := k.mem_storing.1 known
        · cases computed.symm.trans k.computed
          exact Formula.exists_usedSlugs_iff.1 ⟨named, read⟩
        · exact absurd (SortedMap.mem_keys.2 ⟨u, known⟩) k.absent
      · rw [parses y (k.loads_ne (fun _ _ h => h) read hy)]
        exact readable y hy

/-! ## Both ways to ask -/

/-- The answer to a calculation: what it names, all of it required, and its taxon with its facts. -/
theorem answerTo_formula_eq (company : String) :
    r.answerTo company [metricFormula c] = (do
      let named ← Formula.usedSlugs c r.dataSources?
      let used ← r.resolveWith r.dataSources? false named.all
      (r.deriveFacts t).map fun facts =>
        used.all.insert (queried c company).slug { queried c company with facts? := some facts }) := by
  have facts : (r.afterQuery c company).deriveFacts (queried c company) = r.deriveFacts t :=
    k.differAt_afterQuery.deriveFacts_eq k.definition rfl k.own (.inl rfl)
      (.inr (isFormula_queried c company))
  rw [answerTo_formula]
  refine Result.bind_congr fun named read => ?_
  obtain ⟨_, _, proper⟩ := Formula.usedSlugs_names read
  obtain ⟨v, read', required, optional⟩ := Formula.usedSlugs_mono read
  have own : t.slug ∉ named.all := fun h => k.own v read'
    (UsedSlugs.mem_all.2 ((UsedSlugs.mem_all.1 h).imp (required _) (optional _)))
  rw [k.differAt_afterQuery.resolveWith_eq (fun s hs => (proper s hs).2) own]
  refine Result.bind_congr fun used resolved => ?_
  have collects := resolveWith_collects (fun s hs => (proper s hs).2) resolved
  have absent : (queried c company).slug ∉ used.all.keys := fun h => by
    have reached := collects.reached_of_mem (SortedMap.mem_keys_merge.1 h)
    have other := reached.proper fun s hs => (proper s hs).2
    exact Bool.false_ne_true (other.symm.trans (isFormula_queried c company))
  have single : SortedMap.ofList [((queried c company).slug, queried c company)] =
      SortedMap.empty.insert (queried c company).slug (queried c company) := rfl
  have made : ((SortedMap.empty.insert (queried c company).slug (queried c company)).merge
      used.all).get? (queried c company).slug = some (queried c company) := by
    rw [SortedMap.get?_merge, SortedMap.get?_eq_none_iff.2 absent, Option.none_or, SortedMap.get?_insert_eq_some_iff]
    exact .inl ⟨rfl, rfl⟩
  dsimp only
  rw [single, made]
  dsimp only
  rw [facts]
  refine congrArg (fun f => (r.deriveFacts t).map f) (funext fun facts => ?_)
  refine SortedMap.ext fun s u => ?_
  rw [SortedMap.get?_insert_eq_some_iff, SortedMap.get?_insert_eq_some_iff, SortedMap.get?_merge, Option.or_eq_some_iff, SortedMap.get?_insert_eq_some_iff]
  have nothing : SortedMap.get? (SortedMap.empty : TaxonMap) s = none := rfl
  rw [nothing]
  refine or_congr_right (and_congr_right fun other => ?_)
  simp [other]

theorem deriveFacts_storing : (r.storing t).deriveFacts t = r.deriveFacts t :=
  k.differAt_storing.deriveFacts_eq k.definition k.definition k.own (.inl rfl) (.inl rfl)

/-- A calculation whose facts can be derived has everything that it leads to. -/
theorem isComplete_of_deriveFacts (dataSources? : Option NameSet) {facts : FormulaFacts}
    (h : r.deriveFacts t = .ok facts) :
    ∃ named, Formula.usedSlugs c dataSources? = .ok named ∧
      IsComplete r dataSources? named.all := by
  obtain ⟨used, hused, _⟩ := Result.bind_eq_ok.1 h
  have defined := exists_usedInDefinition_iff.1 ⟨used, hused⟩
  rw [k.definition] at defined
  obtain ⟨v, read, required, optional⟩ := defined
  obtain ⟨named, read'⟩ : ∃ named, Formula.usedSlugs c dataSources? = .ok named :=
    Formula.exists_usedSlugs_iff.2 (Formula.exists_usedSlugs_iff.1 ⟨v, read⟩)
  obtain ⟨v', read'', sub, subOptional⟩ := Formula.usedSlugs_mono read'
  cases read.symm.trans read''
  have within (s : String) (hs : s ∈ named.all) : s ∈ v.required ∨ s ∈ v.optional :=
    (UsedSlugs.mem_all.1 hs).imp (sub s) (subOptional s)
  refine ⟨named, read', IsComplete.restricted ⟨fun s hs => ?_, fun s hs => ?_⟩⟩
  · have split : Needed r none v.required s ∨ Needed r none v.optional s := by
      induction hs with
      | asked hs => exact (within _ hs).imp .asked .asked
      | named _ names hx ih => exact ih.imp (·.named names hx) (·.named names hx)
    exact split.elim (required.needed s) (optional.needed s)
  · have split : Reached r none v.required s ∨ Reached r none v.optional s := by
      induction hs with
      | asked hs => exact (within _ hs).imp .asked .asked
      | named _ names hx ih => exact ih.imp (·.named names hx) (·.named names hx)
    exact split.elim (required.parses s) (optional.parses s)

/-- A calculation is answered exactly if its facts can be derived. -/
theorem exists_answerTo_formula_iff (company : String) :
    (∃ found, r.answerTo company [metricFormula c] = .ok found) ↔
      ∃ facts, r.deriveFacts t = .ok facts := by
  rw [k.answerTo_formula_eq]
  constructor
  · rintro ⟨found, h⟩
    obtain ⟨named, _, h⟩ := Result.bind_eq_ok.1 h
    obtain ⟨used, _, h⟩ := Result.bind_eq_ok.1 h
    obtain ⟨facts, h, _⟩ := Result.map_eq_ok.1 h
    exact ⟨facts, h⟩
  · rintro ⟨facts, h⟩
    obtain ⟨named, read, complete⟩ := k.isComplete_of_deriveFacts r.dataSources? h
    obtain ⟨_, _, proper⟩ := Formula.usedSlugs_names read
    obtain ⟨used, resolved⟩ := (exists_resolveWith_iff fun s hs => (proper s hs).2).2 complete
    exact ⟨_, Result.bind_eq_ok.2 ⟨named, read, Result.bind_eq_ok.2 ⟨used, resolved,
      Result.map_eq_ok.2 ⟨facts, h, rfl⟩⟩⟩⟩

end IsNew

/-- Whether asking for a calculation is asking for a taxon that is stored with it: it is answered
if the taxon is and has facts, and then with the same taxons but for the two of the calculation,
whose facts are the same. -/
structure QueriesAsStored (r : Resolver) (company c : String) (t : Taxon) : Prop where
  succeeds : (∃ found, r.answerTo company [metricFormula c] = .ok found) ↔
    (∃ found, (r.storing t).answerTo company [t.slug] = .ok found) ∧
      ∃ facts, (r.storing t).deriveFacts t = .ok facts
  same : ∀ found found' facts, r.answerTo company [metricFormula c] = .ok found →
    (r.storing t).answerTo company [t.slug] = .ok found' →
    (r.storing t).deriveFacts t = .ok facts →
      found.erase (Slug.withoutQuotes (metricFormula c)) = found'.erase t.slug ∧
      found'.get? t.slug = some t ∧
      ∃ u, found.get? (Slug.withoutQuotes (metricFormula c)) = some u ∧ u.calculation? = some c ∧
        u.type = t.type ∧ u.facts? = some facts

/-- Whether the taxons that aggregations name are no others than those that references lead to:
what a taxon needs is there, those that its aggregation names included, and a taxon that some
aggregation on the way names is reached without it. -/
structure AggregatesWithin (r : Resolver) (named : UsedSlugs) : Prop where
  needed : ∀ s, Loads r r.dataSources? (·.required) named.required s → s ∈ r.taxons.keys
  reached : ∀ s x, Reached r r.dataSources? named.all s → r.AggregatesBy s x →
    x ∈ r.taxons.keys → Reached r r.dataSources? named.all x

theorem Reached.got {asked : NameSet} {s : String} (h : Reached r dataSources? asked s) :
    Got r dataSources? (·.all) asked s := by
  induction h with
  | asked h => exact .asked h
  | named _ names hx ih => exact ih.named (.inl rfl) names hx

theorem AggregatesWithin.reached_of_loads {named : UsedSlugs} (h : r.AggregatesWithin named)
    {y : String} (hy : Loads r r.dataSources? (·.all) named.all y) (known : y ∈ r.taxons.keys) :
    Reached r r.dataSources? named.all y := by
  obtain ⟨s, got, loads⟩ := hy
  have follows (s y : String) (hs : Reached r r.dataSources? named.all s)
      (loads : y = s ∨ r.AggregatesBy s y) (known : y ∈ r.taxons.keys) :
      Reached r r.dataSources? named.all y := by
    rcases loads with rfl | aggregates
    · exact hs
    · exact h.reached s y hs aggregates known
  refine follows s y ?_ loads known
  clear loads known
  induction got with
  | asked hs => exact .asked hs
  | named _ loads names hx ih => exact (follows _ _ ih loads names.mem_keys).named names hx

namespace IsNew

variable {t : Taxon} {c company : String} {named : UsedSlugs} {found : TaxonMap} (k : r.IsNew t c)
include k

/-- Besides its own taxon, a calculation is answered with the taxons that its references lead to. -/
theorem answerTo_formula_collects (read : Formula.usedSlugs c r.dataSources? = .ok named)
    (h : r.answerTo company [metricFormula c] = .ok found) (s : String) (u : Taxon) :
    (found.erase (Slug.withoutQuotes (metricFormula c))).get? s = some u ↔
      Reached r r.dataSources? named.all s ∧ (s, u) ∈ r.taxons.toList := by
  rw [k.answerTo_formula_eq] at h
  obtain ⟨named', read', h⟩ := Result.bind_eq_ok.1 h
  cases read.symm.trans read'
  obtain ⟨used, resolved, h⟩ := Result.bind_eq_ok.1 h
  obtain ⟨facts, _, rfl⟩ := Result.map_eq_ok.1 h
  obtain ⟨_, _, proper⟩ := Formula.usedSlugs_names read
  have collects := resolveWith_collects (fun s hs => (proper s hs).2) resolved
  have known (s : String) (u : Taxon) (hu : (s, u) ∈ used.required.toList ∨
      (s, u) ∈ used.optional.toList) : (s, u) ∈ r.taxons.toList :=
    hu.elim (fun hu => ((collects.required s u).1 hu).2) fun hu => (collects.optional s u hu).2
  have all : used.all.get? s = some u ↔
      Reached r r.dataSources? named.all s ∧ (s, u) ∈ r.taxons.toList := by
    rw [SortedMap.get?_eq_some_iff, mem_toList_all known]
    refine and_congr_left fun hu => ⟨collects.reached_of_mem, fun hs => ?_⟩
    exact collects.reached s hs (SortedMap.mem_keys.2 ⟨u, hu⟩)
  rw [SortedMap.get?_erase, SortedMap.get?_insert_eq_some_iff, ← all]
  constructor
  · rintro ⟨⟨rfl, _⟩ | ⟨_, found⟩, other⟩
    · exact absurd rfl other
    · exact found
  · intro found
    have other : s ≠ Slug.withoutQuotes (metricFormula c) := by
      rintro rfl
      have own := (all.1 found).1.proper fun s hs => (proper s hs).2
      exact Bool.false_ne_true (own.symm.trans (isFormula_queried c company))
    exact ⟨.inr ⟨other, found⟩, other⟩

theorem calculation_answerTo_formula {facts : FormulaFacts} (derived : r.deriveFacts t = .ok facts)
    (h : r.answerTo company [metricFormula c] = .ok found) :
    found.get? (Slug.withoutQuotes (metricFormula c)) =
      some { queried c company with facts? := some facts } := by
  rw [k.answerTo_formula_eq] at h
  obtain ⟨_, _, h⟩ := Result.bind_eq_ok.1 h
  obtain ⟨_, _, h⟩ := Result.bind_eq_ok.1 h
  obtain ⟨facts', derived', rfl⟩ := Result.map_eq_ok.1 h
  cases derived.symm.trans derived'
  exact SortedMap.get?_insert_eq_some_iff.2 (.inl ⟨rfl, rfl⟩)

theorem proper_own : ∀ s ∈ (SortedSet.ofList [t.slug] : NameSet), Slug.isFormula s = false := by
  intro s hs
  rw [List.mem_singleton.1 (SortedSet.mem_ofList.1 hs)]
  exact k.proper

theorem answerTo_storing (aggregates : r.withAggregationTaxons = true) (company : String) :
    (r.storing t).answerTo company [t.slug] =
      ((r.storing t).resolveWith r.dataSources? true (.ofList [t.slug])).map (·.all) := by
  rw [answerTo_slug company k.proper, resolve]
  exact congrArg (fun b => ((r.storing t).resolveWith r.dataSources? b _).map (·.all)) aggregates

section
variable (aggregates : r.withAggregationTaxons = true) (none : r.temporary = .empty)
  (read : Formula.usedSlugs c r.dataSources? = .ok named)
include aggregates none read

/-- The stored taxon is answered with all that its calculation leads to. -/
theorem answerTo_storing_collects (h : (r.storing t).answerTo company [t.slug] = .ok found)
    (s : String) (u : Taxon) :
    found.get? s = some u ↔ s = t.slug ∧ u = t ∨
      Loads r r.dataSources? (·.all) named.all s ∧ (s, u) ∈ r.taxons.toList := by
  rw [k.answerTo_storing aggregates] at h
  obtain ⟨used, resolved, rfl⟩ := Result.map_eq_ok.1 h
  have collects := (resolveWith_aggregations_outcome (r := r.storing t) none k.proper_own).1 used
    resolved
  rw [SortedMap.get?_eq_some_iff, collects s u, k.loads_storing read, k.mem_storing]
  constructor
  · rintro ⟨loads, own | known⟩
    · exact .inl own
    · refine .inr ⟨loads.resolve_left ?_, known⟩
      rintro rfl
      exact k.absent (SortedMap.mem_keys.2 ⟨u, known⟩)
  · rintro (own | ⟨loads, known⟩)
    · exact ⟨.inl own.1, .inl own⟩
    · exact ⟨.inr loads, .inr known⟩

theorem exists_answerTo_storing_iff :
    (∃ found, (r.storing t).answerTo company [t.slug] = .ok found) ↔
      (∀ y, Loads r r.dataSources? (·.required) named.required y → y ∈ r.taxons.keys) ∧
        ∀ y, Loads r r.dataSources? (·.all) named.all y → r.Parses y := by
  rw [k.answerTo_storing aggregates, Result.exists_map_ok,
    (resolveWith_aggregations_outcome (r := r.storing t) none k.proper_own).2]
  exact k.isComplete_storing read

end

end IsNew

variable {t : Taxon} {c company : String}

/-- Asking for a calculation is asking for a taxon that is stored with it exactly if, where its
facts can be derived, aggregations name no taxons that its references do not lead to. -/
theorem queriesAsStored_iff (aggregates : r.withAggregationTaxons = true)
    (none : r.temporary = .empty) (k : r.IsNew t c) :
    r.QueriesAsStored company c t ↔ ∀ named facts,
      Formula.usedSlugs c r.dataSources? = .ok named → r.deriveFacts t = .ok facts →
        r.AggregatesWithin named := by
  constructor
  · intro h named facts read derived
    obtain ⟨found, direct⟩ := (k.exists_answerTo_formula_iff company).2 ⟨facts, derived⟩
    obtain ⟨⟨found', indirect⟩, _⟩ := h.succeeds.1 ⟨found, direct⟩
    obtain ⟨needed, _⟩ :=
      (k.exists_answerTo_storing_iff aggregates none read).1 ⟨found', indirect⟩
    refine ⟨needed, fun s x hs names known => ?_⟩
    obtain ⟨u, hu⟩ := SortedMap.mem_keys.1 known
    obtain ⟨same, _⟩ := h.same found found' facts direct indirect (k.deriveFacts_storing.trans derived)
    refine ((k.answerTo_formula_collects read direct x u).1 ?_).1
    rw [same, SortedMap.get?_erase, k.answerTo_storing_collects aggregates none read indirect]
    refine ⟨.inr ⟨⟨s, hs.got, .inr names⟩, hu⟩, ?_⟩
    rintro rfl
    exact k.absent known
  · intro within
    refine ⟨?_, fun found found' facts direct indirect derived => ?_⟩
    · rw [k.exists_answerTo_formula_iff, k.deriveFacts_storing]
      refine (and_iff_right_of_imp ?_).symm
      rintro ⟨facts, derived⟩
      obtain ⟨named, read, complete⟩ :=
        k.isComplete_of_deriveFacts r.dataSources? derived
      have within := within named facts read derived
      refine (k.exists_answerTo_storing_iff aggregates none read).2 ⟨within.needed, ?_⟩
      intro y hy u c' known computed
      have reached := within.reached_of_loads hy (SortedMap.mem_keys.2 ⟨u, known⟩)
      exact complete.parses y reached u c' known computed
    · rw [k.deriveFacts_storing] at derived
      obtain ⟨named, read, _⟩ := k.isComplete_of_deriveFacts r.dataSources? derived
      have within := within named facts read derived
      have collects := k.answerTo_storing_collects aggregates none read indirect
      refine ⟨SortedMap.ext fun s u => ?_, (collects _ _).2 (.inl ⟨rfl, rfl⟩), _,
        k.calculation_answerTo_formula derived direct, rfl, k.metric.symm, rfl⟩
      rw [k.answerTo_formula_collects read direct, SortedMap.get?_erase, collects]
      constructor
      · rintro ⟨reached, known⟩
        refine ⟨.inr ⟨reached.got.loads, known⟩, ?_⟩
        rintro rfl
        exact k.absent (SortedMap.mem_keys.2 ⟨u, known⟩)
      · rintro ⟨⟨rfl, _⟩ | ⟨loads, known⟩, other⟩
        · exact absurd rfl other
        · exact ⟨within.reached_of_loads loads (SortedMap.mem_keys.2 ⟨u, known⟩), known⟩

/-! ### A balance that is the last one by day -/

def balanceResolver : Resolver :=
  let raw (slug : String) (type : TaxonType) (aggregation : Aggregation) : Taxon :=
    ⟨slug, slug, none, type, .raw aggregation, .defaultFor type, "acme", none, none, none⟩
  ⟨Taxon.mapOf [raw "day" .dimension .groupBy, raw "credit" .metric .sum,
    raw "balance" .metric (.lastBy [⟨"day", none⟩])], none, true, .empty⟩

theorem balance_not_names {s : String} {u : UsedSlugs} :
    ¬ balanceResolver.Names dataSources? s u := by
  rintro ⟨t, c, known, computed, _⟩
  have raw : ∀ e ∈ balanceResolver.taxons.toList, e.2.calculation? = none := by decide +kernel
  cases (raw _ known).symm.trans computed

theorem balance_aggregatesBy {s x : String} (h : balanceResolver.AggregatesBy s x) : x = "day" := by
  obtain ⟨t, a, known, aggregation, hx, _⟩ := h
  have days : ∀ e ∈ balanceResolver.taxons.toList,
      e.2.knownAggregation?.all fun a => a.usedSlugs.toList.all (· = "day") := by decide +kernel
  have day := days _ known
  rw [aggregation] at day
  exact of_decide_eq_true (List.all_eq_true.1 day x hx)

/-- A total that is stored with a calculation which does not name it. -/
theorem balance_isNew {c : String}
    (own : (Formula.usedSlugs c none).toOption.any fun named => "total" ∉ named.all) :
    balanceResolver.IsNew (.ofFormula "total" c .metric "acme") c where
  metric := rfl
  definition := rfl
  facts := rfl
  proper := show Slug.isFormula "total" = false by decide
  absent := show "total" ∉ balanceResolver.taxons.keys by decide +kernel
  unnamed := fun _ _ h => absurd h balance_not_names
  unaggregated := fun _ h => absurd (balance_aggregatesBy h) (show "total" ≠ "day" by decide)
  own := fun named read => by
    rw [read] at own
    exact of_decide_eq_true own

/-- Where a calculation names the day as well, it is the same to store it. -/
theorem queriesAsStored_known_balance :
    let c := "iff(day? IS NULL, credit, balance)"
    let t : Taxon := .ofFormula "total" c .metric "acme"
    balanceResolver.IsNew t c ∧
      (balanceResolver.answerTo "acme" [metricFormula c]).toOption.isSome ∧
      balanceResolver.QueriesAsStored "acme" c t := by
  intro c t
  have new : balanceResolver.IsNew t c := balance_isNew (by decide +kernel)
  refine ⟨new, by decide +kernel, (queriesAsStored_iff rfl rfl new).2 fun named _ read _ => ?_⟩
  have names : (Formula.usedSlugs c none).toOption.any fun named =>
      (∀ s ∈ named.required.toList, s ∈ ["balance", "credit", "day"]) ∧ "day" ∈ named.all := by
    decide +kernel
  rw [show Formula.usedSlugs c none = .ok named from read] at names
  obtain ⟨required, day⟩ := of_decide_eq_true names
  have known : ∀ s ∈ ["balance", "credit", "day"], s ∈ balanceResolver.taxons.keys := by
    decide +kernel
  refine ⟨fun y hy => ?_, fun s x _ aggregates _ => .asked (balance_aggregatesBy aggregates ▸ day)⟩
  obtain ⟨s, got, rfl | aggregates⟩ := hy
  · cases got with
    | asked hs => exact known y (required y hs)
    | named _ _ names => exact absurd names balance_not_names
  · rw [balance_aggregatesBy aggregates]
    exact known "day" (by decide)

/-- A calculation that names the balance alone is answered without the day that it is the last by,
and a total that is stored with it is answered with the day. -/
theorem not_queriesAsStored_balance :
    let t : Taxon := .ofFormula "total" "balance + credit" .metric "acme"
    balanceResolver.IsNew t "balance + credit" ∧
      (∃ found, balanceResolver.answerTo "acme" [metricFormula "balance + credit"] = .ok found ∧
        found.keys = ["=m:balance + credit", "balance", "credit"]) ∧
      (∃ found, (balanceResolver.storing t).answerTo "acme" ["total"] = .ok found ∧
        found.keys = ["balance", "credit", "day", "total"]) ∧
      ¬ balanceResolver.QueriesAsStored "acme" "balance + credit" t := by
  intro t
  have direct : (balanceResolver.answerTo "acme" [metricFormula "balance + credit"]).toOption.any
      fun found => found.keys = ["=m:balance + credit", "balance", "credit"] := by decide +kernel
  have indirect : ((balanceResolver.storing t).answerTo "acme" ["total"]).toOption.any
      fun found => found.keys = ["balance", "credit", "day", "total"] := by decide +kernel
  have derived : ((balanceResolver.storing t).deriveFacts t).toOption.any fun _ => true := by
    decide +kernel
  obtain ⟨found, hfound, keys⟩ := Result.ok_of_any direct
  obtain ⟨found', hfound', keys'⟩ := Result.ok_of_any indirect
  obtain ⟨facts, hfacts, _⟩ := Result.ok_of_any derived
  have keys := of_decide_eq_true keys
  have keys' := of_decide_eq_true keys'
  refine ⟨balance_isNew (by decide +kernel), ⟨found, hfound, keys⟩, ⟨found', hfound', keys'⟩, ?_⟩
  intro h
  obtain ⟨same, _⟩ := h.same found found' facts hfound hfound' hfacts
  have day : "day" ∈ found'.keys := by rw [keys']; decide
  obtain ⟨u, hu⟩ := SortedMap.mem_keys.1 day
  have kept : (found'.erase t.slug).get? "day" = some u :=
    SortedMap.get?_erase.2 ⟨SortedMap.get?_eq_some_iff.2 hu, show "day" ≠ "total" by decide⟩
  rw [← same] at kept
  have day' : "day" ∈ found.keys :=
    SortedMap.mem_keys.2 ⟨u, SortedMap.get?_eq_some_iff.1 (SortedMap.get?_erase.1 kept).1⟩
  rw [keys] at day'
  exact absurd day' (by decide)

end Resolver

end SemanticLayer
