import SemanticLayer.Proofs.Blend.AnsweredTaxons
import SemanticLayer.Proofs.Blend.AskedTaxons

/-!
# The order of what is asked for

A request and its parts list the taxons they ask for.  The answer depends on which taxons are
listed, and not on their order or on how often each stands there.

* `BlendRequest.AsksAlike`: two requests that list the same taxons;
* `BlendRequest.handed`: which part gets which taxons of the request, in one pass over the parts;
* `RequestTaxons.load_asksAlike`: such requests load the same taxons;
* `PlannedRequest.answer_asksAlike`, `answer_order_irrelevant`: they have the same answer.
-/

namespace SemanticLayer

open Result (Agree)

/-- Whether two parts list the same taxons, and are otherwise the same. -/
structure SourceRequest.AsksAlike (p q : SourceRequest) : Prop where
  taxons : ∀ s, s ∈ p.taxons ↔ s ∈ q.taxons
  rest : q = { p with taxons := q.taxons }

/-- Whether two requests, and each two of their parts, list the same taxons, and are otherwise the
same. -/
structure BlendRequest.AsksAlike (r s : BlendRequest) : Prop where
  parts : List.Forall₂ SourceRequest.AsksAlike r.parts s.parts
  taxons : ∀ t, t ∈ r.taxons ↔ t ∈ s.taxons
  rest : s = { r with parts := s.parts, taxons := s.taxons }

namespace SourceRequest.AsksAlike

variable {p q : SourceRequest}

/-- Whatever does not read the taxons of a part is the same for both. -/
theorem congr {α : Type} (h : p.AsksAlike q) (f : SourceRequest → α)
    (same : ∀ taxons, f { p with taxons } = f p) : f p = f q := by
  rw [h.rest]
  exact (same _).symm

theorem dataSource (h : p.AsksAlike q) : p.dataSource = q.dataSource := h.congr _ fun _ => rfl

end SourceRequest.AsksAlike

namespace BlendRequest

/-! ## Which part gets which taxons -/

/-- The data source that a taxon of the request is asked of; none for all parts. -/
def homeOf? (slug : String) : Option String :=
  if Slug.isFormula slug then none else Slug.dataSource? slug

/-- Whether a part gets a taxon of the request, unless one before it has taken it. -/
def accepts (p : SourceRequest) (slug : String) : Bool :=
  (homeOf? slug).all fun dataSource => p.dataSources.head? = some dataSource

/-- Whether the parts after one get a taxon of the request as well. -/
def passesOn (p : SourceRequest) (slug : String) : Bool := (homeOf? slug).isNone || !accepts p slug

/-- The parts with the taxons of the request that each of them gets.  A taxon of one data source is
taken by the first part of that source. -/
def handed : List String → List SourceRequest → List SourceRequest
  | _, [] => []
  | slugs, p :: ps =>
    { p with taxons := p.taxons ++ slugs.filter (accepts p) } ::
      handed (slugs.filter (passesOn p)) ps

theorem handed_nil (ps : List SourceRequest) : handed [] ps = ps := by
  induction ps with
  | nil => rfl
  | cons p ps ih => rw [handed, List.filter_nil, List.filter_nil, List.append_nil, ih]

theorem handed_append_of_home_none {slug : String} (home : homeOf? slug = none)
    (slugs : List String) (ps : List SourceRequest) :
    handed (slugs ++ [slug]) ps = (handed slugs ps).map fun p => p.addTaxon slug := by
  induction ps generalizing slugs with
  | nil => rfl
  | cons p ps ih =>
    have all : accepts p slug = true := by rw [accepts, home, Option.all_none]
    have kept : passesOn p slug = true := by rw [passesOn, home, Option.isNone_none, Bool.true_or]
    rw [handed, handed, List.filter_append, List.filter_append, List.filter_cons_of_pos all,
      List.filter_cons_of_pos kept, List.filter_nil, List.filter_nil, ih, List.map_cons,
      SourceRequest.addTaxon, List.append_assoc]

theorem handed_append_of_home {slug dataSource : String} (home : homeOf? slug = some dataSource)
    (slugs : List String) (ps : List SourceRequest) :
    addToSource slug dataSource (handed slugs ps) =
      if ps.any fun p => p.dataSources.head? = some dataSource then
        some (handed (slugs ++ [slug]) ps)
      else none := by
  induction ps generalizing slugs with
  | nil => rfl
  | cons p ps ih =>
    rw [handed, handed, addToSource, List.any_cons, List.filter_append, List.filter_append]
    dsimp only
    by_cases own : p.dataSources.head? = some dataSource
    · have taken : accepts p slug = true := by rw [accepts, home]; simp [own]
      have gone : ¬ passesOn p slug = true := by simp [passesOn, home, taken]
      rw [if_pos own, decide_eq_true own, Bool.true_or, if_pos rfl, List.filter_cons_of_pos taken,
        List.filter_cons_of_neg gone, List.filter_nil, List.filter_nil, List.append_nil,
        SourceRequest.addTaxon, List.append_assoc]
    · have passed : accepts p slug = false := by rw [accepts, home]; simp [own]
      have kept : passesOn p slug = true := by simp [passesOn, passed]
      rw [if_neg own, decide_eq_false own, Bool.false_or, List.filter_cons_of_neg (by simp [passed]),
        List.filter_cons_of_pos kept, List.filter_nil, List.filter_nil, List.append_nil, ih]
      split <;> rfl

/-- Whether some part gets a taxon of the request. -/
def HasTaker (ps : List SourceRequest) (slug : String) : Prop :=
  ∀ dataSource ∈ homeOf? slug, ∃ p ∈ ps, p.dataSources.head? = some dataSource

theorem addToParts_handed (slugs : List String) (slug : String) (ps : List SourceRequest)
    {ps' : List SourceRequest} :
    addToParts (handed slugs ps) slug = .ok ps' ↔
      HasTaker ps slug ∧ handed (slugs ++ [slug]) ps = ps' := by
  have from_home : (if Slug.isFormula slug then none else Slug.dataSource? slug) = homeOf? slug := rfl
  unfold addToParts HasTaker
  rw [from_home]
  cases home : homeOf? slug with
  | none =>
    dsimp only
    rw [handed_append_of_home_none home, Except.ok.injEq]
    exact (and_iff_right fun _ h => nomatch h).symm
  | some dataSource =>
    dsimp only
    rw [handed_append_of_home home]
    have taker : (∀ d ∈ some dataSource, ∃ p ∈ ps, p.dataSources.head? = some d) ↔
        (ps.any fun p => p.dataSources.head? = some dataSource) = true := by
      simp [List.any_eq_true]
    rw [taker]
    by_cases found : (ps.any fun p => p.dataSources.head? = some dataSource) = true
    · rw [if_pos found, and_iff_right found]
      exact ⟨Except.ok.inj, congrArg Except.ok⟩
    · rw [if_neg found]
      exact iff_of_false (fun h => nomatch h) fun h => found h.1

/-- Handing out the taxons one by one comes to handing them out at once. -/
theorem foldlM_addToParts (slugs : List String) (ps : List SourceRequest)
    {ps' : List SourceRequest} :
    slugs.foldlM addToParts ps = .ok ps' ↔ (∀ s ∈ slugs, HasTaker ps s) ∧ handed slugs ps = ps' := by
  induction slugs using List.reverseRecOn generalizing ps' with
  | nil =>
    rw [handed_nil, and_iff_right (List.forall_mem_nil _)]
    exact ⟨Except.ok.inj, congrArg Except.ok⟩
  | append_singleton slugs slug ih =>
    rw [List.foldlM_append, Result.bind_eq_ok]
    simp only [ih, List.foldlM_cons, List.foldlM_nil, bind_pure, List.forall_mem_append,
      List.forall_mem_singleton]
    constructor
    · rintro ⟨_, ⟨takers, rfl⟩, h⟩
      obtain ⟨taker, rfl⟩ := (addToParts_handed _ _ _).1 h
      exact ⟨⟨takers, taker⟩, rfl⟩
    · rintro ⟨⟨takers, taker⟩, rfl⟩
      exact ⟨_, ⟨takers, rfl⟩, (addToParts_handed _ _ _).2 ⟨taker, rfl⟩⟩

variable {r s : BlendRequest}

theorem handed_asksAlike {slugs slugs' : List String} (same : ∀ x, x ∈ slugs ↔ x ∈ slugs')
    {ps qs : List SourceRequest} (h : List.Forall₂ SourceRequest.AsksAlike ps qs) :
    List.Forall₂ SourceRequest.AsksAlike (handed slugs ps) (handed slugs' qs) := by
  induction h generalizing slugs slugs' with
  | nil => exact .nil
  | @cons p q ps qs hpq _ ih =>
    have accept : accepts p = accepts q := by
      unfold accepts
      rw [hpq.rest]
    have pass : passesOn p = passesOn q := by
      unfold passesOn
      rw [accept]
    rw [handed, handed, accept, pass]
    refine .cons ⟨fun x => ?_, ?_⟩ (ih fun x => ?_)
    · simp only [List.mem_append, List.mem_filter, hpq.taxons, same]
    · rw [hpq.rest]
    · simp only [List.mem_filter, same]

namespace AsksAlike

/-- Whatever reads neither the parts of a request nor its taxons is the same for both. -/
theorem congr {α : Type} (h : r.AsksAlike s) (f : BlendRequest → α)
    (same : ∀ parts taxons, f { r with parts, taxons } = f r) : f r = f s := by
  rw [h.rest]
  exact (same _ _).symm

theorem symm (h : r.AsksAlike s) : s.AsksAlike r := by
  refine ⟨?_, fun t => (h.taxons t).symm, ?_⟩
  · exact (h.parts.imp fun p q hpq => ⟨fun x => (hpq.taxons x).symm, by rw [hpq.rest]⟩).flip
  · rw [h.rest]

theorem map_parts {α : Type} (h : r.AsksAlike s) (f : SourceRequest → α)
    (same : ∀ p taxons, f { p with taxons } = f p) : r.parts.map f = s.parts.map f := by
  rw [← List.forall₂_eq_eq_eq, List.forall₂_map_left_iff, List.forall₂_map_right_iff]
  exact h.parts.imp fun p _ hpq => hpq.congr f (same p)

theorem liftOrders (h : r.AsksAlike s) : r.liftOrders.AsksAlike s.liftOrders := by
  refine ⟨?_, h.taxons, ?_⟩
  · refine List.forall₂_map_left_iff.2 (List.forall₂_map_right_iff.2 (h.parts.imp ?_))
    intro p q hpq
    exact ⟨hpq.taxons, by rw [hpq.rest]⟩
  · unfold BlendRequest.liftOrders
    rw [List.flatMap_def, List.flatMap_def, h.map_parts (·.order) fun _ _ => rfl, h.rest]

theorem groupingTaxons (h : r.AsksAlike s) : r.groupingTaxons = s.groupingTaxons :=
  h.congr BlendRequest.groupingTaxons fun _ _ => rfl

theorem hasTaker (h : r.AsksAlike s) (slug : String) :
    HasTaker r.parts slug ↔ HasTaker s.parts slug := by
  unfold HasTaker
  refine forall₂_congr fun dataSource _ => ?_
  have heads := h.map_parts (·.dataSources.head?) fun _ _ => rfl
  rw [← List.mem_map, heads, List.mem_map]

theorem validate (h : r.AsksAlike s) : r.validate = s.validate := by
  have each (ps : List SourceRequest) : (ps.forM fun p => p.dataSource.map fun _ => ()) =
      (ps.map SourceRequest.dataSource).forM fun x => x.map fun _ => () := by
    rw [List.forM_eq_forM, List.forM_eq_forM, List.forM_map]
  have same := h.map_parts SourceRequest.dataSource fun _ _ => rfl
  have empty : r.parts.isEmpty = s.parts.isEmpty := by
    rw [← List.isEmpty_map (f := SourceRequest.dataSource), same, List.isEmpty_map]
  unfold BlendRequest.validate
  rw [empty, each, each, same]

/-- The parts get the same taxons of both requests. -/
theorem distributed (h : r.AsksAlike s) {r' : BlendRequest} (hr : r.distributed = .ok r') :
    ∃ s', s.distributed = .ok s' ∧ r'.AsksAlike s' := by
  obtain ⟨parts, hparts, hr⟩ := Result.bind_eq_ok.1 hr
  obtain ⟨takers, rfl⟩ := (foldlM_addToParts _ _).1 hparts
  have lifted := h.liftOrders
  have same : ∀ x, x ∈ r.liftOrders.taxons ++ r.liftOrders.groupingTaxons.toList ↔
      x ∈ s.liftOrders.taxons ++ s.liftOrders.groupingTaxons.toList := by
    intro x
    rw [List.mem_append, List.mem_append, lifted.groupingTaxons, lifted.taxons]
  have hparts' := (foldlM_addToParts (s.liftOrders.taxons ++ s.liftOrders.groupingTaxons.toList)
    s.liftOrders.parts).2 ⟨fun x hx => (lifted.hasTaker x).1 (takers x ((same x).2 hx)), rfl⟩
  have alike : AsksAlike
      { r.liftOrders with
        taxons := r.liftOrders.taxons ++ r.liftOrders.groupingTaxons.toList
        parts := handed (r.liftOrders.taxons ++ r.liftOrders.groupingTaxons.toList)
          r.liftOrders.parts }
      { s.liftOrders with
        taxons := s.liftOrders.taxons ++ s.liftOrders.groupingTaxons.toList
        parts := handed (s.liftOrders.taxons ++ s.liftOrders.groupingTaxons.toList)
          s.liftOrders.parts } := by
    refine ⟨handed_asksAlike same lifted.parts, same, ?_⟩
    rw [lifted.rest]
  have checks := lifted.congr (fun r => r.groupingSets?.isSome && r.fillsDateGaps) fun _ _ => rfl
  dsimp only at hr
  split at hr
  · obtain ⟨_, failed, _⟩ := Result.bind_eq_ok.1 hr
    cases failed
  · rename_i fine
    cases hr
    refine ⟨_, Result.bind_eq_ok.2 ⟨_, hparts', ?_⟩, alike⟩
    dsimp only
    rw [← checks, if_neg fine]
    rfl

/-! ## The taxons that are loaded -/

theorem dataSources (h : r.AsksAlike s) : r.dataSources = s.dataSources := by
  unfold BlendRequest.dataSources
  rw [Result.mapM_congr₂ (h.parts.imp fun _ _ hpq => hpq.dataSource)]

theorem company (h : r.AsksAlike s) : r.company = s.company := by
  unfold BlendRequest.company
  have parts := h.parts
  generalize r.parts = ps at parts
  generalize s.parts = qs at parts
  cases parts with
  | nil => rfl
  | cons hpq _ => exact congrArg Except.ok (hpq.congr (·.scope.company) fun _ => rfl)

/-- The data sources that a part adds to what is asked depend on which taxons it lists. -/
theorem askedOf (h : r.AsksAlike s) : r.askedOf = s.askedOf := by
  unfold BlendRequest.askedOf
  refine Result.foldlM_congr₂ (h.parts.imp fun p q hpq asked => ?_) _
  rw [hpq.dataSource]
  refine Result.bind_congr fun dataSource _ => congrArg Except.ok ?_
  refine SortedMap.ext fun slug found => ?_
  rw [get?_foldl_alter, get?_foldl_alter]
  have same : (∃ x ∈ p.taxons ++ p.order.map (·.taxon), Slug.withoutQuotes x = slug) ↔
      ∃ x ∈ q.taxons ++ q.order.map (·.taxon), Slug.withoutQuotes x = slug := by
    refine exists_congr fun x => and_congr_left fun _ => ?_
    rw [List.mem_append, List.mem_append, hpq.taxons, hpq.congr (·.order) fun _ => rfl]
  simp only [same]

theorem slugs (h : r.AsksAlike s) : r.slugs = s.slugs := by
  have rest := h.congr (fun r => r.groupingTaxons.toList ++ filterSlugs r.filter? ++
    r.comparisonTaxons ++ (if r.comparison?.isSome then ["company_id"] else []) ++
    r.order.map (·.taxon)) fun _ _ => rfl
  have parts (x : String) : x ∈ r.parts.flatMap partSlugs ↔ x ∈ s.parts.flatMap partSlugs := by
    have each := h.parts
    generalize r.parts = ps at each
    generalize s.parts = qs at each
    induction each with
    | nil => rfl
    | @cons p q ps qs hpq _ ih =>
      have filters := hpq.congr (fun p => (p.scope.preaggregationFilter?, p.preaggregationFilter?))
        fun _ => rfl
      obtain ⟨scope, own⟩ := Prod.mk.inj filters
      rw [List.flatMap_cons, List.flatMap_cons, List.mem_append, List.mem_append]
      refine or_congr ?_ ih
      simp only [partSlugs, List.mem_append, hpq.taxons, scope, own]
  refine SortedSet.ext fun x => ?_
  unfold BlendRequest.slugs
  rw [SortedSet.mem_ofList, SortedSet.mem_ofList, rest, List.mem_append, parts, ← List.mem_append]

end AsksAlike

end BlendRequest

open BlendRequest (AsksAlike)

namespace RequestTaxons

/-- The taxons of a request for another one. -/
def under (ts : RequestTaxons) (r : BlendRequest) : RequestTaxons := { ts with request := r }

variable {taxonomy : TaxonMap} {useFallback : Bool} {r s : BlendRequest} {ts : RequestTaxons}

/-- Requests that list the same taxons load the same. -/
theorem load_asksAlike (h : r.AsksAlike s) :
    load taxonomy useFallback s = (load taxonomy useFallback r).map (·.under s) := by
  have members (ts : RequestTaxons) :
      ({ ts with request := s } : RequestTaxons).validateGroupingSets =
        ({ ts with request := r } : RequestTaxons).validateGroupingSets := by
    unfold validateGroupingSets
    dsimp only
    rw [h.groupingTaxons]
    rfl
  unfold load
  rw [← h.dataSources, ← h.askedOf, ← h.company, ← h.slugs, Result.map_bind]
  refine Result.bind_congr fun dataSources _ => ?_
  rw [Result.map_bind]
  refine Result.bind_congr fun askedOf _ => ?_
  rw [Result.map_bind]
  refine Result.bind_congr fun company _ => ?_
  dsimp only
  generalize (Resolver.resolveRequest company r.slugs.toList).run
    (⟨taxonomy, some dataSources, true, .empty⟩ : Resolver) = run
  obtain ⟨found, resolver⟩ := run
  dsimp only
  rw [Result.map_bind]
  refine Result.bind_congr fun found _ => ?_
  rw [Result.map_bind]
  refine Result.bind_congr fun taxons _ => ?_
  rw [Result.map_bind]
  rw [members ⟨s, taxons, dataSources, askedOf⟩]
  rfl

/-- The raw taxons behind some slugs do not depend on the request. -/
theorem closure_under (rounds : Nat) (seen new : NameSet) :
    (ts.under s).closure rounds seen new = ts.closure rounds seen new := by
  induction rounds generalizing seen new with
  | zero => rfl
  | succ rounds ih =>
    unfold closure
    simp only [ih]
    rfl

theorem rawSlugs_under (slugs : NameSet) (dataSource : String) :
    (ts.under s).rawSlugs slugs dataSource = ts.rawSlugs slugs dataSource := by
  unfold rawSlugs
  rw [closure_under]
  rfl

/-- The taxons under some slugs depend on which slugs are listed. -/
theorem named_agree {slugs slugs' : List String} (same : ∀ x, x ∈ slugs ↔ x ∈ slugs') :
    Agree (ts.named slugs) (ts.named slugs') := by
  have known {slugs slugs' : List String} (same : ∀ x, x ∈ slugs ↔ x ∈ slugs') {found : TaxonMap}
      (h : ts.named slugs = .ok found) : ts.named slugs' = .ok found := by
    obtain ⟨found', h'⟩ := exists_named_iff.2 fun asked hasked =>
      exists_named_iff.1 ⟨found, h⟩ asked ((same asked).2 hasked)
    have eq : found = found' := by
      refine SortedMap.ext fun slug t => ?_
      rw [get?_named h, get?_named h']
      simp only [same]
    rw [h', eq]
  exact Agree.iff.2 fun found => ⟨known same, known fun x => (same x).symm⟩

section
variable (h : ts.request.AsksAlike s)
include h

theorem answeredBy_agree {p q : SourceRequest} (hpq : p.AsksAlike q) :
    Agree (ts.answeredBy p) ((ts.under s).answeredBy q) := by
  have compares := h.congr (·.comparison?.isSome) fun _ _ => rfl
  refine (named_agree hpq.taxons).bind fun asked _ => .of_eq ?_
  change _ = if s.comparison?.isSome = true then _ else _
  rw [← compares]

theorem answered_agree : Agree ts.answered (ts.under s).answered := by
  have grouped := h.congr (·.groupingSets?.isSome) fun _ _ => rfl
  refine (Agree.mapM (h.parts.imp fun p q => answeredBy_agree h)).bind fun each _ => .of_eq ?_
  change _ = if s.groupingSets?.isSome = true then
    (ts.named s.groupingTaxons.toList >>= fun members => _) else _
  rw [← grouped, ← h.groupingTaxons]

theorem computed_agree : Agree ts.computed (ts.under s).computed := by
  have named := h.congr (fun r => ts.named (SortedSet.ofList
    (r.order.map (·.taxon) ++ BlendRequest.filterSlugs r.filter?)).toList) fun _ _ => rfl
  exact (Agree.of_eq named).bind fun named _ => (answered_agree h).bind fun answered _ => rfl

theorem plan_agree : Agree ts.plan (ts.under s).plan := by
  have compared := h.congr (·.comparisonTaxons) fun _ _ => rfl
  refine (computed_agree h).bind fun computed _ => Agree.of_eq (Result.bind_congr fun plan _ => ?_)
  change _ = (s.comparisonTaxons.foldlM (BlendPlan.addComparisonTaxon ts) plan >>= fun plan => _)
  rw [← compared]
  refine Result.bind_congr fun plan _ => Result.foldlM_congr₂ (h.parts.imp fun p q hpq plan => ?_) _
  exact hpq.congr (BlendPlan.addFilters ts plan) fun _ => rfl

end

end RequestTaxons

namespace PlannedRequest

/-- A planned request in the place of another one. -/
def under (r : PlannedRequest) (s : BlendRequest) : PlannedRequest :=
  ⟨r.toRequestTaxons.under s, r.plan⟩

variable {r : PlannedRequest} {s : BlendRequest} {p q : SourceRequest}

theorem partTaxons_under (h : r.request.AsksAlike s) (hpq : p.AsksAlike q) :
    (r.under s).partTaxons q = r.partTaxons p := by
  have filter := hpq.congr (·.preaggregationFilter?) fun _ => rfl
  have own : SortedSet.ofList (p.taxons ++ BlendRequest.filterSlugs p.preaggregationFilter?) =
      SortedSet.ofList (q.taxons ++ BlendRequest.filterSlugs q.preaggregationFilter?) := by
    refine SortedSet.ext fun x => ?_
    rw [SortedSet.mem_ofList, SortedSet.mem_ofList, List.mem_append, List.mem_append, hpq.taxons,
      filter]
  unfold partTaxons
  simp only [under, RequestTaxons.rawSlugs_under]
  rw [← hpq.dataSource, ← own]
  change (p.dataSource >>= fun dataSource =>
    r.rawSlugs _ dataSource >>= fun asked =>
      r.rawSlugs s.groupingTaxons dataSource >>= fun grouped =>
        r.rawSlugs (SortedSet.ofList (BlendRequest.filterSlugs s.filter?)) dataSource >>= fun filtered =>
          pure (asked ∪ SortedSet.ofList r.plan.comparisonRaw ∪ grouped ∪ filtered)) = _
  rw [← h.groupingTaxons, ← h.congr (·.filter?) fun _ _ => rfl]

theorem partRows_under (h : r.request.AsksAlike s) (hpq : p.AsksAlike q)
    (physicalSources? : Option NameSet) :
    (r.under s).partRows q physicalSources? = r.partRows p physicalSources? := by
  unfold partRows
  rw [partTaxons_under h hpq, hpq.dataSource, hpq.rest]
  rfl

theorem data_under (h : r.request.AsksAlike s) (tables : OverrideTables) (models : List Model)
    (physicalSources? : Option NameSet) :
    (r.under s).data tables models physicalSources? = r.data tables models physicalSources? := by
  refine (congrArg (· >>= _) (Result.mapM_congr₂ (h.parts.imp fun p q hpq => ?_))).symm
  rw [partRows_under h hpq]

theorem comparisonPartTaxons_agree (c : ComparisonRequest) (hpq : p.AsksAlike q) :
    Agree (r.comparisonPartTaxons c p) ((r.under s).comparisonPartTaxons c q) := by
  have found : Agree (r.named p.taxons) (r.named q.taxons) := RequestTaxons.named_agree hpq.taxons
  unfold comparisonPartTaxons
  simp only [under, RequestTaxons.rawSlugs_under]
  rw [← hpq.dataSource]
  split
  · rfl
  · exact found.bind fun found _ => rfl

theorem overCompany_asksAlike (hpq : p.AsksAlike q) (taxons : NameSet) :
    p.overCompany taxons = q.overCompany taxons :=
  hpq.congr (·.overCompany taxons) fun _ => rfl

theorem comparisonSources_agree (h : r.request.AsksAlike s) (c : ComparisonRequest)
    (models : List Model) (physicalSources? : Option NameSet) :
    Agree (r.comparisonSources c models physicalSources?)
      ((r.under s).comparisonSources c models physicalSources?) := by
  refine Agree.filterMapM (h.parts.imp fun p q hpq => ?_)
  refine (comparisonPartTaxons_agree c hpq).bind fun taxons _ => ?_
  unfold comparisonRows
  rw [overCompany_asksAlike hpq]
  rfl

theorem comparison_agree (h : r.request.AsksAlike s) (tables : OverrideTables)
    (models : List Model) (physicalSources? : Option NameSet) :
    Agree (r.comparison? tables models physicalSources?)
      ((r.under s).comparison? tables models physicalSources?) := by
  have asked : (r.under s).request.comparison? = r.request.comparison? :=
    (h.congr (·.comparison?) fun _ _ => rfl).symm
  unfold comparison?
  rw [asked]
  cases r.request.comparison? with
  | none => rfl
  | some c => exact (comparisonSources_agree h c models physicalSources?).bind fun _ _ => rfl

theorem answer_asksAlike (h : r.request.AsksAlike s) (c : Catalog) (maxMappings : Nat) :
    Agree (r.answer c maxMappings) ((r.under s).answer c maxMappings) := by
  have sources := h.congr (·.physicalSources?) fun _ _ => rfl
  unfold answer
  dsimp only
  change Agree _ (s.company >>= fun company => _ >>= fun tables =>
    (r.under s).data tables c.models (s.physicalSources?.map SortedSet.ofList) >>= fun data =>
    (r.under s).comparison? tables c.models (s.physicalSources?.map SortedSet.ofList) >>= fun _ => _)
  rw [← h.company, ← sources]
  refine Agree.bind rfl fun company _ => Agree.bind rfl fun tables _ => ?_
  rw [data_under h]
  refine Agree.bind rfl fun data _ => (comparison_agree h _ _ _).bind fun comparison? _ => ?_
  refine Agree.bind (.of_eq (h.congr (Dataframe.withMetrics _ _) fun _ _ => rfl)) fun df _ => ?_
  refine (RequestTaxons.answered_agree h).bind fun answered _ => .of_eq ?_
  exact h.congr (df.project answered) fun _ _ => rfl

end PlannedRequest

namespace Catalog

variable {c : Catalog} {o : Options} {r s : BlendRequest}

theorem load_answer_agree (h : r.AsksAlike s) :
    Agree (PlannedRequest.load c.taxons o.useFallback r >>= (·.answer c o.maxMappings))
      (PlannedRequest.load c.taxons o.useFallback s >>= (·.answer c o.maxMappings)) := by
  unfold PlannedRequest.load
  rw [RequestTaxons.load_asksAlike h]
  cases loaded : RequestTaxons.load c.taxons o.useFallback r with
  | error e => rfl
  | ok ts =>
    obtain rfl := RequestTaxons.request_of_load loaded
    rw [bind_assoc, bind_assoc]
    change Agree (ts.plan >>= _ >>= _) ((ts.under s).plan >>= _ >>= _)
    rw [bind_assoc, bind_assoc]
    exact (RequestTaxons.plan_agree h).bind fun plan _ =>
      PlannedRequest.answer_asksAlike (r := ⟨ts, plan⟩) h c o.maxMappings

theorem answer_agree (h : r.AsksAlike s) : Agree (c.answer o r) (c.answer o s) := by
  unfold answer
  rw [← h.validate]
  refine Agree.bind rfl fun _ _ => ?_
  cases hr : r.distributed with
  | error e =>
    cases hs : s.distributed with
    | error e' => rfl
    | ok s' =>
      obtain ⟨r', hr', _⟩ := h.symm.distributed hs
      cases hr.symm.trans hr'
  | ok r' =>
    obtain ⟨s', hs', h'⟩ := h.distributed hr
    rw [hs']
    exact load_answer_agree h'

end Catalog

/-- A request has the same answer, in every dialect, in whatever order and however often its taxons
and those of its parts are listed: either both requests fail or both have the same query, columns,
models and connections. -/
theorem answer_order_irrelevant {c : Catalog} {o : Options} {r s : BlendRequest}
    (h : r.AsksAlike s) :
    (c.answer o r).toOption = (c.answer o s).toOption ∧
      (c.compile o r).toOption = (c.compile o s).toOption :=
  ⟨Catalog.answer_agree h, (Catalog.answer_agree h).bind fun _ _ => rfl⟩

/-- The price of a click and what was spent, by day; and the same in another order, with the day
listed twice. -/
theorem answer_order_irrelevant_cpc :
    let c : Catalog := ⟨clickTaxons, [clickModel.augmented], []⟩
    let r (part all : List String) : BlendRequest :=
      { clickRequest "cpc" with
        parts := (clickRequest "cpc").parts.map fun p => { p with taxons := part }
        taxons := all }
    let r₁ := r ["day", "cpc"] ["spend", "day"]
    let r₂ := r ["cpc", "day", "cpc"] ["day", "spend", "day"]
    r₁.AsksAlike r₂ ∧ (c.compile .default r₁).toOption.isSome ∧
      (c.compile .default r₁).toOption = (c.compile .default r₂).toOption := by
  intro c r r₁ r₂
  have alike : r₁.AsksAlike r₂ :=
    ⟨.cons ⟨by simp, rfl⟩ .nil, by simp [r₁, r₂, r], rfl⟩
  exact ⟨alike, by decide +kernel, (answer_order_irrelevant alike).2⟩

end SemanticLayer
