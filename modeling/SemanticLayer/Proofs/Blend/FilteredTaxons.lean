import SemanticLayer.Proofs.Blend.AskedTaxons
import SemanticLayer.Proofs.Blend.Labels

/-!
# Taxons that only filter an answer

A request can name a taxon only to filter its answer.  The taxon is computed like one that is asked
for, but over no data source, as no part asks for it.

* `BlendRequest.OnlyFilters`: such a request;
* `RequestTaxons.PlansAlike`: two requests plan the same for a taxon;
* `RequestTaxons.exists_plan_iff`: a request is planned if each of its taxons is;
* `RequestTaxons.IsAsking.answerShare_eq`: asking for the taxon changes no other share of the plan;
* `filter_plansAlike_iff`: when it changes none at all.
-/

namespace SemanticLayer

open Formula (Outcome)

/-- Whether a request filters its answer by a taxon that none of its parts is asked for. -/
structure BlendRequest.OnlyFilters (r : BlendRequest) (slug : String) : Prop where
  filters : slug ∈ BlendRequest.filterSlugs r.filter?
  unasked : ∀ p ∈ r.parts, ¬ BlendRequest.Requests p (Slug.withoutQuotes slug)

namespace BlendPlan

variable {ts ts' : RequestTaxons}

/-- Whether a taxon can be added to a plan does not depend on the plan. -/
theorem exists_addTaxon_iff (plan : BlendPlan) (t : Taxon) :
    (∃ plan', addTaxon ts plan t = .ok plan') ↔ ∃ s, ts.answerShare t = .ok s := by
  unfold RequestTaxons.answerShare
  rw [Result.exists_map_ok]
  unfold addTaxon
  split
  · exact Result.exists_bind_ok.trans Result.exists_bind_ok.symm
  · exact iff_of_true ⟨_, rfl⟩ ⟨_, rfl⟩

theorem exists_addComparisonTaxon_iff (plan : BlendPlan) (slug : String) :
    (∃ plan', addComparisonTaxon ts plan slug = .ok plan') ↔
      ∃ s, ts.comparisonShare slug = .ok s := by
  unfold RequestTaxons.comparisonShare
  rw [Result.exists_map_ok]
  unfold addComparisonTaxon
  split
  · exact iff_of_false (fun ⟨_, h⟩ => nomatch h) fun ⟨_, h⟩ => nomatch h
  · split
    · exact Result.exists_bind_ok.trans Result.exists_bind_ok.symm
    · exact iff_of_true ⟨_, rfl⟩ ⟨_, rfl⟩

theorem exists_addFilters_iff (plan : BlendPlan) (p : SourceRequest) :
    (∃ plan', addFilters ts plan p = .ok plan') ↔ ∃ plan', addFilters ts .empty p = .ok plan' := by
  unfold addFilters
  cases p.dataSource with
  | error e => exact iff_of_false (fun ⟨_, h⟩ => nomatch h) fun ⟨_, h⟩ => nomatch h
  | ok dataSource => exact Result.exists_bind_ok.trans Result.exists_bind_ok.symm

end BlendPlan

namespace RequestTaxons

variable {ts ts' : RequestTaxons} {slug : String}

/-- A request is planned if each taxon that it computes is, each dimension of its comparison, and
each filter on a part. -/
theorem exists_plan_iff {computed : TaxonMap} (h : ts.computed = .ok computed) :
    (∃ plan, ts.plan = .ok plan) ↔ (∀ t ∈ computed.values, ∃ s, ts.answerShare t = .ok s) ∧
      (∀ slug ∈ ts.request.comparisonTaxons, ∃ s, ts.comparisonShare slug = .ok s) ∧
      ∀ p ∈ ts.request.parts, ∃ plan, BlendPlan.addFilters ts .empty p = .ok plan := by
  have answers (plan : BlendPlan) :
      (∃ plan', computed.values.foldlM (BlendPlan.addTaxon ts) plan = .ok plan') ↔
        ∀ t ∈ computed.values, ∃ s, ts.answerShare t = .ok s :=
    Result.exists_foldlM_iff BlendPlan.exists_addTaxon_iff
  have compared (plan : BlendPlan) :
      (∃ plan', ts.request.comparisonTaxons.foldlM (BlendPlan.addComparisonTaxon ts) plan =
          .ok plan') ↔
        ∀ slug ∈ ts.request.comparisonTaxons, ∃ s, ts.comparisonShare slug = .ok s :=
    Result.exists_foldlM_iff BlendPlan.exists_addComparisonTaxon_iff
  have filtered (plan : BlendPlan) :
      (∃ plan', ts.request.parts.foldlM (BlendPlan.addFilters ts) plan = .ok plan') ↔
        ∀ p ∈ ts.request.parts, ∃ plan', BlendPlan.addFilters ts .empty p = .ok plan' :=
    Result.exists_foldlM_iff BlendPlan.exists_addFilters_iff
  unfold plan
  rw [h, ← answers .empty, ← compared .empty, ← filtered .empty]
  refine Result.exists_bind_iff fun plan => (Result.exists_bind_iff fun plan => ?_).trans
    (and_congr_left' ((compared plan).trans (compared .empty).symm))
  exact (filtered plan).trans (filtered .empty).symm

/-- The data sources over which a taxon of the answer is computed. -/
def sourcesOf (ts : RequestTaxons) (t : Taxon) : NameSet :=
  (ts.askedOf.get? (t.comparisonOrigin?.getD t.slug)).getD .empty

/-- Whether a request computes a taxon and plans some formulas for it.  A plan is the sum of such
shares and of those of its comparison. -/
def Plans (ts : RequestTaxons) (t : Taxon) (s : Share) : Prop :=
  ∃ computed, ts.computed = .ok computed ∧ t ∈ computed.values ∧ ts.answerShare t = .ok s

end RequestTaxons

/-- Whether two plans have the same formulas. -/
structure BlendPlan.SameFormulas (p q : BlendPlan) : Prop where
  metric : p.metricFormulas = q.metricFormulas
  dimension : p.dimensionFormulas = q.dimensionFormulas
  source : ∀ dataSource,
    p.sourceTemplates.inSource dataSource = q.sourceTemplates.inSource dataSource
  results : p.results = q.results

/-- Whether two requests compute a taxon and plan the same for it. -/
def RequestTaxons.PlansAlike (ts ts' : RequestTaxons) (t : Taxon) : Prop :=
  ∃ s s', ts.Plans t s ∧ ts'.Plans t s' ∧ s.plan.SameFormulas s'.plan

/-- Whether two outcomes have the same formulas. -/
structure Formula.Outcome.SameFormulas (o o' : Outcome) : Prop where
  metric : o.preFormulas = o'.preFormulas
  dimension : o.dimensionFormulas = o'.dimensionFormulas
  source : ∀ dataSource, o.sourceTemplates.filter (·.dataSource = dataSource) =
    o'.sourceTemplates.filter (·.dataSource = dataSource)
  post : o.post = o'.post

/-- Whether the formula of a taxon comes to the same over two sets of data sources. -/
def BlendPlan.SameOver (taxons : TaxonMap) (t : Taxon) (dataSources dataSources' : NameSet) :
    Prop :=
  ∃ o o', render taxons t t.slug dataSources false = .ok o ∧
    render taxons t t.slug dataSources' false = .ok o' ∧ o.SameFormulas o'

/-- What the outcome of a taxon's formula adds to a plan. -/
def Share.ofOutcome (t : Taxon) (o : Outcome) : Share :=
  ⟨t.slug, { BlendPlan.empty with
    sourceTemplates := SourceTemplates.add .empty o.sourceTemplates
    dimensionFormulas := o.dimensionFormulas
    metricFormulas := o.preFormulas
    results := [(t, o.post)]
    overrides := OverrideUses.merge .empty o.overrides }⟩

theorem Share.sameFormulas_ofOutcome {t : Taxon} {o o' : Outcome} :
    (ofOutcome t o).plan.SameFormulas (ofOutcome t o').plan ↔ o.SameFormulas o' := by
  have source (o : Outcome) (dataSource : String) :
      (ofOutcome t o).plan.sourceTemplates.inSource dataSource =
        o.sourceTemplates.filter (·.dataSource = dataSource) :=
    SourceTemplates.inSource_add .empty o.sourceTemplates dataSource
  constructor
  · intro h
    refine ⟨h.metric, h.dimension, fun dataSource => ?_, ?_⟩
    · rw [← source, ← source, h.source]
    · exact (Prod.mk.inj (List.singleton_injective h.results)).2
  · intro h
    refine ⟨h.metric, h.dimension, fun dataSource => ?_, ?_⟩
    · rw [source, source, h.source]
    · exact congrArg (fun post => [(t, post)]) h.post

namespace RequestTaxons

variable {ts ts' : RequestTaxons} {slug : String} {t : Taxon}

theorem answerShare_of_computed (computed : t.isComputed = true) :
    ts.answerShare t =
      (BlendPlan.render ts.taxons t t.slug (ts.sourcesOf t) false).map (Share.ofOutcome t) := by
  unfold answerShare BlendPlan.addTaxon
  split
  · unfold BlendPlan.addComputed
    change (do
      let o ← BlendPlan.render ts.taxons t t.slug (ts.sourcesOf t) false
      return _).map (Share.mk t.slug) = _
    cases BlendPlan.render ts.taxons t t.slug (ts.sourcesOf t) false <;> rfl
  · rename_i raw
    unfold Taxon.isComputed Taxon.calculation? at computed
    rw [raw] at computed
    cases computed

theorem answerShare_congr (taxons : ts'.taxons = ts.taxons)
    (sources : ts'.sourcesOf t = ts.sourcesOf t) : ts'.answerShare t = ts.answerShare t := by
  unfold sourcesOf at sources
  unfold answerShare BlendPlan.addTaxon BlendPlan.addComputed
  simp only [taxons, sources]

namespace IsAsking

variable (k : ts.IsAsking ts' slug)
include k

/-- A taxon that the first request is not asked for is computed over no data source by it, and over
all of them by the second one. -/
theorem sourcesOf_asked (only : ts.request.OnlyFilters slug)
    (own : t.comparisonOrigin?.getD t.slug = Slug.withoutQuotes slug) :
    ts.sourcesOf t = .empty ∧ ts'.sourcesOf t = ts.dataSources := by
  constructor
  · refine SortedSet.ext fun name => iff_of_false ?_ (SortedSet.not_mem_empty name)
    intro h
    obtain ⟨p, hp, _, requests⟩ := (BlendRequest.mem_askedOf k.asked).1 h
    exact only.unasked p hp (own ▸ requests)
  · refine SortedSet.ext fun name => (BlendRequest.mem_askedOf k.asked').trans ?_
    obtain ⟨names, hnames, e⟩ := Result.map_eq_ok.1 k.sources
    rw [← e, SortedSet.mem_ofList, k.request, own]
    constructor
    · rintro ⟨p', hp', named, _⟩
      obtain ⟨p, hp, rfl⟩ := List.mem_map.1 hp'
      obtain ⟨name', hname, named'⟩ := Result.mapM_mem_ok hnames hp
      cases named.symm.trans named'
      exact hname
    · intro h
      obtain ⟨p, hp, named⟩ := Result.mapM_ok_mem hnames h
      exact ⟨p.addTaxon slug, List.mem_map_of_mem hp, named,
        BlendRequest.requests_addTaxon.2 (.inr rfl)⟩

/-- All others are computed over the same data sources by both. -/
theorem sourcesOf_other (other : t.comparisonOrigin?.getD t.slug ≠ Slug.withoutQuotes slug) :
    ts'.sourcesOf t = ts.sourcesOf t := by
  refine SortedSet.ext fun name => ?_
  refine (BlendRequest.mem_askedOf k.asked').trans
    (Iff.trans ?_ (BlendRequest.mem_askedOf k.asked).symm)
  rw [k.request]
  constructor
  · rintro ⟨p', hp', named, requests⟩
    obtain ⟨p, hp, rfl⟩ := List.mem_map.1 hp'
    exact ⟨p, hp, named, (BlendRequest.requests_addTaxon.1 requests).resolve_right other.symm⟩
  · rintro ⟨p, hp, named, requests⟩
    exact ⟨p.addTaxon slug, List.mem_map_of_mem hp, named,
      BlendRequest.requests_addTaxon.2 (.inl requests)⟩

/-- Of all that the first request computes, only the taxon that it is not asked for can be planned
in another way by the second one. -/
theorem answerShare_eq (only : ts.request.OnlyFilters slug)
    (original : ∀ u ∈ ts.taxons.values, u.comparisonOrigin? = none) {computed : TaxonMap}
    (h : ts.computed = .ok computed) (ht : t ∈ computed.values)
    (other : ts.taxons.get? (Slug.withoutQuotes slug) ≠ some t) :
    ts'.answerShare t = ts.answerShare t := by
  refine answerShare_congr k.taxons (k.sourcesOf_other ?_)
  rcases computed_cases k.listed k.asksPlainly h ht with known | ⟨p, hp, _, origin, asks, _, _, rfl⟩
  · have none : t.comparisonOrigin? = none :=
      original t (SortedMap.mem_values.2 ⟨_, SortedMap.get?_eq_some_iff.1 known⟩)
    rw [none, Option.getD_none]
    intro own
    exact other (own ▸ known)
  · intro own
    obtain ⟨⟨s, hs, e⟩, _⟩ := asks
    exact only.unasked p hp ⟨s, List.mem_append_left _ hs, e.trans own⟩

theorem comparisonShare_eq (s : String) : ts'.comparisonShare s = ts.comparisonShare s := by
  unfold comparisonShare BlendPlan.addComparisonTaxon
  rw [k.taxons, k.dataSources]

theorem addFilters_eq (plan : BlendPlan) (p : SourceRequest) :
    BlendPlan.addFilters ts' plan (p.addTaxon slug) = BlendPlan.addFilters ts plan p := by
  unfold BlendPlan.addFilters
  rw [k.taxons]
  rfl

/-- If the second request is planned, so is the first, provided that it plans the taxon. -/
theorem exists_plan_iff (only : ts.request.OnlyFilters slug)
    (original : ∀ u ∈ ts.taxons.values, u.comparisonOrigin? = none)
    (known : ts.taxons.get? (Slug.withoutQuotes slug) = some t) {plan' : BlendPlan}
    (planned : ts'.plan = .ok plan') :
    (∃ plan, ts.plan = .ok plan) ↔ ∃ s, ts.answerShare t = .ok s := by
  obtain ⟨computed', h', _⟩ := Result.bind_eq_ok.1 planned
  obtain ⟨computed, h⟩ := k.exists_computed h'
  obtain ⟨answers, compared, filtered⟩ := (RequestTaxons.exists_plan_iff h').1 ⟨plan', planned⟩
  have ht : t ∈ computed.values := k.mem_values_of_known h known
  rw [RequestTaxons.exists_plan_iff h]
  constructor
  · exact fun all => all.1 t ht
  · intro share
    refine ⟨fun u hu => ?_, ?_, ?_⟩
    · by_cases same : ts.taxons.get? (Slug.withoutQuotes slug) = some u
      · cases known.symm.trans same
        exact share
      · rw [← k.answerShare_eq only original h hu same]
        exact answers u (k.mem_values_computed h h' hu)
    · rw [k.request] at compared
      intro s hs
      rw [← k.comparisonShare_eq]
      exact compared s hs
    · rw [k.request] at filtered
      intro p hp
      rw [← k.addFilters_eq]
      exact filtered (p.addTaxon slug) (List.mem_map_of_mem hp)

end IsAsking

end RequestTaxons

/-- A taxon that only filters an answer is planned as if it were asked for exactly if its formula
comes to the same over no data source as over all data sources of the request. -/
theorem filter_plansAlike_iff {taxonomy : TaxonMap} {useFallback : Bool} {r : BlendRequest}
    {slug : String} {p : PlannedRequest} {t : Taxon} (listed : taxonomy.IsListed)
    (only : r.OnlyFilters slug) (plain : r.LeavesComparisons)
    (asked : PlannedRequest.load taxonomy useFallback (r.asking slug) = .ok p)
    (original : ∀ u ∈ p.taxons.values, u.comparisonOrigin? = none)
    (known : p.taxons.get? (Slug.withoutQuotes slug) = some t) (computed : t.isComputed = true) :
    (∃ q, PlannedRequest.load taxonomy useFallback r = .ok q ∧
        q.toRequestTaxons.PlansAlike p.toRequestTaxons t) ↔
      BlendPlan.SameOver p.taxons t .empty p.dataSources := by
  obtain ⟨ts', loaded', asked⟩ := Result.bind_eq_ok.1 asked
  obtain ⟨plan', planned', asked⟩ := Result.bind_eq_ok.1 asked
  cases asked
  obtain ⟨ts, loaded, rfl, k⟩ := RequestTaxons.load_asking listed plain only.filters loaded'
  change ts'.taxons.get? _ = some t at known
  change ∀ u ∈ ts'.taxons.values, _ at original
  change (∃ q : PlannedRequest, _ ∧ q.toRequestTaxons.PlansAlike ts' t) ↔
    BlendPlan.SameOver ts'.taxons t _ ts'.dataSources
  rw [k.taxons] at known original
  rw [k.taxons, k.dataSources]
  have none : t.comparisonOrigin? = none :=
    original t (SortedMap.mem_values.2 ⟨_, SortedMap.get?_eq_some_iff.1 known⟩)
  have own : t.comparisonOrigin?.getD t.slug = Slug.withoutQuotes slug := by
    rw [none, Option.getD_none, k.listed.slug_eq known]
  obtain ⟨nowhere, everywhere⟩ := k.sourcesOf_asked only own
  have share : ts.answerShare t = _ := RequestTaxons.answerShare_of_computed computed
  have share' : ts'.answerShare t = _ := RequestTaxons.answerShare_of_computed computed
  rw [nowhere] at share
  rw [k.taxons, everywhere] at share'
  constructor
  · rintro ⟨q, hq, s, s', ⟨_, _, _, hs⟩, ⟨_, _, _, hs'⟩, same⟩
    obtain ⟨us, hus, hq⟩ := Result.bind_eq_ok.1 hq
    obtain ⟨plan, _, hq⟩ := Result.bind_eq_ok.1 hq
    cases hq
    cases loaded.symm.trans hus
    obtain ⟨o, ho, rfl⟩ := Result.map_eq_ok.1 (share.symm.trans hs)
    obtain ⟨o', ho', rfl⟩ := Result.map_eq_ok.1 (share'.symm.trans hs')
    exact ⟨o, o', ho, ho', Share.sameFormulas_ofOutcome.1 same⟩
  · rintro ⟨o, o', ho, ho', same⟩
    rw [ho] at share
    rw [ho'] at share'
    obtain ⟨plan, planned⟩ := (k.exists_plan_iff only original known planned').2 ⟨_, share⟩
    obtain ⟨all', h', _⟩ := Result.bind_eq_ok.1 planned'
    obtain ⟨all, h⟩ := k.exists_computed h'
    have ht : t ∈ all.values := k.mem_values_of_known h known
    exact ⟨⟨ts, plan⟩, Result.bind_eq_ok.2 ⟨ts, loaded, Result.bind_eq_ok.2 ⟨plan, planned, rfl⟩⟩,
      Share.ofOutcome t o, Share.ofOutcome t o', ⟨all, h, ht, share⟩,
      ⟨all', h', k.mem_values_computed h h' ht, share'⟩, Share.sameFormulas_ofOutcome.2 same⟩

/-- The spend of two sources, together as far as a request reads them, and a total of sales that no
source has to itself. -/
def spendTaxons : TaxonMap :=
  let metric (slug : String) (dataSource? : Option String) (definition : TaxonDefinition) : Taxon :=
    ⟨slug, slug, dataSource?, .metric, definition, .numeric, "acme", none, none, none⟩
  Taxon.mapOf [⟨"date", "date", none, .dimension, .raw .groupBy, .text, "acme", none, none, none⟩,
    metric "fb|spend" (some "fb") (.raw .sum), metric "tw|spend" (some "tw") (.raw .sum),
    metric "spend" none (.computed "fb|spend? + tw|spend?"),
    metric "sales" none (.raw .sum), metric "total" none (.computed "sales")]

/-- The dates of both sources on which a metric is large. -/
def largeRequest (slug : String) : BlendRequest :=
  let part (source : String) : SourceRequest :=
    { SourceRequest.ofDataSource source ⟨"acme", none, .available, none⟩ with taxons := ["date"] }
  { BlendRequest.ofParts [part "fb", part "tw"] [] with
    filter? := some (.value slug .gt (some (.int 10))) }

/-- The column that an expression is. -/
def Sql.Expr.ownColumn? : Sql.Expr → Option String
  | .column none name => some name
  | _ => none

theorem Sql.Expr.ownColumn?_eq_some {e : Sql.Expr} {name : String}
    (h : e.ownColumn? = some name) : e = .col name := by
  unfold ownColumn? at h
  split at h
  · cases h
    rfl
  · cases h

/-- Whether all that an outcome needs is a column, summed under a label. -/
def Formula.Outcome.isSumOf (o : Outcome) (column label : String) : Bool :=
  o.dimensionFormulas.isEmpty && o.sourceTemplates.isEmpty &&
    (match o.preFormulas with
    | [f] => f.formula.ownColumn? = some column && f.label = label && f.aggregation = .sum
    | _ => false) &&
    o.post.sql.ownColumn? = some label &&
    (o.post.template?.any fun e => e.ownColumn? = some label) && o.post.excluded = .empty

theorem Formula.Outcome.formulas_of_isSumOf {o : Outcome} {column label : String}
    (h : o.isSumOf column label = true) :
    o.preFormulas = [⟨.col column, label, .sum⟩] ∧ o.dimensionFormulas = [] ∧
      o.sourceTemplates = [] ∧ o.post = ⟨.col label, some (.col label), .empty⟩ := by
  simp only [isSumOf, Bool.and_eq_true, List.isEmpty_iff, decide_eq_true_eq] at h
  obtain ⟨⟨⟨⟨⟨dimension, source⟩, metric⟩, sql⟩, template⟩, excluded⟩ := h
  obtain ⟨e, written, named⟩ := (Option.any_eq_true _ _).1 template
  have post : o.post = ⟨o.post.sql, o.post.template?, o.post.excluded⟩ := rfl
  rw [Sql.Expr.ownColumn?_eq_some sql, written, excluded,
    Sql.Expr.ownColumn?_eq_some (of_decide_eq_true named)] at post
  refine ⟨?_, dimension, source, post⟩
  split at metric
  · rename_i f single
    obtain ⟨⟨formula, rfl⟩, aggregation⟩ := by simpa using metric
    rw [single, ← Sql.Expr.ownColumn?_eq_some formula, ← aggregation]
  · cases metric

/-- A total of all sales reads no data source, so it is planned as if it were asked for. -/
theorem filter_plansAlike_total :
    ∃ p q t, spendTaxons.IsListed ∧ (largeRequest "total").OnlyFilters "total" ∧
      (largeRequest "total").LeavesComparisons ∧
      PlannedRequest.load spendTaxons true ((largeRequest "total").asking "total") = .ok p ∧
      (∀ u ∈ p.taxons.values, u.comparisonOrigin? = none) ∧
      p.taxons.get? "total" = some t ∧ t.isComputed = true ∧
      PlannedRequest.load spendTaxons true (largeRequest "total") = .ok q ∧
      q.toRequestTaxons.PlansAlike p.toRequestTaxons t := by
  have listed : spendTaxons.IsListed := by decide +kernel
  have only : (largeRequest "total").OnlyFilters "total" :=
    ⟨by decide, by unfold BlendRequest.Requests; decide⟩
  have plain : (largeRequest "total").LeavesComparisons := by decide +kernel
  have found : (PlannedRequest.load spendTaxons true
      ((largeRequest "total").asking "total")).toOption.any fun p =>
        (∀ u ∈ p.taxons.values, u.comparisonOrigin? = none) &&
        (p.taxons.get? (Slug.withoutQuotes "total")).any fun t => t.isComputed &&
          [.empty, p.dataSources].all fun dataSources =>
            (BlendPlan.render p.taxons t t.slug dataSources false).toOption.any fun o =>
              o.isSumOf "sales" "total" := by
    decide +kernel
  obtain ⟨p, asked, found⟩ := Result.ok_of_any found
  obtain ⟨original, found⟩ := Bool.and_eq_true_iff.1 found
  obtain ⟨t, known, found⟩ := (Option.any_eq_true _ _).1 found
  obtain ⟨computed, sums⟩ := Bool.and_eq_true_iff.1 found
  obtain ⟨o, ho, sum⟩ := Result.ok_of_any (List.all_eq_true.1 sums .empty (by simp))
  obtain ⟨o', ho', sum'⟩ := Result.ok_of_any (List.all_eq_true.1 sums p.dataSources (by simp))
  obtain ⟨metric, dimension, source, post⟩ := Formula.Outcome.formulas_of_isSumOf sum
  obtain ⟨metric', dimension', source', post'⟩ := Formula.Outcome.formulas_of_isSumOf sum'
  have same : o.SameFormulas o' := by
    refine ⟨metric.trans metric'.symm, dimension.trans dimension'.symm, fun dataSource => ?_,
      post.trans post'.symm⟩
    rw [source, source']
  obtain ⟨q, loaded, alike⟩ := (filter_plansAlike_iff listed only plain asked
    (of_decide_eq_true original) known computed).2 ⟨o, o', ho, ho', same⟩
  exact ⟨p, q, t, listed, only, plain, asked, of_decide_eq_true original, known, computed, loaded,
    alike⟩

/-- Over no data source nothing of the spend is left, so it is null to a filter. -/
theorem filter_spend_not_plansAlike :
    ∃ q p t, PlannedRequest.load spendTaxons true (largeRequest "spend") = .ok q ∧
      PlannedRequest.load spendTaxons true ((largeRequest "spend").asking "spend") = .ok p ∧
      p.taxons.get? "spend" = some t ∧ t.isComputed = true ∧
      (largeRequest "spend").OnlyFilters "spend" ∧
      ¬ q.toRequestTaxons.PlansAlike p.toRequestTaxons t := by
  have only : (largeRequest "spend").OnlyFilters "spend" :=
    ⟨by decide, by unfold BlendRequest.Requests; decide⟩
  have found : (PlannedRequest.load spendTaxons true (largeRequest "spend")).toOption.any fun q =>
      (PlannedRequest.load spendTaxons true ((largeRequest "spend").asking "spend")).toOption.any
        fun p => (p.taxons.get? "spend").any fun t => t.isComputed &&
          ((q.answerShare t).toOption.any fun s => s.plan.metricFormulas.isEmpty) &&
          (p.answerShare t).toOption.any fun s => !s.plan.metricFormulas.isEmpty := by
    decide +kernel
  obtain ⟨q, hq, found⟩ := Result.ok_of_any found
  obtain ⟨p, hp, found⟩ := Result.ok_of_any found
  obtain ⟨t, ht, found⟩ := (Option.any_eq_true _ _).1 found
  obtain ⟨found, some⟩ := Bool.and_eq_true_iff.1 found
  obtain ⟨computed, none⟩ := Bool.and_eq_true_iff.1 found
  obtain ⟨u, hu, none⟩ := Result.ok_of_any none
  obtain ⟨u', hu', some⟩ := Result.ok_of_any some
  refine ⟨q, p, t, hq, hp, ht, computed, only, ?_⟩
  rintro ⟨s, s', ⟨_, _, _, hs⟩, ⟨_, _, _, hs'⟩, same⟩
  cases hu.symm.trans hs
  cases hu'.symm.trans hs'
  rw [← same.metric, none] at some
  cases some

end SemanticLayer
