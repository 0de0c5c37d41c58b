import SemanticLayer.Proofs.Blend.AnsweredTaxons

/-!
# Taxons that are asked for as well

A request that filters its answer by a taxon reads the same taxons when its parts also ask for this
one, and computes all that it computed before.

* `BlendRequest.asking`: the request that also asks for a taxon;
* `BlendRequest.mem_askedOf`: the data sources over which a taxon is computed;
* `RequestTaxons.load_asking`: both requests load the same taxons;
* `RequestTaxons.shown_iff`: the taxon that the parts of a request show under a slug, where no slug
  is that of a comparison;
* `RequestTaxons.IsAsking.mem_values_computed`: what the first request computes, the second does.
-/

namespace SemanticLayer

namespace BlendRequest

/-- A request that also asks every part for a taxon. -/
def asking (r : BlendRequest) (slug : String) : BlendRequest :=
  { r with parts := r.parts.map fun p => p.addTaxon slug }

/-- Whether a part asks for what goes by a slug, or orders its rows by it. -/
def Requests (p : SourceRequest) (slug : String) : Prop :=
  ∃ asked ∈ p.taxons ++ p.order.map (·.taxon), Slug.withoutQuotes asked = slug

/-- Whether the slugs that a request names leave those of comparisons alone. -/
def LeavesComparisons (r : BlendRequest) : Prop :=
  ∀ slug ∈ r.slugs, Slug.isComparison (Slug.withoutQuotes slug) = false

instance : DecidablePred LeavesComparisons := fun r =>
  inferInstanceAs (Decidable (∀ slug ∈ r.slugs.toList,
    Slug.isComparison (Slug.withoutQuotes slug) = false))

theorem mem_foldl_alter {slugs : List String} {asked : SortedMap String NameSet}
    {dataSource name slug : String} :
    name ∈ ((slugs.foldl (fun asked slug => asked.alter (Slug.withoutQuotes slug) fun sources? =>
      (sources?.getD .empty).insert dataSource) asked).get? slug).getD .empty ↔
      name ∈ (asked.get? slug).getD .empty ∨
        name = dataSource ∧ ∃ s ∈ slugs, Slug.withoutQuotes s = slug := by
  induction slugs generalizing asked with
  | nil => exact (or_iff_left fun ⟨_, _, h, _⟩ => nomatch h).symm
  | cons s slugs ih =>
    rw [List.foldl_cons, ih]
    unfold SortedMap.alter
    rw [SortedMap.get?_insert, List.exists_mem_cons_iff]
    by_cases same : Slug.withoutQuotes s = slug
    · subst same
      rw [if_pos rfl, Option.getD_some, SortedSet.mem_insert]
      tauto
    · rw [if_neg same]
      simp only [same, false_or]

/-- Slugs are asked of a data source once, however often they are listed. -/
theorem get?_foldl_alter {slugs : List String} {asked : SortedMap String NameSet}
    {dataSource slug : String} :
    (slugs.foldl (fun asked slug => asked.alter (Slug.withoutQuotes slug) fun sources? =>
      (sources?.getD .empty).insert dataSource) asked).get? slug =
      if ∃ s ∈ slugs, Slug.withoutQuotes s = slug then
        some (((asked.get? slug).getD .empty).insert dataSource)
      else asked.get? slug := by
  induction slugs generalizing asked with
  | nil => exact (if_neg fun ⟨_, h, _⟩ => nomatch h).symm
  | cons s slugs ih =>
    rw [List.foldl_cons, ih]
    unfold SortedMap.alter
    rw [SortedMap.get?_insert]
    by_cases same : Slug.withoutQuotes s = slug
    · subst same
      have twice (t : NameSet) : (t.insert dataSource).insert dataSource = t.insert dataSource := by
        refine SortedSet.ext fun name => ?_
        rw [SortedSet.mem_insert, SortedSet.mem_insert, or_self_left]
      have named : ∃ t ∈ s :: slugs, Slug.withoutQuotes t = Slug.withoutQuotes s :=
        ⟨s, List.mem_cons_self .., rfl⟩
      rw [if_pos rfl, if_pos named, Option.getD_some, twice, ite_self]
    · rw [if_neg same]
      simp only [List.exists_mem_cons_iff, same, false_or]

/-- A taxon is computed over the data sources of the parts that ask for it. -/
theorem mem_askedOf {r : BlendRequest} {asked : SortedMap String NameSet}
    (h : r.askedOf = .ok asked) {slug name : String} :
    name ∈ (asked.get? slug).getD .empty ↔
      ∃ p ∈ r.parts, p.dataSource = .ok name ∧ Requests p slug := by
  have each (ps : List SourceRequest) (before after : SortedMap String NameSet)
      (h : ps.foldlM (fun asked p => do
        let dataSource ← p.dataSource
        return (p.taxons ++ p.order.map (·.taxon)).foldl (fun asked slug =>
          asked.alter (Slug.withoutQuotes slug) fun sources? =>
            (sources?.getD .empty).insert dataSource) asked) before = (.ok after : Result _)) :
      name ∈ (after.get? slug).getD .empty ↔ name ∈ (before.get? slug).getD .empty ∨
        ∃ p ∈ ps, p.dataSource = .ok name ∧ Requests p slug := by
    induction ps generalizing before with
    | nil =>
      cases h
      exact (or_iff_left fun ⟨_, h, _⟩ => nomatch h).symm
    | cons p ps ih =>
      rw [List.foldlM_cons] at h
      obtain ⟨next, step, h⟩ := Result.bind_eq_ok.1 h
      obtain ⟨dataSource, own, step⟩ := Result.bind_eq_ok.1 step
      cases step
      rw [ih _ h, mem_foldl_alter, List.exists_mem_cons_iff, own, Except.ok.injEq, or_assoc,
        eq_comm (a := name)]
      rfl
  rw [each r.parts .empty asked h]
  exact or_iff_right fun h => nomatch h

theorem exists_askedOf_iff {r : BlendRequest} :
    (∃ asked, r.askedOf = .ok asked) ↔ ∀ p ∈ r.parts, ∃ name, p.dataSource = .ok name :=
  Result.exists_foldlM_iff fun _ _ => Result.exists_bind_ok

variable {r : BlendRequest} {slug : String}

theorem dataSources_asking (r : BlendRequest) (slug : String) :
    (r.asking slug).dataSources = r.dataSources := by
  unfold dataSources asking
  rw [List.mapM_map]
  rfl

theorem company_asking (r : BlendRequest) (slug : String) :
    (r.asking slug).company = r.company := by
  unfold company asking
  cases r.parts <;> rfl

theorem requests_addTaxon {p : SourceRequest} {s : String} :
    Requests (p.addTaxon slug) s ↔ Requests p s ∨ Slug.withoutQuotes slug = s := by
  unfold Requests SourceRequest.addTaxon
  simp only [List.mem_append, List.mem_singleton, or_and_right, exists_or, exists_eq_left]
  exact or_right_comm

theorem mem_partSlugs_addTaxon {p : SourceRequest} {s : String} :
    s ∈ partSlugs (p.addTaxon slug) ↔ s ∈ partSlugs p ∨ s = slug := by
  unfold partSlugs SourceRequest.addTaxon
  simp only [List.mem_append, List.mem_singleton]
  tauto

/-- A taxon that filters the answer is named already. -/
theorem slugs_asking (filters : slug ∈ filterSlugs r.filter?) :
    (r.asking slug).slugs = r.slugs := by
  refine SortedSet.ext fun s => ?_
  unfold slugs
  rw [SortedSet.mem_ofList, SortedSet.mem_ofList]
  refine List.mem_append.trans (Iff.trans ?_ List.mem_append.symm)
  have above : slug ∈ r.groupingTaxons.toList ++ filterSlugs r.filter? ++ r.comparisonTaxons ++
      (if r.comparison?.isSome then ["company_id"] else []) ++ r.order.map (·.taxon) := by
    simp only [List.mem_append, filters, true_or, or_true]
  constructor
  · rintro (named | asked)
    · exact .inl named
    · obtain ⟨p', hp', hs⟩ := List.mem_flatMap.1 asked
      obtain ⟨p, hp, rfl⟩ := List.mem_map.1 hp'
      rcases mem_partSlugs_addTaxon.1 hs with hs | rfl
      · exact .inr (List.mem_flatMap.2 ⟨p, hp, hs⟩)
      · exact .inl above
  · rintro (named | asked)
    · exact .inl named
    · obtain ⟨p, hp, hs⟩ := List.mem_flatMap.1 asked
      exact .inr (List.mem_flatMap.2
        ⟨p.addTaxon slug, List.mem_map_of_mem hp, mem_partSlugs_addTaxon.2 (.inl hs)⟩)

end BlendRequest

namespace RequestTaxons

variable {taxonomy : TaxonMap} {useFallback : Bool} {r : BlendRequest} {slug : String}
  {ts : RequestTaxons}

/-- A request with its taxons, and the one that also asks for a taxon that filters the answer. -/
structure IsAsking (ts ts' : RequestTaxons) (slug : String) : Prop where
  request : ts'.request = ts.request.asking slug
  taxons : ts'.taxons = ts.taxons
  dataSources : ts'.dataSources = ts.dataSources
  sources : ts.request.dataSources = .ok ts.dataSources
  asked : ts.request.askedOf = .ok ts.askedOf
  asked' : ts'.request.askedOf = .ok ts'.askedOf
  filters : slug ∈ BlendRequest.filterSlugs ts.request.filter?
  listed : ts.taxons.IsListed
  plain : ts.request.LeavesComparisons

/-- What loads with the taxon asked for loads without. -/
theorem load_asking {taxonomy : TaxonMap} {useFallback : Bool} {r : BlendRequest} {slug : String}
    {ts' : RequestTaxons} (listed : taxonomy.IsListed) (plain : r.LeavesComparisons)
    (filters : slug ∈ BlendRequest.filterSlugs r.filter?)
    (h : load taxonomy useFallback (r.asking slug) = .ok ts') :
    ∃ ts, load taxonomy useFallback r = .ok ts ∧ ts.request = r ∧ ts.IsAsking ts' slug := by
  have listed' := isListed_load listed h
  unfold load at h ⊢
  rw [BlendRequest.dataSources_asking, BlendRequest.company_asking,
    BlendRequest.slugs_asking filters] at h
  obtain ⟨dataSources, hsources, h⟩ := Result.bind_eq_ok.1 h
  obtain ⟨askedAll, hall, h⟩ := Result.bind_eq_ok.1 h
  obtain ⟨company, hcompany, h⟩ := Result.bind_eq_ok.1 h
  dsimp only at h
  obtain ⟨found, hfound, h⟩ := Result.bind_eq_ok.1 h
  obtain ⟨taxons, completed, h⟩ := Result.bind_eq_ok.1 h
  obtain ⟨checked, valid, h⟩ := Result.bind_eq_ok.1 h
  cases h
  have each : ∀ p ∈ r.parts, ∃ name, p.dataSource = .ok name := by
    obtain ⟨names, hnames, _⟩ := Result.map_eq_ok.1 hsources
    exact Result.exists_mapM_iff.1 ⟨names, hnames⟩
  obtain ⟨asked, hasked⟩ := BlendRequest.exists_askedOf_iff.2 each
  refine ⟨⟨r, taxons, dataSources, asked⟩, ?_, rfl, ⟨rfl, rfl, rfl, hsources, hasked, hall, filters,
    listed', plain⟩⟩
  refine Result.bind_eq_ok.2 ⟨dataSources, hsources, Result.bind_eq_ok.2 ⟨asked, hasked,
    Result.bind_eq_ok.2 ⟨company, hcompany, ?_⟩⟩⟩
  exact Result.bind_eq_ok.2 ⟨found, hfound, Result.bind_eq_ok.2 ⟨taxons, completed,
    Result.bind_eq_ok.2 ⟨checked, valid, rfl⟩⟩⟩

/-! ## Taxons that are computed -/

/-- Whether the slugs that a part asks for leave those of comparisons alone. -/
def AsksPlainly (p : SourceRequest) : Prop :=
  ∀ asked ∈ p.taxons, Slug.isComparison (Slug.withoutQuotes asked) = false

/-- Whether a part offers a taxon under a slug, by itself or as that of a comparison. -/
def Offers (ts : RequestTaxons) (p : SourceRequest) (slug : String) (t : Taxon) : Prop :=
  ts.Asks p slug t ∨ ts.Copies p slug t

theorem Asks.isComparison {p : SourceRequest} {t : Taxon} (plain : AsksPlainly p)
    (h : ts.Asks p slug t) : Slug.isComparison slug = false := by
  obtain ⟨⟨asked, hasked, rfl⟩, _⟩ := h
  exact plain asked hasked

theorem Copies.isComparison {p : SourceRequest} {t : Taxon} (h : ts.Copies p slug t) :
    Slug.isComparison slug = true := by
  obtain ⟨_, origin, _, _, rfl, _⟩ := h
  exact Slug.isComparison_comparison origin.slug

theorem Offers.inj {p q : SourceRequest} {t u : Taxon} (plain : AsksPlainly p)
    (plain' : AsksPlainly q) (h : ts.Offers p slug t) (h' : ts.Offers q slug u) : t = u := by
  rcases h with h | h <;> rcases h' with h' | h'
  · exact h.inj h'
  · exact absurd (h.isComparison plain) (by rw [h'.isComparison]; decide)
  · exact absurd (h'.isComparison plain') (by rw [h.isComparison]; decide)
  · exact h.inj h'

/-- All parts that offer a taxon under a slug offer the same one. -/
theorem shown_iff {ps : List SourceRequest} (plain : ∀ p ∈ ps, AsksPlainly p) {t : Taxon} :
    ts.Shown ps slug t ↔ ∃ p ∈ ps, ts.Offers p slug t := by
  induction ps generalizing t with
  | nil => exact iff_of_false id fun ⟨_, h, _⟩ => nomatch h
  | cons p ps ih =>
    obtain ⟨first, rest⟩ := List.forall_mem_cons.1 plain
    have later : ts.Shown ps slug t ↔ _ := ih rest
    have shows : ts.Shows p slug t ↔ ts.Offers p slug t := by
      constructor
      · exact fun h => h.imp_right And.right
      · refine fun h => h.imp_right fun copies => ⟨fun u asks => ?_, copies⟩
        exact absurd (asks.isComparison first) (by rw [copies.isComparison]; decide)
    rw [Shown, shows, List.exists_mem_cons_iff]
    constructor
    · rintro (h | ⟨_, h⟩)
      · exact .inr (later.1 h)
      · exact .inl h
    · rintro (h | h)
      · by_cases known : ∃ u, ts.Shown ps slug u
        · obtain ⟨u, hu⟩ := known
          obtain ⟨q, hq, other⟩ := (ih rest).1 hu
          rw [h.inj first (rest q hq) other]
          exact .inl hu
        · exact .inr ⟨not_exists.1 known, h⟩
      · exact .inl (later.2 h)

/-- What a request computes under a slug: what it answers, else what filters or orders it. -/
theorem get?_computed {computed : TaxonMap} (h : ts.computed = .ok computed) :
    ∃ answered, ts.answered = .ok answered ∧ ∀ {slug t}, computed.get? slug = some t ↔
      answered.get? slug = some t ∨ answered.get? slug = none ∧
        (∃ s ∈ ts.request.order.map (·.taxon) ++ BlendRequest.filterSlugs ts.request.filter?,
          Slug.withoutQuotes s = slug) ∧ ts.taxons.get? slug = some t := by
  obtain ⟨named, hnamed, h⟩ := Result.bind_eq_ok.1 h
  obtain ⟨answered, hanswered, h⟩ := Result.bind_eq_ok.1 h
  cases h
  refine ⟨answered, hanswered, fun {slug t} => ?_⟩
  rw [SortedMap.get?_merge, Option.or_eq_some_iff, get?_named hnamed]
  simp only [← SortedSet.mem_def, SortedSet.mem_ofList]

section
variable (listed : ts.taxons.IsListed) (plain : ∀ p ∈ ts.request.parts, AsksPlainly p)
include listed plain

/-- What is answered is a taxon under its slug, or the comparison of one that a part asks for. -/
theorem answered_cases {answered : TaxonMap} (h : ts.answered = .ok answered) {t : Taxon}
    (found : answered.get? slug = some t) :
    ts.taxons.get? slug = some t ∨ ∃ p ∈ ts.request.parts, ts.Copies p slug t := by
  rcases (get?_answered listed h).1 found with member | ⟨_, shown, _⟩
  · exact .inl member.2
  · obtain ⟨p, hp, asks | copies⟩ := (shown_iff plain).1 shown
    · exact .inl asks.2
    · exact .inr ⟨p, hp, copies⟩

/-- So is what is computed. -/
theorem computed_cases {computed : TaxonMap} (h : ts.computed = .ok computed) {t : Taxon}
    (ht : t ∈ computed.values) :
    ts.taxons.get? t.slug = some t ∨ ∃ p ∈ ts.request.parts, ts.Copies p t.slug t := by
  obtain ⟨answered, hanswered, lookup⟩ := get?_computed h
  obtain ⟨s, hs⟩ := SortedMap.mem_values.1 ht
  have cases : ts.taxons.get? s = some t ∨ ∃ p ∈ ts.request.parts, ts.Copies p s t := by
    rcases lookup.1 (SortedMap.get?_eq_some_iff.2 hs) with found | ⟨_, _, known⟩
    · exact answered_cases listed plain hanswered found
    · exact .inl known
  have own : t.slug = s := by
    rcases cases with known | ⟨_, _, _, origin, _, _, rfl, rfl⟩
    · exact listed.slug_eq known
    · rfl
  rwa [own]

/-- What filters or orders an answer is computed under its own slug. -/
theorem get?_computed_of_filters {computed : TaxonMap} (h : ts.computed = .ok computed) {s : String}
    (hs : s ∈ ts.request.order.map (·.taxon) ++ BlendRequest.filterSlugs ts.request.filter?)
    (own : Slug.isComparison (Slug.withoutQuotes s) = false) {t : Taxon}
    (known : ts.taxons.get? (Slug.withoutQuotes s) = some t) :
    computed.get? (Slug.withoutQuotes s) = some t := by
  obtain ⟨answered, hanswered, lookup⟩ := get?_computed h
  cases found : answered.get? (Slug.withoutQuotes s) with
  | none => exact lookup.2 (.inr ⟨found, ⟨s, hs, rfl⟩, known⟩)
  | some u =>
    rcases answered_cases listed plain hanswered found with known' | ⟨_, _, copies⟩
    · rw [known] at known'
      exact lookup.2 (.inl (found.trans known'.symm))
    · exact absurd copies.isComparison (by rw [own]; decide)

end

namespace IsAsking

variable {ts' : RequestTaxons} (k : ts.IsAsking ts' slug)
include k

theorem named_eq : ts'.named = ts.named := by
  unfold named taxon
  rw [k.taxons]

theorem isComparison_filters {s : String}
    (hs : s ∈ ts.request.order.map (·.taxon) ++ BlendRequest.filterSlugs ts.request.filter?) :
    Slug.isComparison (Slug.withoutQuotes s) = false := by
  refine k.plain s (SortedSet.mem_ofList.2 ?_)
  rcases List.mem_append.1 hs with hs | hs <;> simp only [List.mem_append, hs, true_or, or_true]

theorem asksPlainly : ∀ p ∈ ts.request.parts, AsksPlainly p := by
  intro p hp asked hasked
  refine k.plain asked (SortedSet.mem_ofList.2 (List.mem_append_right _ ?_))
  exact List.mem_flatMap.2 ⟨p, hp, List.mem_append_left _ (List.mem_append_left _ hasked)⟩

theorem asksPlainly' : ∀ p ∈ ts'.request.parts, AsksPlainly p := by
  rw [k.request]
  intro p' hp' asked hasked
  obtain ⟨p, hp, rfl⟩ := List.mem_map.1 hp'
  rcases List.mem_append.1 hasked with hasked | hasked
  · exact k.asksPlainly p hp asked hasked
  · rw [List.mem_singleton.1 hasked]
    exact k.isComparison_filters (List.mem_append_right _ k.filters)

theorem offers {p : SourceRequest} {s : String} {t : Taxon} (h : ts.Offers p s t) :
    ts'.Offers (p.addTaxon slug) s t := by
  have asks {s : String} {t : Taxon} (h : ts.Asks p s t) : ts'.Asks (p.addTaxon slug) s t := by
    obtain ⟨⟨asked, hasked, e⟩, known⟩ := h
    exact ⟨⟨asked, List.mem_append_left _ hasked, e⟩, k.taxons ▸ known⟩
  rcases h with h | ⟨compares, origin, h, comparable, rfl, rfl⟩
  · exact .inl (asks h)
  · have compares' : ts'.request.comparison?.isSome = true := by
      rw [k.request]
      exact compares
    exact .inr ⟨compares', origin, asks h, comparable, rfl, rfl⟩

/-- The second request answers what the first one does. -/
theorem get?_answered_asking {answered answered' : TaxonMap} (h : ts.answered = .ok answered)
    (h' : ts'.answered = .ok answered') {s : String} {t : Taxon}
    (found : answered.get? s = some t) : answered'.get? s = some t := by
  have listed' : ts'.taxons.IsListed := k.taxons ▸ k.listed
  rw [get?_answered listed' h', k.taxons, shown_iff k.asksPlainly', k.request]
  rw [get?_answered k.listed h, shown_iff k.asksPlainly] at found
  rcases found with member | ⟨other, ⟨p, hp, offered⟩, metric⟩
  · exact .inl member
  · exact .inr ⟨other, ⟨p.addTaxon slug, List.mem_map_of_mem hp, k.offers offered⟩, metric⟩

/-- If the second request is computed, so is the first. -/
theorem exists_computed {computed' : TaxonMap} (h' : ts'.computed = .ok computed') :
    ∃ computed, ts.computed = .ok computed := by
  obtain ⟨named, hnamed, h'⟩ := Result.bind_eq_ok.1 h'
  obtain ⟨answered', hanswered', _⟩ := Result.bind_eq_ok.1 h'
  have ⟨parts, members⟩ := exists_answered_iff.1 ⟨answered', hanswered'⟩
  rw [k.named_eq, k.request] at hnamed parts members
  have each : ∀ p ∈ ts.request.parts, ∃ found, ts.named p.taxons = .ok found := by
    intro p hp
    have asked := exists_named_iff.1 (parts (p.addTaxon slug) (List.mem_map_of_mem hp))
    exact exists_named_iff.2 fun s hs => asked s (List.mem_append_left _ hs)
  obtain ⟨answered, hanswered⟩ := exists_answered_iff.2 ⟨each, members⟩
  exact ⟨named.merge answered, Result.bind_eq_ok.2 ⟨named, hnamed,
    Result.bind_eq_ok.2 ⟨answered, hanswered, rfl⟩⟩⟩

theorem mem_values_of_known {computed : TaxonMap} (h : ts.computed = .ok computed) {t : Taxon}
    (known : ts.taxons.get? (Slug.withoutQuotes slug) = some t) : t ∈ computed.values := by
  have named : slug ∈ ts.request.order.map (·.taxon) ++
      BlendRequest.filterSlugs ts.request.filter? := List.mem_append_right _ k.filters
  exact SortedMap.mem_values.2 ⟨_, SortedMap.get?_eq_some_iff.1
    (get?_computed_of_filters k.listed k.asksPlainly h named (k.isComparison_filters named) known)⟩

/-- The second request computes all that the first one does. -/
theorem mem_values_computed {computed computed' : TaxonMap} (h : ts.computed = .ok computed)
    (h' : ts'.computed = .ok computed') {t : Taxon} (ht : t ∈ computed.values) :
    t ∈ computed'.values := by
  have listed' : ts'.taxons.IsListed := k.taxons ▸ k.listed
  obtain ⟨answered, hanswered, lookup⟩ := get?_computed h
  obtain ⟨answered', hanswered', lookup'⟩ := get?_computed h'
  obtain ⟨s, hs⟩ := SortedMap.mem_values.1 ht
  refine SortedMap.mem_values.2 ⟨s, SortedMap.get?_eq_some_iff.1 ?_⟩
  rcases lookup.1 (SortedMap.get?_eq_some_iff.2 hs) with found | ⟨_, ⟨asked, hasked, rfl⟩, known⟩
  · exact lookup'.2 (.inl (k.get?_answered_asking hanswered hanswered' found))
  · refine get?_computed_of_filters listed' k.asksPlainly' h' ?_ (k.isComparison_filters hasked)
      (k.taxons ▸ known)
    rw [k.request]
    exact hasked

end IsAsking

end RequestTaxons

end SemanticLayer
