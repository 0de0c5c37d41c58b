import SemanticLayer.Blend.Compilation
import SemanticLayer.Proofs.Blend.ColumnListing
import SemanticLayer.Proofs.Sql.OutputAliases

/-!
# Taxons of an answer

* `RequestTaxons.Shown`: the taxon that the parts of a request show under a slug;
* `RequestTaxons.get?_answeredBy`, `get?_foldl_merge`: what one part answers, and all of them;
* `RequestTaxons.mem_keys_answered`: the slugs of an answer;
* `Catalog.answer_listsColumns`: the columns of an answer, and of all stages on the way to it.
-/

namespace SemanticLayer

theorem Slug.comparison_inj {a b : String} : comparison a = comparison b ↔ a = b := by
  unfold comparison
  rw [← String.toList_inj, String.toList_append, String.toList_append, List.append_cancel_left_eq,
    String.toList_inj]

namespace RequestTaxons

variable {ts : RequestTaxons}

/-- Whether a part asks for a taxon. -/
def Asks (ts : RequestTaxons) (p : SourceRequest) (slug : String) (t : Taxon) : Prop :=
  (∃ asked ∈ p.taxons, Slug.withoutQuotes asked = slug) ∧ ts.taxons.get? slug = some t

/-- Whether a part compares a taxon that it asks for, under the slug of the comparison. -/
def Copies (ts : RequestTaxons) (p : SourceRequest) (slug : String) (t : Taxon) : Prop :=
  ts.request.comparison?.isSome = true ∧ ∃ origin, ts.Asks p origin.slug origin ∧
    origin.canCompare = true ∧ slug = Slug.comparison origin.slug ∧ t = comparisonOf origin

/-- The taxon that a part shows under a slug; one that it asks for by the slug itself comes first. -/
def Shows (ts : RequestTaxons) (p : SourceRequest) (slug : String) (t : Taxon) : Prop :=
  ts.Asks p slug t ∨ (∀ u, ¬ ts.Asks p slug u) ∧ ts.Copies p slug t

/-- The taxon that the parts show under a slug; the last one that shows any counts. -/
def Shown (ts : RequestTaxons) : List SourceRequest → String → Taxon → Prop
  | [], _, _ => False
  | p :: ps, slug, t => ts.Shown ps slug t ∨ (∀ u, ¬ ts.Shown ps slug u) ∧ ts.Shows p slug t

/-- Whether some part asks for a slug. -/
def IsAsked (ts : RequestTaxons) (slug : String) : Prop :=
  ∃ p ∈ ts.request.parts, ∃ asked ∈ p.taxons, Slug.withoutQuotes asked = slug

/-- Whether a slug is that of the comparison of a comparable taxon that some part asks for. -/
def IsCopied (ts : RequestTaxons) (slug : String) : Prop :=
  ts.request.comparison?.isSome = true ∧ ∃ p ∈ ts.request.parts, ∃ asked ∈ p.taxons, ∃ t,
    ts.taxons.get? (Slug.withoutQuotes asked) = some t ∧ t.canCompare = true ∧
      slug = Slug.comparison (Slug.withoutQuotes asked)

/-- Whether a dimension is shown under a slug. -/
def ShowsDimension (ts : RequestTaxons) (slug : String) : Prop :=
  ∃ t, ts.Shown ts.request.parts slug t ∧ t.isDimension = true

theorem taxon_eq_ok_iff {slug : String} {t : Taxon} :
    ts.taxon slug = .ok t ↔ ts.taxons.get? (Slug.withoutQuotes slug) = some t := by
  unfold taxon
  split
  · rename_i found
    rw [found, Except.ok.injEq, Option.some.injEq]
  · rename_i none
    rw [none]
    constructor <;> intro h <;> cases h

/-- What is found under slugs are the taxons that go by them. -/
theorem get?_named {slugs : List String} {found : TaxonMap} (h : ts.named slugs = .ok found)
    {slug : String} {t : Taxon} :
    found.get? slug = some t ↔
      (∃ asked ∈ slugs, Slug.withoutQuotes asked = slug) ∧ ts.taxons.get? slug = some t := by
  obtain ⟨entries, hentries, rfl⟩ := Result.map_eq_ok.1 h
  have entry {slug : String} {t : Taxon} (he : (slug, t) ∈ entries) :
      (∃ asked ∈ slugs, Slug.withoutQuotes asked = slug) ∧ ts.taxons.get? slug = some t := by
    obtain ⟨asked, hasked, step⟩ := Result.mapM_ok_mem hentries he
    obtain ⟨t', found, e⟩ := Result.map_eq_ok.1 step
    cases e
    exact ⟨⟨asked, hasked, rfl⟩, taxon_eq_ok_iff.1 found⟩
  constructor
  · exact fun h => entry (SortedMap.mem_of_get?_ofList h)
  · rintro ⟨⟨asked, hasked, rfl⟩, known⟩
    obtain ⟨e, he, step⟩ := Result.mapM_mem_ok hentries hasked
    obtain ⟨t', found, rfl⟩ := Result.map_eq_ok.1 step
    -- Of several entries under one slug the last is kept, but all hold the same taxon.
    obtain ⟨u, hu⟩ := SortedMap.mem_keys.1 (SortedMap.mem_keys_ofList.2 (List.mem_map_of_mem he))
    have same := (entry (SortedMap.mem_of_mem_ofList hu)).2
    rw [known] at same
    cases same
    exact SortedMap.get?_eq_some_iff.2 hu

theorem Asks.inj {p q : SourceRequest} {slug : String} {t u : Taxon} (h : ts.Asks p slug t)
    (h' : ts.Asks q slug u) : t = u :=
  Option.some.inj (h.2.symm.trans h'.2)

theorem Copies.inj {p q : SourceRequest} {slug : String} {t u : Taxon} (h : ts.Copies p slug t)
    (h' : ts.Copies q slug u) : t = u := by
  obtain ⟨_, origin, asks, _, e, rfl⟩ := h
  obtain ⟨_, origin', asks', _, e', rfl⟩ := h'
  have same := Slug.comparison_inj.1 (e.symm.trans e')
  rw [← same] at asks'
  rw [asks.inj asks']

theorem get?_copies (listed : ts.taxons.IsListed) (compares : ts.request.comparison?.isSome = true)
    {p : SourceRequest} {asked : TaxonMap} (h : ts.named p.taxons = .ok asked) {slug : String}
    {t : Taxon} :
    (Taxon.mapOf ((asked.values.filter Taxon.canCompare).map comparisonOf)).get? slug = some t ↔
      ts.Copies p slug t := by
  have copied {slug : String} {t : Taxon}
      (h' : (Taxon.mapOf ((asked.values.filter Taxon.canCompare).map comparisonOf)).get? slug =
        some t) : ts.Copies p slug t := by
    obtain ⟨copy, hcopy, e⟩ := List.mem_map.1 (SortedMap.mem_of_get?_ofList h')
    cases e
    obtain ⟨origin, horigin, rfl⟩ := List.mem_map.1 hcopy
    obtain ⟨horigin, comparable⟩ := List.mem_filter.1 horigin
    obtain ⟨key, hkey⟩ := SortedMap.mem_values.1 horigin
    have asks : ts.Asks p key origin := (get?_named h).1 (SortedMap.get?_eq_some_iff.2 hkey)
    cases listed.slug_eq asks.2
    exact ⟨compares, origin, asks, comparable, rfl, rfl⟩
  constructor
  · exact copied
  · intro copies
    obtain ⟨_, origin, asks, comparable, rfl, rfl⟩ := id copies
    have known : origin ∈ asked.values :=
      SortedMap.mem_values.2 ⟨_, SortedMap.get?_eq_some_iff.1 ((get?_named h).2 asks)⟩
    have key : Slug.comparison origin.slug ∈
        (Taxon.mapOf ((asked.values.filter Taxon.canCompare).map comparisonOf)).keys := by
      rw [Taxon.mapOf, SortedMap.mem_keys_ofList, List.map_map, List.map_map]
      exact List.mem_map.2 ⟨origin, List.mem_filter.2 ⟨known, comparable⟩, rfl⟩
    obtain ⟨u, hu⟩ := SortedMap.mem_keys.1 key
    have found := SortedMap.get?_eq_some_iff.2 hu
    rw [found, copies.inj (copied found)]

/-- What is not found is not there. -/
theorem eq_none_iff_of_some {α : Type} {x : Option α} {p : α → Prop} (h : ∀ a, x = some a ↔ p a) :
    x = none ↔ ∀ a, ¬ p a := by
  simp only [Option.eq_none_iff_forall_ne_some, ne_eq, h]

/-- What a part answers under a slug is what it shows. -/
theorem get?_answeredBy (listed : ts.taxons.IsListed) {p : SourceRequest} {answered : TaxonMap}
    (h : ts.answeredBy p = .ok answered) {slug : String} (t : Taxon) :
    answered.get? slug = some t ↔ ts.Shows p slug t := by
  obtain ⟨asked, hasked, h⟩ := Result.bind_eq_ok.1 h
  have asks (u : Taxon) : asked.get? slug = some u ↔ ts.Asks p slug u := get?_named hasked
  unfold Shows
  split at h
  · rename_i compares
    cases h
    rw [SortedMap.get?_merge, Option.or_eq_some_iff, eq_none_iff_of_some asks, asks,
      get?_copies listed compares hasked]
  · rename_i alone
    cases h
    rw [asks]
    exact (or_iff_left fun copies => alone copies.2.1).symm

theorem get?_foldl_merge (ms : List TaxonMap) (before : TaxonMap) (slug : String) :
    (ms.foldl SortedMap.merge before).get? slug =
      ((ms.foldl SortedMap.merge .empty).get? slug).or (before.get? slug) := by
  induction ms generalizing before with
  | nil => rfl
  | cons m ms ih =>
    rw [List.foldl_cons, List.foldl_cons, ih, ih (SortedMap.merge .empty m), SortedMap.get?_merge,
      SortedMap.get?_merge, Option.or_assoc, Option.or_assoc]
    rfl

/-- What all parts answer under a slug is what they show. -/
theorem get?_answeredByAll (listed : ts.taxons.IsListed) {ps : List SourceRequest}
    {each : List TaxonMap} (h : ps.mapM ts.answeredBy = .ok each) {slug : String} (t : Taxon) :
    (each.foldl SortedMap.merge .empty).get? slug = some t ↔ ts.Shown ps slug t := by
  have steps := Result.mapM_eq_ok.1 h
  clear h
  induction steps generalizing t with
  | nil => exact iff_of_false (fun h => nomatch h) id
  | @cons p answered ps each step _ ih =>
    have later (u : Taxon) : (each.foldl SortedMap.merge .empty).get? slug = some u ↔
        ts.Shown ps slug u := ih u
    have own : ((SortedMap.empty : TaxonMap).merge answered).get? slug = some t ↔
        ts.Shows p slug t := by
      rw [SortedMap.get?_merge, ← get?_answeredBy listed step t, Option.or_eq_some_iff]
      exact or_iff_left fun h => nomatch h.2
    rw [List.foldl_cons, get?_foldl_merge, Option.or_eq_some_iff, eq_none_iff_of_some later,
      later, own, Shown]

theorem exists_or_else {α : Type} {p q : α → Prop} :
    (∃ a, p a ∨ (∀ b, ¬ p b) ∧ q a) ↔ ∃ a, p a ∨ q a := by
  constructor
  · rintro ⟨a, h | h⟩
    · exact ⟨a, .inl h⟩
    · exact ⟨a, .inr h.2⟩
  · rintro ⟨a, h⟩
    by_cases first : ∃ b, p b
    · obtain ⟨b, hb⟩ := first
      exact ⟨b, .inl hb⟩
    · exact ⟨a, .inr ⟨not_exists.1 first, h.resolve_left (not_exists.1 first a)⟩⟩

/-- A taxon is shown for each slug that some part asks for or compares. -/
theorem exists_shown_iff {ps : List SourceRequest} {slug : String} :
    (∃ t, ts.Shown ps slug t) ↔ ∃ p ∈ ps, ∃ t, ts.Asks p slug t ∨ ts.Copies p slug t := by
  induction ps with
  | nil => exact iff_of_false (fun ⟨_, h⟩ => h) fun ⟨_, h, _⟩ => nomatch h
  | cons p ps ih =>
    have own : (∃ t, ts.Shows p slug t) ↔ ∃ t, ts.Asks p slug t ∨ ts.Copies p slug t :=
      exists_or_else
    have first : (∃ t, ts.Shown (p :: ps) slug t) ↔
        ∃ t, ts.Shown ps slug t ∨ ts.Shows p slug t := exists_or_else
    rw [first, exists_or, ih, own, List.exists_mem_cons_iff]
    exact or_comm

theorem mem_keys_named {slugs : List String} {found : TaxonMap} (h : ts.named slugs = .ok found)
    {slug : String} :
    slug ∈ found.keys ↔ ∃ asked ∈ slugs, Slug.withoutQuotes asked = slug := by
  constructor
  · intro hs
    obtain ⟨t, ht⟩ := SortedMap.mem_keys.1 hs
    exact ((get?_named h).1 (SortedMap.get?_eq_some_iff.2 ht)).1
  · rintro ⟨asked, hasked, rfl⟩
    obtain ⟨entries, hentries, _⟩ := Result.map_eq_ok.1 h
    obtain ⟨_, _, step⟩ := Result.mapM_mem_ok hentries hasked
    obtain ⟨t, known, _⟩ := Result.map_eq_ok.1 step
    have found := (get?_named h).2 ⟨⟨asked, hasked, rfl⟩, taxon_eq_ok_iff.1 known⟩
    exact SortedMap.mem_keys.2 ⟨t, SortedMap.get?_eq_some_iff.1 found⟩

/-- Of parts that can be answered, all taxons asked for are known. -/
theorem exists_shown_parts_iff (listed : ts.taxons.IsListed) {each : List TaxonMap}
    (h : ts.request.parts.mapM ts.answeredBy = .ok each) {slug : String} :
    (∃ t, ts.Shown ts.request.parts slug t) ↔ ts.IsAsked slug ∨ ts.IsCopied slug := by
  rw [exists_shown_iff]
  constructor
  · rintro ⟨p, hp, t, ⟨⟨asked, hasked, e⟩, _⟩ | ⟨compares, origin, asks, comparable, rfl, _⟩⟩
    · exact .inl ⟨p, hp, asked, hasked, e⟩
    · obtain ⟨⟨asked, hasked, e⟩, known⟩ := asks
      exact .inr ⟨compares, p, hp, asked, hasked, origin, e ▸ known, comparable, by rw [e]⟩
  · rintro (⟨p, hp, asked, hasked, rfl⟩ |
      ⟨compares, p, hp, asked, hasked, t, known, comparable, rfl⟩)
    · obtain ⟨answered, _, step⟩ := Result.mapM_mem_ok h hp
      obtain ⟨found, hfound, _⟩ := Result.bind_eq_ok.1 step
      obtain ⟨t, ht⟩ := SortedMap.mem_keys.1 ((mem_keys_named hfound).2 ⟨asked, hasked, rfl⟩)
      exact ⟨p, hp, t, .inl ((get?_named hfound).1 (SortedMap.get?_eq_some_iff.2 ht))⟩
    · have own : t.slug = Slug.withoutQuotes asked := listed.slug_eq known
      refine ⟨p, hp, comparisonOf t, .inr ⟨compares, t, ⟨⟨asked, hasked, own.symm⟩, ?_⟩, comparable,
        by rw [own], rfl⟩⟩
      rw [own]
      exact known

/-- A request whose taxons are named can be answered. -/
theorem exists_named_iff {slugs : List String} :
    (∃ found, ts.named slugs = .ok found) ↔
      ∀ asked ∈ slugs, ∃ t, ts.taxons.get? (Slug.withoutQuotes asked) = some t := by
  unfold named
  rw [Result.exists_map_ok, Result.exists_mapM_iff]
  refine forall₂_congr fun asked _ => ?_
  rw [Result.exists_map_ok]
  exact exists_congr fun t => taxon_eq_ok_iff

theorem exists_answeredBy_iff {p : SourceRequest} :
    (∃ answered, ts.answeredBy p = .ok answered) ↔ ∃ found, ts.named p.taxons = .ok found := by
  refine (Result.exists_bind_iff fun found => iff_of_true ?_ trivial).trans (and_iff_left trivial)
  by_cases compares : ts.request.comparison?.isSome = true
  · exact ⟨_, if_pos compares⟩
  · exact ⟨_, if_neg compares⟩

/-- A request can be answered if its parts can, and with grouping sets their members are known. -/
theorem exists_answered_iff :
    (∃ answered, ts.answered = .ok answered) ↔
      (∀ p ∈ ts.request.parts, ∃ found, ts.named p.taxons = .ok found) ∧
        (ts.request.groupingSets?.isSome = true →
          ∃ found, ts.named ts.request.groupingTaxons.toList = .ok found) := by
  have parts : (∃ each, ts.request.parts.mapM ts.answeredBy = .ok each) ↔
      ∀ p ∈ ts.request.parts, ∃ found, ts.named p.taxons = .ok found :=
    Result.exists_mapM_iff.trans (forall₂_congr fun _ _ => exists_answeredBy_iff)
  refine (Result.exists_bind_iff fun each => ?_).trans (and_congr_left' parts)
  dsimp only
  split
  · rename_i grouped
    rw [forall_prop_of_true grouped]
    exact Result.exists_bind_ok
  · rename_i ungrouped
    exact iff_of_true ⟨_, rfl⟩ fun grouped => absurd grouped ungrouped

theorem Shown.slug_eq (listed : ts.taxons.IsListed) {ps : List SourceRequest} {slug : String}
    {t : Taxon} (h : ts.Shown ps slug t) : t.slug = slug := by
  induction ps with
  | nil => cases h
  | cons p ps ih =>
    rcases h with h | ⟨_, asks | ⟨_, _, origin, _, _, rfl, rfl⟩⟩
    · exact ih h
    · exact listed.slug_eq asks.2
    · rfl

theorem notMem_groupingTaxons (ungrouped : ¬ ts.request.groupingSets?.isSome = true)
    (asked : String) : asked ∉ ts.request.groupingTaxons := by
  rw [BlendRequest.groupingTaxons, Option.not_isSome_iff_eq_none.1 ungrouped, SortedSet.mem_ofList]
  exact List.not_mem_nil

/-- The taxons of an answer: with grouping sets their members, and no other dimensions. -/
theorem get?_answered (listed : ts.taxons.IsListed) {answered : TaxonMap}
    (h : ts.answered = .ok answered) {slug : String} {t : Taxon} :
    answered.get? slug = some t ↔
      (∃ asked ∈ ts.request.groupingTaxons, Slug.withoutQuotes asked = slug) ∧
          ts.taxons.get? slug = some t ∨
        (¬ ∃ asked ∈ ts.request.groupingTaxons, Slug.withoutQuotes asked = slug) ∧
          ts.Shown ts.request.parts slug t ∧
          (ts.request.groupingSets?.isSome = true → t.isDimension = false) := by
  obtain ⟨each, heach, h⟩ := Result.bind_eq_ok.1 h
  have shown (u : Taxon) := @get?_answeredByAll ts listed ts.request.parts each heach slug u
  dsimp only at h
  split at h
  · rename_i grouped
    obtain ⟨members, hmembers, h⟩ := Result.bind_eq_ok.1 h
    cases h
    have other : members.get? slug = none ↔
        ¬ ∃ asked ∈ ts.request.groupingTaxons, Slug.withoutQuotes asked = slug := by
      rw [SortedMap.get?_eq_none_iff, mem_keys_named hmembers]
      rfl
    rw [SortedMap.get?_merge, Option.or_eq_some_iff, get?_named hmembers, other,
      SortedMap.get?_filter, shown, Bool.not_eq_true', forall_prop_of_true grouped]
    rfl
  · rename_i ungrouped
    cases h
    have none : ¬ ∃ asked ∈ ts.request.groupingTaxons, Slug.withoutQuotes asked = slug :=
      fun member => notMem_groupingTaxons ungrouped _ member.choose_spec.1
    rw [shown, or_iff_right fun member => none member.1, and_iff_right none,
      and_iff_left fun grouped => absurd grouped ungrouped]

/-- The slugs of an answer: those that parts ask for and compare, and with grouping sets their
members in place of all other dimensions. -/
theorem mem_keys_answered (listed : ts.taxons.IsListed) {answered : TaxonMap}
    (h : ts.answered = .ok answered) :
    answered.IsListed ∧ ∀ slug, slug ∈ answered.keys ↔
      ((ts.IsAsked slug ∨ ts.IsCopied slug) ∧
        (ts.request.groupingSets?.isSome = true → ¬ ts.ShowsDimension slug)) ∨
      ∃ asked ∈ ts.request.groupingTaxons, Slug.withoutQuotes asked = slug := by
  obtain ⟨each, heach, _⟩ := Result.bind_eq_ok.1 h
  have lookup := @get?_answered ts listed answered h
  refine ⟨?_, fun slug => ?_⟩
  · rintro ⟨slug, t⟩ he
    rcases lookup.1 (SortedMap.get?_eq_some_iff.2 he) with ⟨_, known⟩ | ⟨_, shown, _⟩
    · exact listed.slug_eq known
    · exact shown.slug_eq listed
  · have shown := @get?_answeredByAll ts listed ts.request.parts each heach slug
    have members : (∃ asked ∈ ts.request.groupingTaxons, Slug.withoutQuotes asked = slug) →
        ∃ t, ts.taxons.get? slug = some t := by
      rintro ⟨asked, hasked, rfl⟩
      have grouped : ts.request.groupingSets?.isSome = true := by
        by_contra ungrouped
        exact notMem_groupingTaxons ungrouped _ hasked
      exact exists_named_iff.1 ((exists_answered_iff.1 ⟨_, h⟩).2 grouped) asked hasked
    have found : slug ∈ answered.keys ↔ ∃ t, answered.get? slug = some t :=
      SortedMap.mem_keys.trans (exists_congr fun t => SortedMap.get?_eq_some_iff.symm)
    rw [found, ← exists_shown_parts_iff listed heach]
    constructor
    · rintro ⟨t, ht⟩
      rcases lookup.1 ht with ⟨member, _⟩ | ⟨_, ht, metric⟩
      · exact .inr member
      · refine .inl ⟨⟨t, ht⟩, fun grouped => ?_⟩
        rintro ⟨u, hu, dimension⟩
        cases ((shown t).2 ht).symm.trans ((shown u).2 hu)
        exact absurd dimension (by rw [metric grouped]; decide)
    · intro h
      by_cases member : ∃ asked ∈ ts.request.groupingTaxons, Slug.withoutQuotes asked = slug
      · obtain ⟨t, known⟩ := members member
        exact ⟨t, lookup.2 (.inl ⟨member, known⟩)⟩
      · obtain ⟨⟨t, ht⟩, metric⟩ := h.resolve_right member
        refine ⟨t, lookup.2 (.inr ⟨member, ht, fun grouped => ?_⟩)⟩
        exact Bool.eq_false_iff.2 fun dimension => metric grouped ⟨t, ht, dimension⟩

end RequestTaxons

theorem Dataframe.keys_project {df df' : Dataframe} {taxons : TaxonMap} {r : BlendRequest}
    (h : df.project taxons r = .ok df') (listed : taxons.IsListed) {slug : String} :
    slug ∈ df'.columns.keys ↔ slug ∈ taxons.keys := by
  obtain ⟨order, _, h⟩ := Result.bind_eq_ok.1 h
  obtain ⟨items, _, h⟩ := Result.bind_eq_ok.1 h
  cases h
  have slugs : taxons.values.map (·.slug) = taxons.keys := by
    unfold SortedMap.values SortedMap.keys
    rw [List.map_map]
    exact List.map_congr_left fun e he => listed e he
  refine SortedMap.mem_keys_ofList.trans ?_
  rw [List.map_map, ← slugs]
  rfl

theorem Dataframe.slugs_compiled {df : Dataframe} {d : Sql.Dialect} {out : CompiledRequest}
    (h : df.compiled d = .ok out) : out.columns.map (·.1) = df.columns.keys := by
  unfold compiled at h
  split at h
  · cases h
  · cases h
    exact Sql.OutputAlias.slugs_assign d .empty df.columns.keys

/-- Where a request is answered, each dataframe on the way lists its columns.  The answer has a
column for each taxon that some part asks for and for each comparison of one; with grouping sets,
their members are its only dimensions.  The statement lists these columns by their slugs. -/
theorem Catalog.answer_listsColumns {c : Catalog} {o : Options} {r : BlendRequest} {df : Dataframe}
    (listed : c.taxons.IsListed) (h : c.answer o r = .ok df) :
    ∃ (p : PlannedRequest) (st : p.Stages c o.maxMappings),
      r.distributed = .ok p.request ∧
      PlannedRequest.load c.taxons o.useFallback p.request = .ok p ∧
      st.results.project st.answered p.request = .ok df ∧
      st.ListColumns ∧ df.ListsColumns ∧
      (∀ slug, slug ∈ df.columns.keys ↔
        ((p.IsAsked slug ∨ p.IsCopied slug) ∧
          (p.request.groupingSets?.isSome = true → ¬ p.ShowsDimension slug)) ∨
        ∃ asked ∈ p.request.groupingTaxons, Slug.withoutQuotes asked = slug) ∧
      ∀ out, c.compile o r = .ok out → out.columns.map (·.1) = df.columns.keys := by
  obtain ⟨p, st, hp, hdf⟩ := answer_eq_ok h
  obtain ⟨distributed, hdistributed, hp⟩ := Result.bind_eq_ok.1 hp
  cases PlannedRequest.request_of_load hp
  obtain ⟨ts, hts, loaded⟩ := Result.bind_eq_ok.1 hp
  obtain ⟨plan, hplan, loaded⟩ := Result.bind_eq_ok.1 loaded
  cases loaded
  have known := RequestTaxons.isListed_load listed hts
  have matched := RequestTaxons.plan_isMatched known hplan
  obtain ⟨answered, keys⟩ := RequestTaxons.mem_keys_answered known st.answered_eq
  refine ⟨_, st, hdistributed, hp, hdf, st.listsColumns known matched,
    Dataframe.listsColumns_project hdf,
    fun slug => (Dataframe.keys_project hdf answered).trans (keys slug), fun out hout => ?_⟩
  obtain ⟨df', hdf', compiled⟩ := Result.bind_eq_ok.1 hout
  cases h.symm.trans hdf'
  exact Dataframe.slugs_compiled compiled

/-- The price of a click with its comparison, for each day and over all days. -/
theorem answer_listsColumns_cpc :
    let c : Catalog := ⟨clickTaxons, [clickModel.augmented], []⟩
    let r : BlendRequest := { clickRequest "cpc" with groupingSets? := some [["day"], []] }
    ∃ df, c.taxons.IsListed ∧ c.answer .default r = .ok df ∧ df.ListsColumns ∧
      df.columns.keys = ["comparison@cpc", "cpc", "day"] := by
  intro c r
  have listed : c.taxons.IsListed := by decide +kernel
  have answered : (c.answer .default r).toOption.any fun df =>
      df.columns.keys = ["comparison@cpc", "cpc", "day"] := by
    decide +kernel
  obtain ⟨df, hdf, keys⟩ := Result.ok_of_any answered
  obtain ⟨p, st, _, _, _, _, lists, _⟩ := Catalog.answer_listsColumns listed hdf
  exact ⟨df, listed, hdf, lists, of_decide_eq_true keys⟩

end SemanticLayer
