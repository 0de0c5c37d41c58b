import SemanticLayer.Proofs.Result
import SemanticLayer.Proofs.Taxonomy.Closure

/-!
# Resolution with aggregations

A resolution can load, with each taxon that it is given, those that its aggregation names, such as
the dimensions that sort it.  Their calculations are followed, their aggregations are not.

* `widened`: the slugs of a round with those that aggregations name;
* `loadRound_agree`: a round with aggregations is one without, over the widened slugs;
* `Got`, `Loads`: what references lead to, those of the taxons that aggregations name included;
* `Gathering`: what every round keeps;
* `resolveWith_aggregations_outcome`: what such a resolution collects, and when it succeeds.
-/

namespace SemanticLayer.Resolver

open Formula (UsedSlugs)
open Result (Agree)

variable {r : Resolver} {dataSources? : Option NameSet} {asked : NameSet}

/-- The aggregation of the taxon under a slug names another one. -/
def AggregatesBy (r : Resolver) (slug x : String) : Prop :=
  ∃ t a, (slug, t) ∈ r.taxons.toList ∧ t.knownAggregation? = some a ∧ x ∈ a.usedSlugs ∧
    Slug.isFormula x = false

/-- All slugs that the aggregations of some taxons name. -/
def aggregationSlugs (ts : TaxonMap) : NameSet :=
  .unions ((ts.values.filterMap Taxon.knownAggregation?).map Aggregation.usedSlugs)

/-- Some slugs with those that the aggregations of their taxons name. -/
def widened (r : Resolver) (slugs : NameSet) : NameSet :=
  slugs ∪ (aggregationSlugs (r.taxons.restrict slugs)).filter fun s => !Slug.isFormula s

theorem mem_aggregationSlugs {ts : TaxonMap} {x : String} :
    x ∈ aggregationSlugs ts ↔
      ∃ s t a, (s, t) ∈ ts.toList ∧ t.knownAggregation? = some a ∧ x ∈ a.usedSlugs := by
  unfold aggregationSlugs
  rw [SortedSet.mem_unions]
  constructor
  · rintro ⟨_, hslugs, hx⟩
    obtain ⟨a, ha, rfl⟩ := List.mem_map.1 hslugs
    obtain ⟨t, ht, known⟩ := List.mem_filterMap.1 ha
    obtain ⟨s, hs⟩ := SortedMap.mem_values.1 ht
    exact ⟨s, t, a, hs, known, hx⟩
  · rintro ⟨s, t, a, hs, known, hx⟩
    exact ⟨_, List.mem_map_of_mem
      (List.mem_filterMap.2 ⟨t, SortedMap.mem_values.2 ⟨s, hs⟩, known⟩), hx⟩

theorem mem_widened {slugs : NameSet} {x : String} :
    x ∈ r.widened slugs ↔ ∃ s ∈ slugs, x = s ∨ r.AggregatesBy s x := by
  unfold widened
  rw [SortedSet.mem_cup, SortedSet.mem_filter, mem_aggregationSlugs, Bool.not_eq_true']
  constructor
  · rintro (hx | ⟨⟨s, t, a, ht, known, hx⟩, proper⟩)
    · exact ⟨x, hx, .inl rfl⟩
    · obtain ⟨ht, hs⟩ := mem_restrict.1 ht
      exact ⟨s, hs, .inr ⟨t, a, ht, known, hx, proper⟩⟩
  · rintro ⟨s, hs, rfl | ⟨t, a, ht, known, hx, proper⟩⟩
    · exact .inl hs
    · exact .inr ⟨⟨s, t, a, mem_restrict.2 ⟨ht, hs⟩, known, hx⟩, proper⟩

theorem widened_proper {slugs : NameSet} (proper : ∀ s ∈ slugs, Slug.isFormula s = false) :
    ∀ s ∈ r.widened slugs, Slug.isFormula s = false := by
  intro x hx
  obtain ⟨s, hs, rfl | ⟨_, _, _, _, _, own⟩⟩ := mem_widened.1 hx
  · exact proper x hs
  · exact own

/-! ## A round -/

theorem merge_restrict (ts : TaxonMap) (slugs slugs' : NameSet) :
    (ts.restrict slugs').merge (ts.restrict slugs) = ts.restrict (slugs ∪ slugs') := by
  refine SortedMap.ext fun s t => ?_
  rw [SortedMap.get?_merge, Option.or_eq_some_iff, SortedMap.get?_eq_none_iff, mem_keys_restrict,
    get?_restrict, get?_restrict, get?_restrict, SortedSet.mem_cup]
  have known : ts.get? s = some t → s ∈ ts.keys := fun h =>
    SortedMap.mem_keys.2 ⟨t, SortedMap.get?_eq_some_iff.1 h⟩
  tauto

/-- What aggregations name is loaded like any other slug; no formula is among it. -/
theorem loadAggregationTaxons_eq_ok (none : r.temporary = .empty) {ts us : TaxonMap} {all : Bool} :
    r.loadAggregationTaxons ts all = .ok us ↔
      (all = true → ∀ s ∈ aggregationSlugs ts, Slug.isFormula s = false → s ∈ r.taxons.keys) ∧
      us = r.taxons.restrict ((aggregationSlugs ts).filter fun s => !Slug.isFormula s) := by
  unfold loadAggregationTaxons
  change (if (aggregationSlugs ts).isEmpty then _ else _) = _ ↔ _
  split
  · rename_i empty
    have nothing := SortedSet.isEmpty_iff.1 empty
    rw [restrict_of_isEmpty (SortedSet.isEmpty_iff.2 fun s hs => nothing s (SortedSet.mem_filter.1 hs).1)]
    constructor
    · rintro ⟨⟩
      exact ⟨fun _ s hs => absurd hs (nothing s), rfl⟩
    · rintro ⟨_, rfl⟩
      rfl
  · rw [load_eq_ok, none]
    rfl

/-- Loading taxons with those that their aggregations name is loading the widened slugs. -/
theorem loadRound_agree (none : r.temporary = .empty) {slugs : NameSet}
    (proper : ∀ s ∈ slugs, Slug.isFormula s = false) (all : Bool) :
    Agree (r.loadRound true slugs all) (r.loadRound false (r.widened slugs) all) := by
  refine Agree.iff.2 fun ts => ?_
  rw [loadRound_eq_ok (widened_proper proper)]
  unfold loadRound
  by_cases empty : slugs.isEmpty = true
  · have widens : ∀ s, s ∉ r.widened slugs := fun x hx => by
      obtain ⟨s, hs, _⟩ := mem_widened.1 hx
      exact SortedSet.isEmpty_iff.1 empty s hs
    rw [if_pos empty, restrict_of_isEmpty (SortedSet.isEmpty_iff.2 widens)]
    constructor
    · rintro ⟨⟩
      exact ⟨fun _ s hs => absurd hs (widens s), rfl⟩
    · rintro ⟨_, rfl⟩
      rfl
  rw [if_neg empty]
  simp only [if_true, Result.bind_eq_ok, load_eq_ok_of_proper proper]
  constructor
  · rintro ⟨_, ⟨complete, rfl⟩, us, hus, h⟩
    cases Except.ok.inj h
    obtain ⟨named, rfl⟩ := (loadAggregationTaxons_eq_ok none).1 hus
    refine ⟨fun h x hx => ?_, merge_restrict _ _ _⟩
    rcases SortedSet.mem_cup.1 hx with hx | hx
    · exact complete h x hx
    · obtain ⟨hx, proper⟩ := SortedSet.mem_filter.1 hx
      exact named h x hx (by simpa using proper)
  · rintro ⟨complete, rfl⟩
    refine ⟨_, ⟨fun h s hs => complete h s (SortedSet.mem_cup.2 (.inl hs)), rfl⟩, _,
      (loadAggregationTaxons_eq_ok none).2 ⟨fun h s hs proper => ?_, rfl⟩, congrArg _ (merge_restrict _ _ _)⟩
    exact complete h s (SortedSet.mem_cup.2 (.inr (SortedSet.mem_filter.2 ⟨hs, by rw [proper]; rfl⟩)))

/-- Some slugs, required ones apart, with those that the aggregations of their taxons name. -/
def widen (r : Resolver) (slugs : UsedSlugs) : UsedSlugs :=
  ⟨r.widened slugs.required, r.widened slugs.optional⟩

variable {used loaded : UsedTaxons} {seen slugs more : UsedSlugs}

theorem mem_widen_all {x : String} :
    x ∈ (r.widen slugs).all ↔ ∃ s ∈ slugs.all, x = s ∨ r.AggregatesBy s x := by
  rw [UsedSlugs.mem_all]
  change x ∈ r.widened slugs.required ∨ x ∈ r.widened slugs.optional ↔ _
  rw [mem_widened, mem_widened]
  simp only [UsedSlugs.mem_all, or_and_right, exists_or]

theorem proper_widen (proper : Proper slugs) : Proper (r.widen slugs) := by
  intro x hx
  rcases UsedSlugs.mem_all.1 hx with hx | hx
  · exact widened_proper proper.required x hx
  · exact widened_proper proper.optional x hx

/-- A round with aggregations is a round over the widened slugs. -/
theorem resolveRounds_agree (none : r.temporary = .empty) (proper : Proper slugs) (rounds : Nat) :
    Agree (r.resolveRounds dataSources? true (rounds + 1) used seen slugs)
      (if slugs.isEmpty then .ok used
        else r.round dataSources? seen (r.widen slugs) >>= fun (loaded, next) =>
          r.resolveRounds dataSources? true rounds (used.merge loaded) (seen.merge next) next) := by
  unfold round
  rw [resolveRounds]
  split
  · rfl
  rw [bind_assoc]
  refine (loadRound_agree none proper.required true).bind fun required _ => ?_
  rw [bind_assoc]
  refine (loadRound_agree none proper.optional false).bind fun optional _ => ?_
  rw [bind_assoc]
  exact .of_eq (Result.bind_congr fun next _ => rfl)

/-! ## What aggregations lead to -/

/-- Slugs that others lead to through references of some kind, also through those of taxons that
only the aggregations on the way name. -/
inductive Got (r : Resolver) (dataSources? : Option NameSet) (kind : UsedSlugs → NameSet)
    (asked : NameSet) : String → Prop
  | asked {s : String} (h : s ∈ asked) : Got r dataSources? kind asked s
  | named {s y x : String} {u : UsedSlugs} (h : Got r dataSources? kind asked s)
      (loads : y = s ∨ r.AggregatesBy s y) (names : r.Names dataSources? y u) (hx : x ∈ kind u) :
      Got r dataSources? kind asked x

/-- Slugs that are led to, and those that their aggregations name. -/
def Loads (r : Resolver) (dataSources? : Option NameSet) (kind : UsedSlugs → NameSet)
    (asked : NameSet) (y : String) : Prop :=
  ∃ s, Got r dataSources? kind asked s ∧ (y = s ∨ r.AggregatesBy s y)

theorem Got.loads {kind : UsedSlugs → NameSet} {s : String} (h : Got r dataSources? kind asked s) :
    Loads r dataSources? kind asked s :=
  ⟨s, h, .inl rfl⟩

theorem Got.all {s : String} (h : Got r dataSources? (·.required) asked s) :
    Got r dataSources? (·.all) asked s := by
  induction h with
  | asked h => exact .asked h
  | named _ loads names hx ih => exact ih.named loads names (UsedSlugs.mem_all.2 (.inl hx))

theorem Loads.all {s : String} (h : Loads r dataSources? (·.required) asked s) :
    Loads r dataSources? (·.all) asked s := by
  obtain ⟨x, hx, loads⟩ := h
  exact ⟨x, hx.all, loads⟩

/-- Everything needed is there, and everything loaded can be read. -/
structure IsCompleteWithAggregations (r : Resolver) (dataSources? : Option NameSet)
    (asked : NameSet) : Prop where
  needed : ∀ s, Loads r dataSources? (·.required) asked s → s ∈ r.taxons.keys
  parses : ∀ s, Loads r dataSources? (·.all) asked s → r.Parses s

/-- What holds between two rounds. -/
structure Gathering (r : Resolver) (dataSources? : Option NameSet) (asked : NameSet)
    (used : UsedTaxons) (seen slugs : UsedSlugs) : Prop extends
    Followed r dataSources? used seen where
  loaded (s : String) (t : Taxon) : (s, t) ∈ used.required.toList ∨ (s, t) ∈ used.optional.toList →
    Loads r dataSources? (·.all) asked s ∧ (s, t) ∈ r.taxons.toList
  nextRequired : ∀ s ∈ slugs.required, Got r dataSources? (·.required) asked s
  next : ∀ s ∈ slugs.all, Got r dataSources? (·.all) asked s
  /-- Every slug seen has been loaded or is loaded next, with what its aggregation names. -/
  loads : ∀ s, s ∈ asked ∨ s ∈ seen.required →
    (∀ y, y = s ∨ r.AggregatesBy s y → y ∈ used.required.keys) ∨ s ∈ slugs.required
  loadsOptional : ∀ s ∈ seen.optional, (∀ y, y = s ∨ r.AggregatesBy s y → y ∈ r.taxons.keys →
    y ∈ used.optional.keys) ∨ s ∈ slugs.optional

namespace Gathering

theorem start : Gathering r dataSources? asked .empty .empty ⟨asked, .empty⟩ where
  loaded := fun _ _ h => h.elim (fun h => by cases h) fun h => by cases h
  nextRequired := fun _ h => .asked h
  next := fun _ h => (UsedSlugs.mem_all.1 h).elim .asked fun h => by cases h
  loads := fun s h => .inr (h.resolve_right fun none => by cases none)
  loadsOptional := fun _ h => by cases h
  parses := fun _ h => h.elim (fun h => by cases h) fun h => by cases h
  follows := fun _ h => by cases h
  followsOptional := fun _ h => by cases h

/-- Once nothing is left to load, everything led to has been loaded. -/
theorem collects (h : Gathering r dataSources? asked used seen slugs)
    (none : slugs.isEmpty = true) :
    (∀ s, Loads r dataSources? (·.all) asked s → s ∈ r.taxons.keys →
      s ∈ used.required.keys ∨ s ∈ used.optional.keys) ∧
    IsCompleteWithAggregations r dataSources? asked := by
  obtain ⟨noRequired, noOptional⟩ := Bool.and_eq_true_iff.1 none
  have loaded (s : String) (hs : s ∈ asked ∨ s ∈ seen.required) (y : String)
      (hy : y = s ∨ r.AggregatesBy s y) : y ∈ used.required.keys :=
    (h.loads s hs).resolve_right (SortedSet.isEmpty_iff.1 noRequired s) y hy
  have loadedOptional (s : String) (hs : s ∈ seen.optional) (y : String)
      (hy : y = s ∨ r.AggregatesBy s y) (known : y ∈ r.taxons.keys) : y ∈ used.optional.keys :=
    (h.loadsOptional s hs).resolve_right (SortedSet.isEmpty_iff.1 noOptional s) y hy known
  have needed (s : String) (hs : Got r dataSources? (·.required) asked s) (y : String)
      (hy : y = s ∨ r.AggregatesBy s y) : y ∈ used.required.keys := by
    induction hs generalizing y with
    | asked hs => exact loaded _ (.inl hs) y hy
    | named _ loads names hx ih =>
      exact loaded _ (.inr ((h.follows _ (ih _ loads) _ names).1 _ hx)) y hy
  have reached (s : String) (hs : Got r dataSources? (·.all) asked s) (y : String)
      (hy : y = s ∨ r.AggregatesBy s y) (known : y ∈ r.taxons.keys) :
      y ∈ used.required.keys ∨ y ∈ used.optional.keys := by
    induction hs generalizing y with
    | asked hs => exact .inl (loaded _ (.inl hs) y hy)
    | @named s z x u _ loads names hx ih =>
      have seen : x ∈ seen.required ∨ x ∈ seen.optional := by
        rcases ih z loads names.mem_keys with hz | hz
        · have follows := h.follows z hz u names
          exact (UsedSlugs.mem_all.1 hx).imp (follows.1 x) (follows.2 x)
        · exact UsedSlugs.mem_all.1 (h.followsOptional z hz u names x hx)
      exact seen.imp (fun hx => loaded x (.inr hx) y hy) fun hx => loadedOptional x hx y hy known
  refine ⟨fun y ⟨s, hs, hy⟩ => reached s hs y hy, fun y ⟨s, hs, hy⟩ => ?_, fun y ⟨s, hs, hy⟩ => ?_⟩
  · obtain ⟨t, ht⟩ := SortedMap.mem_keys.1 (needed s hs y hy)
    exact SortedMap.mem_keys.2 ⟨t, (h.loaded y t (.inl ht)).2⟩
  · intro t c known computed
    exact h.parses y (reached s hs y hy (SortedMap.mem_keys.2 ⟨t, known⟩)) t c known computed

theorem next_round (h : Gathering r dataSources? asked used seen slugs)
    (round : r.Round dataSources? seen (r.widen slugs) loaded more) :
    Gathering r dataSources? asked (used.merge loaded) (seen.merge more) more where
  toFollowed := h.toFollowed.next round
  loaded := fun s t ht => by
    have required (hs : s ∈ r.widened slugs.required) : Loads r dataSources? (·.all) asked s := by
      obtain ⟨z, hz, loads⟩ := mem_widened.1 hs
      exact ⟨z, (h.nextRequired z hz).all, loads⟩
    have optional (hs : s ∈ r.widened slugs.optional) : Loads r dataSources? (·.all) asked s := by
      obtain ⟨z, hz, loads⟩ := mem_widened.1 hs
      exact ⟨z, h.next z (UsedSlugs.mem_all.2 (.inr hz)), loads⟩
    rcases ht with ht | ht
    · rcases SortedMap.mem_toList_merge ht with ht | ht
      · obtain ⟨known, hs⟩ := (round.required s t).1 ht
        exact ⟨required hs, known⟩
      · exact h.loaded s t (.inl ht)
    · rcases SortedMap.mem_toList_merge ht with ht | ht
      · obtain ⟨known, hs⟩ := (round.optional s t).1 ht
        exact ⟨optional hs, known⟩
      · exact h.loaded s t (.inr ht)
  nextRequired := fun x hx => by
    obtain ⟨_, s, hs, u, names, hx⟩ := (round.nextRequired x).1 hx
    obtain ⟨z, hz, loads⟩ := mem_widened.1 hs
    exact (h.nextRequired z hz).named loads names hx
  next := fun x hx => by
    have follows (s : String) (hs : s ∈ (r.widen slugs).all) (u : UsedSlugs)
        (names : r.Names dataSources? s u) (hx : x ∈ u.all) :
        Got r dataSources? (·.all) asked x := by
      obtain ⟨z, hz, loads⟩ := mem_widen_all.1 hs
      exact (h.next z hz).named loads names hx
    rcases UsedSlugs.mem_all.1 hx with hx | hx
    · obtain ⟨_, s, hs, u, names, hx⟩ := (round.nextRequired x).1 hx
      exact follows s (UsedSlugs.mem_all.2 (.inl hs)) u names (UsedSlugs.mem_all.2 (.inl hx))
    · obtain ⟨_, s, hs, u, names, hx⟩ | ⟨_, s, hs, u, names, hx⟩ := (round.nextOptional x).1 hx
      · exact follows s (UsedSlugs.mem_all.2 (.inl hs)) u names (UsedSlugs.mem_all.2 (.inr hx))
      · exact follows s (UsedSlugs.mem_all.2 (.inr hs)) u names hx
  loads := fun s hs => by
    have old (hs : s ∈ asked ∨ s ∈ seen.required) (y : String) (hy : y = s ∨ r.AggregatesBy s y) :
        y ∈ (used.merge loaded).required.keys := by
      rw [mem_keys_merge_required, round.mem_required]
      rcases h.loads s hs with before | now
      · exact .inr (before y hy)
      · exact .inl (mem_widened.2 ⟨s, now, hy⟩)
    rcases hs with hs | hs
    · exact .inl (old (.inl hs))
    · rcases SortedSet.mem_cup.1 hs with hs | hs
      · exact .inl (old (.inr hs))
      · exact .inr hs
  loadsOptional := fun s hs => by
    rcases SortedSet.mem_cup.1 hs with hs | hs
    · refine .inl fun y hy known => ?_
      rw [mem_keys_merge_optional, round.mem_optional]
      rcases h.loadsOptional s hs with before | now
      · exact .inr (before y hy known)
      · exact .inl ⟨known, mem_widened.2 ⟨s, now, hy⟩⟩
    · exact .inr hs

end Gathering

/-! ## A whole resolution -/

/-- The taxons that are led to, and those that their aggregations name. -/
def CollectsWithAggregations (r : Resolver) (dataSources? : Option NameSet) (asked : NameSet)
    (used : UsedTaxons) : Prop :=
  ∀ s t, (s, t) ∈ used.all.toList ↔
    Loads r dataSources? (·.all) asked s ∧ (s, t) ∈ r.taxons.toList

theorem Gathering.outcome (h : Gathering r dataSources? asked used seen slugs)
    (none : slugs.isEmpty = true) :
    CollectsWithAggregations r dataSources? asked used ∧
      IsCompleteWithAggregations r dataSources? asked := by
  obtain ⟨loaded, complete⟩ := h.collects none
  refine ⟨fun s t => ?_, complete⟩
  rw [mem_toList_all fun s t ht => (h.loaded s t ht).2]
  refine and_congr_left fun known => ⟨fun hs => ?_, fun loads => ?_⟩
  · rcases hs with hs | hs <;> obtain ⟨t', ht'⟩ := SortedMap.mem_keys.1 hs
    · exact (h.loaded s t' (.inl ht')).1
    · exact (h.loaded s t' (.inr ht')).1
  · exact loaded s loads (SortedMap.mem_keys.2 ⟨t, known⟩)

theorem resolveRounds_outcome (none : r.temporary = .empty) {names : List String} {rounds : Nat}
    (all : ∀ s u, r.Names dataSources? s u → ∀ x ∈ u.all, x ∈ names) (proper : Proper slugs)
    (bounded : Bounded names rounds seen slugs)
    (h : Gathering r dataSources? asked used seen slugs) :
    (∀ found, r.resolveRounds dataSources? true rounds used seen slugs = .ok found →
      CollectsWithAggregations r dataSources? asked found) ∧
    ((∃ found, r.resolveRounds dataSources? true rounds used seen slugs = .ok found) ↔
      IsCompleteWithAggregations r dataSources? asked) := by
  induction rounds generalizing used seen slugs with
  | zero =>
    obtain ⟨collects, complete⟩ := h.outcome bounded.isEmpty
    exact ⟨fun _ h => Except.ok.inj h ▸ collects, fun _ => complete, fun _ => ⟨_, rfl⟩⟩
  | succ rounds ih =>
    simp only [Agree.iff.1 (resolveRounds_agree none proper rounds)]
    by_cases last : slugs.isEmpty = true
    · rw [if_pos last]
      obtain ⟨collects, complete⟩ := h.outcome last
      exact ⟨fun _ h => Except.ok.inj h ▸ collects, fun _ => complete, fun _ => ⟨_, rfl⟩⟩
    rw [if_neg last]
    cases ran : r.round dataSources? seen (r.widen slugs) with
    | error e =>
      refine ⟨fun _ h => (by cases h), fun ⟨_, h⟩ => (by cases h), fun complete => ?_⟩
      have needed : ∀ s ∈ r.widened slugs.required, s ∈ r.taxons.keys := fun s hs => by
        obtain ⟨z, hz, loads⟩ := mem_widened.1 hs
        exact complete.needed s ⟨z, h.nextRequired z hz, loads⟩
      have parses : ∀ s ∈ (r.widen slugs).all, r.Parses s := fun s hs => by
        obtain ⟨z, hz, loads⟩ := mem_widen_all.1 hs
        exact complete.parses s ⟨z, h.next z hz, loads⟩
      obtain ⟨_, succeeds⟩ :=
        (exists_round_iff dataSources? (proper_widen proper)).2 ⟨needed, parses⟩
      cases ran.symm.trans succeeds
    | ok loadedMore =>
      obtain ⟨loaded, more⟩ := loadedMore
      have round := round_eq_ok (proper_widen proper) ran
      exact ih round.proper (bounded.next last round all) (h.next_round round)

/-- A resolution with aggregations collects all taxons that the requested ones lead to, those that
aggregations name included, and succeeds if what it needs is there and all of them can be read. -/
theorem resolveWith_aggregations_outcome (none : r.temporary = .empty)
    (proper : ∀ s ∈ asked, Slug.isFormula s = false) :
    (∀ found, r.resolveWith dataSources? true asked = .ok found →
      CollectsWithAggregations r dataSources? asked found) ∧
    ((∃ found, r.resolveWith dataSources? true asked = .ok found) ↔
      IsCompleteWithAggregations r dataSources? asked) := by
  obtain ⟨names, enough, hnames⟩ := exists_names_of_calculations r dataSources?
  exact resolveRounds_outcome none hnames (proper_asked proper) (.start enough) .start

end SemanticLayer.Resolver
