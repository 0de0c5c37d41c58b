import SemanticLayer.Proofs.Taxonomy.Aggregations

/-!
# What aggregations name in a resolution

A resolution with aggregations loads, with each taxon that references lead to, those that its
aggregation names.  It does not go on to what the aggregations of those name.

* `known`: all taxons that can be loaded, temporary ones for formulas included;
* `Brings`, `Led`, `IsLoaded`: what loading a taxon brings, what references lead to from there, and
  what is loaded in all;
* `Collecting`: what every round keeps, `Collecting.collected`: what it is once nothing is left;
* `Collected.aggregatesWithin_iff`: when everything that aggregations name is there.
-/

namespace SemanticLayer

/-- Every taxon that an aggregation of some taxons names is among others. -/
def TaxonMap.AggregatesWithin (ts us : TaxonMap) : Prop :=
  ∀ t ∈ ts.values, ∀ a, t.knownAggregation? = some a → ∀ x ∈ a.usedSlugs, x ∈ us.keys

instance (ts us : TaxonMap) : Decidable (ts.AggregatesWithin us) :=
  decidable_of_iff
    (∀ t ∈ ts.values, ∀ a ∈ t.knownAggregation?, ∀ x ∈ a.usedSlugs.toList, x ∈ us.keys) Iff.rfl

namespace Resolver

open Formula (UsedSlugs)

variable {r : Resolver} {dataSources? : Option NameSet} {asked : NameSet}

/-! ## Loading from both maps -/

/-- All taxons that can be loaded: a formula is found among the temporary ones. -/
def known (r : Resolver) : TaxonMap :=
  (r.taxons.filter fun s _ => !Slug.isFormula s).merge
    (r.temporary.filter fun s _ => Slug.isFormula s)

/-- The resolver with these taxons only. -/
def whole (r : Resolver) : Resolver := { r with taxons := r.known, temporary := .empty }

theorem get?_known {s : String} {t : Taxon} : r.known.get? s = some t ↔
    (if Slug.isFormula s then r.temporary else r.taxons).get? s = some t := by
  have formulas (t : Taxon) : (r.temporary.filter fun s _ => Slug.isFormula s).get? s = some t ↔ _ :=
    SortedMap.get?_filter
  have slugs (t : Taxon) : (r.taxons.filter fun s _ => !Slug.isFormula s).get? s = some t ↔ _ :=
    SortedMap.get?_filter
  unfold known
  rw [SortedMap.get?_merge, Option.or_eq_some_iff, Option.eq_none_iff_forall_ne_some]
  simp only [Ne, formulas, slugs]
  cases Slug.isFormula s <;> simp

theorem mem_keys_known_of_not_isFormula {s : String} (proper : Slug.isFormula s = false) :
    s ∈ r.known.keys ↔ s ∈ r.taxons.keys := by
  rw [SortedMap.mem_keys, SortedMap.mem_keys]
  refine exists_congr fun t => ?_
  rw [← SortedMap.get?_eq_some_iff, ← SortedMap.get?_eq_some_iff, get?_known, proper,
    if_neg Bool.false_ne_true]

/-- What is loaded are the known taxons, and where all must be there, all but formulas are. -/
theorem eq_restrict_of_load {slugs : NameSet} {all : Bool} {ts : TaxonMap}
    (h : r.load slugs all = .ok ts) : ts = r.known.restrict slugs ∧
      (all = true → ∀ s ∈ slugs, Slug.isFormula s = false → s ∈ r.known.keys) := by
  obtain ⟨complete, rfl⟩ := load_eq_ok.1 h
  refine ⟨SortedMap.ext fun s t => ?_, fun must s hs proper =>
    (mem_keys_known_of_not_isFormula proper).2 (complete must s hs proper)⟩
  rw [get?_restrict, get?_known, SortedMap.get?_merge, Option.or_eq_some_iff,
    Option.eq_none_iff_forall_ne_some]
  simp only [Ne, get?_restrict, SortedSet.mem_filter]
  cases Slug.isFormula s <;> simp

/-- The aggregation of a known taxon names another one. -/
def NamesByAggregation (r : Resolver) (slug x : String) : Prop :=
  ∃ t a, (slug, t) ∈ r.known.toList ∧ t.knownAggregation? = some a ∧ x ∈ a.usedSlugs

/-- A slug that is loaded brings itself and what its aggregation names. -/
def Brings (r : Resolver) (slug x : String) : Prop := x = slug ∨ r.NamesByAggregation slug x

/-- Some slugs with those that they bring. -/
def brought (r : Resolver) (slugs : NameSet) : NameSet :=
  slugs ∪ aggregationSlugs (r.known.restrict slugs)

theorem mem_brought {slugs : NameSet} {x : String} :
    x ∈ r.brought slugs ↔ ∃ s ∈ slugs, r.Brings s x := by
  unfold brought
  rw [SortedSet.mem_cup, mem_aggregationSlugs]
  constructor
  · rintro (hx | ⟨s, t, a, ht, aggregated, hx⟩)
    · exact ⟨x, hx, .inl rfl⟩
    · obtain ⟨ht, hs⟩ := mem_restrict.1 ht
      exact ⟨s, hs, .inr ⟨t, a, ht, aggregated, hx⟩⟩
  · rintro ⟨s, hs, rfl | ⟨t, a, ht, aggregated, hx⟩⟩
    · exact .inl hs
    · exact .inr ⟨s, t, a, mem_restrict.2 ⟨ht, hs⟩, aggregated, hx⟩

theorem eq_restrict_of_loadAggregationTaxons {ts us : TaxonMap} {all : Bool}
    (h : r.loadAggregationTaxons ts all = .ok us) : us = r.known.restrict (aggregationSlugs ts) ∧
      (all = true → ∀ s ∈ aggregationSlugs ts, Slug.isFormula s = false → s ∈ r.known.keys) := by
  unfold loadAggregationTaxons at h
  change (if (aggregationSlugs ts).isEmpty then _ else r.load (aggregationSlugs ts) all) = _ at h
  split at h
  · rename_i empty
    cases h
    exact ⟨(restrict_of_isEmpty empty).symm,
      fun _ s hs => absurd hs (SortedSet.isEmpty_iff.1 empty s)⟩
  · exact eq_restrict_of_load h

/-- A round with aggregations loads what its slugs bring. -/
theorem eq_restrict_of_loadRound {slugs : NameSet} {all : Bool} {ts : TaxonMap}
    (h : r.loadRound true slugs all = .ok ts) : ts = r.known.restrict (r.brought slugs) ∧
      (all = true → ∀ s ∈ r.brought slugs, Slug.isFormula s = false → s ∈ r.known.keys) := by
  unfold loadRound at h
  by_cases empty : slugs.isEmpty = true
  · rw [if_pos empty] at h
    cases h
    have nothing (s : String) : s ∉ r.brought slugs := fun hs => by
      obtain ⟨z, hz, _⟩ := mem_brought.1 hs
      exact SortedSet.isEmpty_iff.1 empty z hz
    exact ⟨(restrict_of_isEmpty (SortedSet.isEmpty_iff.2 nothing)).symm,
      fun _ s hs => absurd hs (nothing s)⟩
  · rw [if_neg empty] at h
    simp only [if_true] at h
    obtain ⟨own, loaded, h⟩ := Result.bind_eq_ok.1 h
    obtain ⟨more, named, h⟩ := Result.bind_eq_ok.1 h
    cases h
    obtain ⟨rfl, complete⟩ := eq_restrict_of_load loaded
    obtain ⟨rfl, complete'⟩ := eq_restrict_of_loadAggregationTaxons named
    refine ⟨merge_restrict _ _ _, fun must s hs => ?_⟩
    exact (SortedSet.mem_cup.1 hs).elim (complete must s) (complete' must s)

/-! ## Rounds -/

variable {used loaded found : UsedTaxons} {seen slugs more : UsedSlugs}

theorem restrict_keySet (ts : TaxonMap) (slugs : NameSet) :
    ts.restrict (ts.restrict slugs).keySet = ts.restrict slugs := by
  refine SortedMap.ext fun s t => ?_
  rw [get?_restrict, get?_restrict]
  refine and_congr_right fun found => ?_
  have here : s ∈ ts.keys := SortedMap.mem_keys.2 ⟨t, SortedMap.get?_eq_some_iff.1 found⟩
  exact mem_keys_restrict.trans (and_iff_right here)

/-- The slugs of what a round loads. -/
def roundSlugs (r : Resolver) (slugs : UsedSlugs) : UsedSlugs :=
  ⟨(r.known.restrict (r.brought slugs.required)).keySet,
    (r.known.restrict (r.brought slugs.optional)).keySet⟩

theorem mem_keySet_brought {slugs : NameSet} {x : String} :
    x ∈ (r.known.restrict (r.brought slugs)).keySet ↔
      x ∈ r.known.keys ∧ ∃ s ∈ slugs, r.Brings s x :=
  mem_keys_restrict.trans (and_congr_right fun _ => mem_brought)

/-- A round with aggregations is one without, over the slugs of what it loads. -/
theorem round_of_nextSlugs
    (h : nextSlugs dataSources? ⟨r.known.restrict (r.brought slugs.required),
      r.known.restrict (r.brought slugs.optional)⟩ seen = .ok more) :
    r.whole.Round dataSources? seen (r.roundSlugs slugs)
      ⟨r.known.restrict (r.brought slugs.required), r.known.restrict (r.brought slugs.optional)⟩
      more := by
  rw [← restrict_keySet r.known (r.brought slugs.required),
    ← restrict_keySet r.known (r.brought slugs.optional)] at h
  obtain ⟨byRequired, hrequired, h⟩ := Result.bind_eq_ok.1 h
  obtain ⟨byOptional, hoptional, h⟩ := Result.bind_eq_ok.1 h
  cases h
  have mem (slugs : NameSet) (s : String) (t : Taxon) : (s, t) ∈ (r.known.restrict slugs).toList ↔
      (s, t) ∈ r.known.toList ∧ s ∈ (r.known.restrict slugs).keySet := by
    conv_lhs => rw [← restrict_keySet]
    exact mem_restrict
  exact {
    complete := fun s hs => (mem_keys_restrict.1 hs).1
    required := mem (r.brought slugs.required)
    optional := mem (r.brought slugs.optional)
    parses := fun s hs => (UsedSlugs.mem_all.1 hs).elim
      ((exists_references_restrict_iff (r := r.whole) _).1 ⟨_, hrequired⟩ s)
      ((exists_references_restrict_iff (r := r.whole) _).1 ⟨_, hoptional⟩ s)
    nextRequired := fun x => by
      rw [SortedSet.mem_diff, mem_unions_references (r := r.whole) hrequired, and_comm]
      rfl
    nextOptional := fun x => by
      rw [SortedSet.mem_cup, SortedSet.mem_diff, SortedSet.mem_diff,
        mem_unions_references (r := r.whole) hrequired,
        mem_unions_references (r := r.whole) hoptional, and_comm]
      exact or_congr_right and_comm }

/-! ## What references lead to -/

/-- Slugs that others lead to through references of some kind, those of what is brought on the way
included. -/
inductive Led (r : Resolver) (dataSources? : Option NameSet) (kind : UsedSlugs → NameSet)
    (asked : NameSet) : String → Prop
  | asked {s : String} (h : s ∈ asked) : Led r dataSources? kind asked s
  | named {s y x : String} {u : UsedSlugs} (h : Led r dataSources? kind asked s)
      (brings : r.Brings s y) (names : r.whole.Names dataSources? y u) (hx : x ∈ kind u) :
      Led r dataSources? kind asked x

/-- Known slugs that references lead to, and those that they bring. -/
def IsLoaded (r : Resolver) (dataSources? : Option NameSet) (kind : UsedSlugs → NameSet)
    (asked : NameSet) (x : String) : Prop :=
  x ∈ r.known.keys ∧ ∃ s, Led r dataSources? kind asked s ∧ r.Brings s x

theorem Led.all {s : String} (h : Led r dataSources? (·.required) asked s) :
    Led r dataSources? (·.all) asked s := by
  induction h with
  | asked h => exact .asked h
  | named _ brings names hx ih => exact ih.named brings names (UsedSlugs.mem_all.2 (.inl hx))

theorem IsLoaded.all {s : String} (h : IsLoaded r dataSources? (·.required) asked s) :
    IsLoaded r dataSources? (·.all) asked s := by
  obtain ⟨known, z, hz, brings⟩ := h
  exact ⟨known, z, hz.all, brings⟩

/-- What the references of something loaded name is led to. -/
theorem IsLoaded.led {kind : UsedSlugs → NameSet} {s x : String} {u : UsedSlugs}
    (h : IsLoaded r dataSources? kind asked s) (names : r.whole.Names dataSources? s u)
    (hx : x ∈ kind u) : Led r dataSources? kind asked x := by
  obtain ⟨_, z, hz, brings⟩ := h
  exact hz.named brings names hx

/-- What holds between two rounds. -/
structure Collecting (r : Resolver) (dataSources? : Option NameSet) (asked : NameSet)
    (used : UsedTaxons) (seen slugs : UsedSlugs) : Prop extends
    Followed r.whole dataSources? used seen where
  required (s : String) (t : Taxon) : (s, t) ∈ used.required.toList →
    IsLoaded r dataSources? (·.required) asked s ∧ (s, t) ∈ r.known.toList
  optional (s : String) (t : Taxon) : (s, t) ∈ used.optional.toList →
    IsLoaded r dataSources? (·.all) asked s ∧ (s, t) ∈ r.known.toList
  nextRequired : ∀ s ∈ slugs.required, Led r dataSources? (·.required) asked s
  next : ∀ s ∈ slugs.all, Led r dataSources? (·.all) asked s
  /-- Every slug seen has been loaded or is loaded next, with what it brings. -/
  loads : ∀ s, s ∈ asked ∨ s ∈ seen.required → s ∈ slugs.required ∨
    ∀ x, r.Brings s x → (x ∈ r.known.keys → x ∈ used.required.keys) ∧
      (Slug.isFormula x = false → x ∈ r.known.keys)
  loadsOptional : ∀ s ∈ seen.optional, s ∈ slugs.optional ∨
    ∀ x, r.Brings s x → x ∈ r.known.keys → x ∈ used.optional.keys

namespace Collecting

theorem start : Collecting r dataSources? asked .empty .empty ⟨asked, .empty⟩ where
  required := fun _ _ h => by cases h
  optional := fun _ _ h => by cases h
  nextRequired := fun _ h => .asked h
  next := fun _ h => (UsedSlugs.mem_all.1 h).elim .asked fun h => by cases h
  loads := fun s h => .inl (h.resolve_right fun none => by cases none)
  loadsOptional := fun _ h => by cases h
  parses := fun _ h => h.elim (fun h => by cases h) fun h => by cases h
  follows := fun _ h => by cases h
  followsOptional := fun _ h => by cases h

theorem isLoaded_required (h : Collecting r dataSources? asked used seen slugs) {s : String}
    (hs : s ∈ (r.roundSlugs slugs).required) : IsLoaded r dataSources? (·.required) asked s := by
  obtain ⟨known, z, hz, brings⟩ := mem_keySet_brought.1 hs
  exact ⟨known, z, h.nextRequired z hz, brings⟩

theorem isLoaded_optional (h : Collecting r dataSources? asked used seen slugs) {s : String}
    (hs : s ∈ (r.roundSlugs slugs).optional) : IsLoaded r dataSources? (·.all) asked s := by
  obtain ⟨known, z, hz, brings⟩ := mem_keySet_brought.1 hs
  exact ⟨known, z, h.next z (UsedSlugs.mem_all.2 (.inr hz)), brings⟩

theorem next_round (h : Collecting r dataSources? asked used seen slugs)
    (round : r.whole.Round dataSources? seen (r.roundSlugs slugs) loaded more)
    (complete : ∀ s ∈ r.brought slugs.required, Slug.isFormula s = false → s ∈ r.known.keys) :
    Collecting r dataSources? asked (used.merge loaded) (seen.merge more) more where
  toFollowed := h.toFollowed.next round
  required := fun s t ht => by
    rcases SortedMap.mem_toList_merge ht with ht | ht
    · obtain ⟨known, hs⟩ := (round.required s t).1 ht
      exact ⟨h.isLoaded_required hs, known⟩
    · exact h.required s t ht
  optional := fun s t ht => by
    rcases SortedMap.mem_toList_merge ht with ht | ht
    · obtain ⟨known, hs⟩ := (round.optional s t).1 ht
      exact ⟨h.isLoaded_optional hs, known⟩
    · exact h.optional s t ht
  nextRequired := fun x hx => by
    obtain ⟨_, s, hs, u, names, hx⟩ := (round.nextRequired x).1 hx
    exact (h.isLoaded_required hs).led names hx
  next := fun x hx => by
    rcases UsedSlugs.mem_all.1 hx with hx | hx
    · obtain ⟨_, s, hs, u, names, hx⟩ := (round.nextRequired x).1 hx
      exact ((h.isLoaded_required hs).led names hx).all
    · obtain ⟨_, s, hs, u, names, hx⟩ | ⟨_, s, hs, u, names, hx⟩ := (round.nextOptional x).1 hx
      · exact (h.isLoaded_required hs).all.led names (UsedSlugs.mem_all.2 (.inr hx))
      · exact (h.isLoaded_optional hs).led names hx
  loads := fun s hs => by
    have old (hs : s ∈ asked ∨ s ∈ seen.required) : ∀ x, r.Brings s x →
        (x ∈ r.known.keys → x ∈ (used.merge loaded).required.keys) ∧
          (Slug.isFormula x = false → x ∈ r.known.keys) := by
      intro x brings
      rw [mem_keys_merge_required, round.mem_required]
      rcases h.loads s hs with now | before
      · exact ⟨fun known => .inl (mem_keySet_brought.2 ⟨known, s, now, brings⟩),
          complete x (mem_brought.2 ⟨s, now, brings⟩)⟩
      · exact (before x brings).imp_left fun loads known => .inr (loads known)
    rcases hs with hs | hs
    · exact .inr (old (.inl hs))
    · exact (SortedSet.mem_cup.1 hs).symm.imp_right fun hs => old (.inr hs)
  loadsOptional := fun s hs => by
    refine (SortedSet.mem_cup.1 hs).symm.imp_right fun hs x brings known => ?_
    rw [mem_keys_merge_optional, round.mem_optional]
    rcases h.loadsOptional s hs with now | before
    · exact .inl ⟨known, mem_keySet_brought.2 ⟨known, s, now, brings⟩⟩
    · exact .inr (before x brings known)

end Collecting

/-- What a resolution with aggregations has loaded. -/
structure Collected (r : Resolver) (dataSources? : Option NameSet) (asked : NameSet)
    (used : UsedTaxons) : Prop where
  required (s : String) (t : Taxon) : (s, t) ∈ used.required.toList ↔
    IsLoaded r dataSources? (·.required) asked s ∧ (s, t) ∈ r.known.toList
  all (s : String) : s ∈ used.all.keys ↔ IsLoaded r dataSources? (·.all) asked s
  /-- All that is required is there, but formulas. -/
  complete (s x : String) : Led r dataSources? (·.required) asked s → r.Brings s x →
    Slug.isFormula x = false → x ∈ r.known.keys

/-- Once nothing is left to load, everything led to has been loaded. -/
theorem Collecting.collected (h : Collecting r dataSources? asked used seen slugs)
    (none : slugs.isEmpty = true) : Collected r dataSources? asked used := by
  obtain ⟨noRequired, noOptional⟩ := Bool.and_eq_true_iff.1 none
  have loads (s : String) (hs : s ∈ asked ∨ s ∈ seen.required) :=
    (h.loads s hs).resolve_left (SortedSet.isEmpty_iff.1 noRequired s)
  have loadsOptional (s : String) (hs : s ∈ seen.optional) :=
    (h.loadsOptional s hs).resolve_left (SortedSet.isEmpty_iff.1 noOptional s)
  have required (s : String) (hs : Led r dataSources? (·.required) asked s) :
      s ∈ asked ∨ s ∈ seen.required := by
    induction hs with
    | asked hs => exact .inl hs
    | @named s y x u _ brings names hx ih =>
      have here := (loads s ih y brings).1 names.mem_keys
      exact .inr ((h.follows y here u names).1 x hx)
  have all (s : String) (hs : Led r dataSources? (·.all) asked s) :
      (s ∈ asked ∨ s ∈ seen.required) ∨ s ∈ seen.optional := by
    induction hs with
    | asked hs => exact .inl (.inl hs)
    | @named s y x u _ brings names hx ih =>
      rcases ih with hs | hs
      · have follows := h.follows y ((loads s hs y brings).1 names.mem_keys) u names
        exact (UsedSlugs.mem_all.1 hx).imp (fun hx => .inr (follows.1 x hx)) (follows.2 x)
      · have here := loadsOptional s hs y brings names.mem_keys
        have seen := UsedSlugs.mem_all.1 (h.followsOptional y here u names x hx)
        exact seen.imp_left .inr
  refine ⟨fun s t => ⟨h.required s t, ?_⟩, fun s => ?_, fun s x hs brings => ?_⟩
  · rintro ⟨⟨there, z, hz, brings⟩, known⟩
    obtain ⟨t', ht'⟩ := SortedMap.mem_keys.1 ((loads z (required z hz) s brings).1 there)
    have same := SortedMap.get?_eq_some_iff.2 (h.required s t' ht').2
    rw [SortedMap.get?_eq_some_iff.2 known] at same
    cases same
    exact ht'
  · constructor
    · intro hs
      rcases SortedMap.mem_keys_merge.1 hs with hs | hs <;> obtain ⟨t, ht⟩ := SortedMap.mem_keys.1 hs
      · exact (h.required s t ht).1.all
      · exact (h.optional s t ht).1
    · rintro ⟨known, z, hz, brings⟩
      refine SortedMap.mem_keys_merge.2 ((all z hz).imp (fun hz => ?_) fun hz => ?_)
      · exact (loads z hz s brings).1 known
      · exact loadsOptional z hz s brings known
  · exact (loads s (required s hs) x brings).2

/-! ## A whole resolution -/

/-- A round with aggregations that succeeds. -/
theorem collecting_round {rounds : Nat} (some : ¬ slugs.isEmpty = true)
    (h : r.resolveRounds dataSources? true (rounds + 1) used seen slugs = .ok found) :
    ∃ loaded more, r.whole.Round dataSources? seen (r.roundSlugs slugs) loaded more ∧
      (∀ s ∈ r.brought slugs.required, Slug.isFormula s = false → s ∈ r.known.keys) ∧
      r.resolveRounds dataSources? true rounds (used.merge loaded) (seen.merge more) more =
        .ok found := by
  rw [resolveRounds, if_neg some] at h
  obtain ⟨required, hrequired, h⟩ := Result.bind_eq_ok.1 h
  obtain ⟨optional, hoptional, h⟩ := Result.bind_eq_ok.1 h
  obtain ⟨more, hmore, h⟩ := Result.bind_eq_ok.1 h
  obtain ⟨rfl, complete⟩ := eq_restrict_of_loadRound hrequired
  obtain ⟨rfl, _⟩ := eq_restrict_of_loadRound hoptional
  exact ⟨_, more, round_of_nextSlugs hmore, complete rfl, h⟩

theorem collected_of_resolveRounds {names : List String} {rounds : Nat}
    (all : ∀ s u, r.whole.Names dataSources? s u → ∀ x ∈ u.all, x ∈ names)
    (bounded : Bounded names rounds seen slugs)
    (h : Collecting r dataSources? asked used seen slugs)
    (run : r.resolveRounds dataSources? true rounds used seen slugs = .ok found) :
    Collected r dataSources? asked found := by
  induction rounds generalizing used seen slugs with
  | zero =>
    cases run
    exact h.collected bounded.isEmpty
  | succ rounds ih =>
    by_cases last : slugs.isEmpty = true
    · rw [resolveRounds, if_pos last] at run
      cases run
      exact h.collected last
    · obtain ⟨loaded, more, round, complete, run⟩ := collecting_round last run
      exact ih (bounded.next last round all) (h.next_round round complete) run

theorem names_whole {s : String} {u : UsedSlugs} (h : r.whole.Names dataSources? s u) :
    r.Names dataSources? s u ∨
      ∃ t c, (s, t) ∈ r.temporary.toList ∧ t.calculation? = some c ∧
        Formula.usedSlugs c dataSources? = .ok u := by
  obtain ⟨t, c, known, computed, read⟩ := h
  have found := get?_known.1 (SortedMap.get?_eq_some_iff.2 known)
  cases formula : Slug.isFormula s with
  | false =>
    rw [formula, if_neg Bool.false_ne_true] at found
    exact .inl ⟨t, c, SortedMap.get?_eq_some_iff.1 found, computed, read⟩
  | true =>
    rw [formula, if_pos rfl] at found
    exact .inr ⟨t, c, SortedMap.get?_eq_some_iff.1 found, computed, read⟩

/-- The rounds are enough for the names in the calculations of both maps. -/
theorem exists_names_of_known (r : Resolver) (dataSources? : Option NameSet) :
    ∃ names : List String, 2 * names.length < r.roundLimit ∧
      ∀ s u, r.whole.Names dataSources? s u → ∀ x ∈ u.all, x ∈ names := by
  obtain ⟨names, short, hnames⟩ :=
    exists_names dataSources? (r.taxons.values.filterMap Taxon.calculation?)
  obtain ⟨formulas, short', hformulas⟩ :=
    exists_names dataSources? (r.temporary.values.filterMap Taxon.calculation?)
  refine ⟨names ++ formulas, ?_, fun s u named x hx => List.mem_append.2 ?_⟩
  · have length : names.length ≤ calculationLength r.taxons := short
    have length' : formulas.length ≤ calculationLength r.temporary := short'
    rw [List.length_append]
    unfold roundLimit
    omega
  · refine (names_whole named).imp (fun h => ?_) fun h => ?_
    · obtain ⟨t, c, known, computed, read⟩ := h
      exact hnames c (mem_calculations.2 ⟨s, t, known, computed⟩) u read x hx
    · obtain ⟨t, c, known, computed, read⟩ := h
      exact hformulas c (mem_calculations.2 ⟨s, t, known, computed⟩) u read x hx

theorem collected_of_resolveWith (h : r.resolveWith dataSources? true asked = .ok found) :
    Collected r dataSources? asked found := by
  obtain ⟨names, enough, hnames⟩ := exists_names_of_known r dataSources?
  exact collected_of_resolveRounds hnames (.start enough) .start h

/-! ## What a resolution keeps -/

/-- What the aggregations name of those taxons that aggregations bring is loaded as well. -/
structure LoadsSecondNames (r : Resolver) (dataSources? : Option NameSet) (asked : NameSet) :
    Prop where
  formulas (s x : String) : Led r dataSources? (·.required) asked s → r.NamesByAggregation s x →
    Slug.isFormula x = true → x ∈ r.known.keys
  names (s y x : String) : Led r dataSources? (·.required) asked s → r.NamesByAggregation s y →
    r.NamesByAggregation y x → IsLoaded r dataSources? (·.all) asked x

/-- A resolution has what the aggregations of its required taxons name if and only if what those
that aggregations bring name is loaded for other reasons. -/
theorem Collected.aggregatesWithin_iff (h : Collected r dataSources? asked used) :
    used.required.AggregatesWithin used.all ↔ r.LoadsSecondNames dataSources? asked := by
  have within : used.required.AggregatesWithin used.all ↔
      ∀ s x, IsLoaded r dataSources? (·.required) asked s → r.NamesByAggregation s x →
        IsLoaded r dataSources? (·.all) asked x := by
    constructor
    · rintro within s x loaded ⟨t, a, ht, aggregated, hx⟩
      have there := SortedMap.mem_values.2 ⟨s, (h.required s t).2 ⟨loaded, ht⟩⟩
      exact (h.all x).1 (within t there a aggregated x hx)
    · intro within t ht a aggregated x hx
      obtain ⟨s, ht⟩ := SortedMap.mem_values.1 ht
      obtain ⟨loaded, ht⟩ := (h.required s t).1 ht
      exact (h.all x).2 (within s x loaded ⟨t, a, ht, aggregated, hx⟩)
  rw [within]
  have known {s x : String} (names : r.NamesByAggregation s x) : s ∈ r.known.keys := by
    obtain ⟨t, _, ht, _⟩ := names
    exact SortedMap.mem_keys.2 ⟨t, ht⟩
  constructor
  · intro within
    refine ⟨fun s x led names formula => ?_, fun s y x led names names' => ?_⟩
    · exact (within s x ⟨known names, s, led, .inl rfl⟩ names).1
    · exact within y x ⟨known names', s, led, .inr names⟩ names'
  · rintro second y x ⟨_, s, led, rfl | names⟩ names'
    -- What references lead to is loaded with all that its aggregation names.
    · cases formula : Slug.isFormula x with
      | true => exact ⟨second.formulas _ x led names' formula, _, led.all, .inr names'⟩
      | false => exact ⟨h.complete _ x led (.inr names') formula, _, led.all, .inr names'⟩
    · exact second.names s y x led names names'

end Resolver

end SemanticLayer
