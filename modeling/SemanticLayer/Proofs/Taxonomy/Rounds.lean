import SemanticLayer.Proofs.Collections.Entries
import SemanticLayer.Proofs.Formula.References
import SemanticLayer.Taxonomy.Resolver

/-!
# One round of resolution

A round loads the slugs it is given and looks for those that the loaded taxons name.

* `Names`: what a taxon's calculation names; `Parses`: whether it can be read at all;
* `loadRound_eq_ok`: what is loaded, and that a required slug must be there;
* `Round`: what a round that succeeds has loaded and what it leaves to load;
* `exists_round_iff`: whether a round succeeds.
-/

namespace SemanticLayer

namespace Resolver

open Formula (UsedSlugs)

variable {r : Resolver} {dataSources? : Option NameSet} {slug : String}

/-- The calculation of a taxon names slugs in scope. -/
def Names (r : Resolver) (dataSources? : Option NameSet) (slug : String) (named : UsedSlugs) :
    Prop :=
  ∃ t c, (slug, t) ∈ r.taxons.toList ∧ t.calculation? = some c ∧
    Formula.usedSlugs c dataSources? = .ok named

/-- The calculation of the taxon, if it is there and has one, can be read. -/
def Parses (r : Resolver) (slug : String) : Prop :=
  ∀ t c, (slug, t) ∈ r.taxons.toList → t.calculation? = some c → ∃ tree, Formula.parse c = .ok tree

/-! ## Loading -/

theorem mem_restrict {ts : TaxonMap} {slugs : NameSet} {t : Taxon} :
    (slug, t) ∈ (ts.restrict slugs).toList ↔ (slug, t) ∈ ts.toList ∧ slug ∈ slugs := by
  unfold TaxonMap.restrict
  rw [SortedMap.mem_filter, SortedSet.contains_iff]

theorem get?_restrict {ts : TaxonMap} {slugs : NameSet} {t : Taxon} :
    (ts.restrict slugs).get? slug = some t ↔ ts.get? slug = some t ∧ slug ∈ slugs := by
  rw [SortedMap.get?_eq_some_iff, SortedMap.get?_eq_some_iff, mem_restrict]

theorem mem_keys_restrict {ts : TaxonMap} {slugs : NameSet} :
    slug ∈ (ts.restrict slugs).keys ↔ slug ∈ ts.keys ∧ slug ∈ slugs := by
  rw [SortedMap.mem_keys, SortedMap.mem_keys, ← exists_and_right]
  exact exists_congr fun t => mem_restrict

theorem restrict_of_isEmpty {ts : TaxonMap} {slugs : NameSet} (h : slugs.isEmpty = true) :
    ts.restrict slugs = .empty := by
  have none : (ts.restrict slugs).toList = [] := by
    rw [List.eq_nil_iff_forall_not_mem]
    rintro ⟨slug, t⟩ ht
    exact SortedSet.isEmpty_iff.1 h slug (mem_restrict.1 ht).2
  generalize ts.restrict slugs = m at none
  obtain ⟨es, increasing⟩ := m
  cases none
  rfl

/-- What is loaded are the taxons that are there, and where all must be there, all are. -/
theorem load_eq_ok {slugs : NameSet} {all : Bool} {ts : TaxonMap} :
    r.load slugs all = .ok ts ↔
      (all = true → ∀ s ∈ slugs, Slug.isFormula s = false → s ∈ r.taxons.keys) ∧
      ts = (r.taxons.restrict (slugs.filter fun s => !Slug.isFormula s)).merge
        (r.temporary.restrict (slugs.filter Slug.isFormula)) := by
  have missing : (slugs.filter fun s => !Slug.isFormula s &&
      !(r.taxons.restrict (slugs.filter fun s => !Slug.isFormula s)).contains s).isEmpty = true ↔
      ∀ s ∈ slugs, Slug.isFormula s = false → s ∈ r.taxons.keys := by
    rw [SortedSet.isEmpty_iff]
    refine forall_congr' fun s => ?_
    rw [SortedSet.mem_filter, Bool.and_eq_true, Bool.not_eq_true', Bool.not_eq_true',
      ← Bool.not_eq_true (SortedMap.contains _ _), SortedMap.contains_iff, mem_keys_restrict,
      SortedSet.mem_filter, Bool.not_eq_true']
    tauto
  unfold load
  dsimp only
  by_cases complete : ∀ s ∈ slugs, Slug.isFormula s = false → s ∈ r.taxons.keys
  · rw [missing.2 complete, Bool.not_true, Bool.and_false, if_neg Bool.false_ne_true]
    constructor
    · rintro ⟨⟩
      exact ⟨fun _ => complete, rfl⟩
    · rintro ⟨_, rfl⟩
      rfl
  · rw [Bool.eq_false_iff.2 (mt missing.1 complete), Bool.not_false, Bool.and_true]
    cases all with
    | true =>
      rw [if_pos rfl]
      constructor
      · rintro ⟨⟩
      · rintro ⟨h, _⟩
        exact absurd (h rfl) complete
    | false =>
      rw [if_neg Bool.false_ne_true]
      constructor
      · rintro ⟨⟩
        exact ⟨fun h => (Bool.false_ne_true h).elim, rfl⟩
      · rintro ⟨_, rfl⟩
        rfl

/-- Where no slug is a formula, the temporary taxons have no part in it. -/
theorem load_eq_ok_of_proper {slugs : NameSet} (proper : ∀ s ∈ slugs, Slug.isFormula s = false)
    {all : Bool} {ts : TaxonMap} :
    r.load slugs all = .ok ts ↔
      (all = true → ∀ s ∈ slugs, s ∈ r.taxons.keys) ∧ ts = r.taxons.restrict slugs := by
  have own : slugs.filter (fun s => !Slug.isFormula s) = slugs :=
    SortedSet.ext fun s => SortedSet.mem_filter.trans
      (and_iff_left_of_imp fun hs => by rw [proper s hs, Bool.not_false])
  have formulas : (slugs.filter Slug.isFormula).isEmpty = true := by
    refine SortedSet.isEmpty_iff.2 fun s hs => ?_
    obtain ⟨hs, formula⟩ := SortedSet.mem_filter.1 hs
    exact Bool.false_ne_true ((proper s hs).symm.trans formula)
  rw [load_eq_ok, own, restrict_of_isEmpty formulas]
  refine and_congr_left fun _ => imp_congr_right fun _ => forall₂_congr fun s hs => ?_
  exact ⟨fun h => h (proper s hs), fun h _ => h⟩

theorem loadRound_eq_ok {slugs : NameSet} (proper : ∀ s ∈ slugs, Slug.isFormula s = false)
    (all : Bool) {ts : TaxonMap} :
    r.loadRound false slugs all = .ok ts ↔
      (all = true → ∀ s ∈ slugs, s ∈ r.taxons.keys) ∧ ts = r.taxons.restrict slugs := by
  unfold loadRound
  by_cases none : slugs.isEmpty = true
  · rw [if_pos none, restrict_of_isEmpty none]
    constructor
    · rintro ⟨⟩
      exact ⟨fun _ s hs => absurd hs (SortedSet.isEmpty_iff.1 none s), rfl⟩
    · rintro ⟨_, rfl⟩
      rfl
  · rw [if_neg none, ← load_eq_ok_of_proper proper]
    simp only [Bool.false_eq_true, if_false, bind_pure]

/-! ## References -/

variable {ts : TaxonMap} {named : List UsedSlugs}

theorem mem_calculations {c : String} :
    c ∈ ts.values.filterMap Taxon.calculation? ↔
      ∃ slug t, (slug, t) ∈ ts.toList ∧ t.calculation? = some c := by
  rw [List.mem_filterMap]
  constructor
  · rintro ⟨t, ht, hc⟩
    obtain ⟨slug, ht⟩ := SortedMap.mem_values.1 ht
    exact ⟨slug, t, ht, hc⟩
  · rintro ⟨slug, t, ht, hc⟩
    exact ⟨t, SortedMap.mem_values.2 ⟨slug, ht⟩, hc⟩

theorem mem_references (h : references dataSources? ts = .ok named) {u : UsedSlugs} :
    u ∈ named ↔ ∃ slug t c, (slug, t) ∈ ts.toList ∧ t.calculation? = some c ∧
      Formula.usedSlugs c dataSources? = .ok u := by
  constructor
  · intro hu
    obtain ⟨c, hc, read⟩ := Result.mapM_ok_mem h hu
    obtain ⟨slug, t, ht, computed⟩ := mem_calculations.1 hc
    exact ⟨slug, t, c, ht, computed, read⟩
  · rintro ⟨slug, t, c, ht, computed, read⟩
    obtain ⟨v, hv, read'⟩ := Result.mapM_mem_ok h (mem_calculations.2 ⟨slug, t, ht, computed⟩)
    cases read.symm.trans read'
    exact hv

theorem exists_references_iff :
    (∃ named, references dataSources? ts = .ok named) ↔
      ∀ slug t c, (slug, t) ∈ ts.toList → t.calculation? = some c →
        ∃ tree, Formula.parse c = .ok tree := by
  unfold references
  rw [Result.exists_mapM_iff]
  constructor
  · intro h slug t c ht computed
    exact Formula.exists_usedSlugs_iff.1 (h c (mem_calculations.2 ⟨slug, t, ht, computed⟩))
  · intro h c hc
    obtain ⟨slug, t, ht, computed⟩ := mem_calculations.1 hc
    exact Formula.exists_usedSlugs_iff.2 (h slug t c ht computed)

/-- What the taxons under some slugs name. -/
theorem mem_unions_references {slugs : NameSet} {part : UsedSlugs → NameSet} {x : String}
    (h : references dataSources? (r.taxons.restrict slugs) = .ok named) :
    x ∈ SortedSet.unions (named.map part) ↔
      ∃ s ∈ slugs, ∃ u, r.Names dataSources? s u ∧ x ∈ part u := by
  rw [SortedSet.mem_unions]
  constructor
  · rintro ⟨_, hpart, hx⟩
    obtain ⟨u, hu, rfl⟩ := List.mem_map.1 hpart
    obtain ⟨s, t, c, ht, computed, read⟩ := (mem_references h).1 hu
    obtain ⟨known, hs⟩ := mem_restrict.1 ht
    exact ⟨s, hs, u, ⟨t, c, known, computed, read⟩, hx⟩
  · rintro ⟨s, hs, u, ⟨t, c, known, computed, read⟩, hx⟩
    have hu := (mem_references h).2 ⟨s, t, c, mem_restrict.2 ⟨known, hs⟩, computed, read⟩
    exact ⟨part u, List.mem_map_of_mem hu, hx⟩

theorem exists_references_restrict_iff (dataSources? : Option NameSet) {slugs : NameSet} :
    (∃ named, references dataSources? (r.taxons.restrict slugs) = .ok named) ↔
      ∀ s ∈ slugs, r.Parses s := by
  rw [exists_references_iff]
  constructor
  · intro h s hs t c known computed
    exact h s t c (mem_restrict.2 ⟨known, hs⟩) computed
  · intro h s t c ht computed
    obtain ⟨known, hs⟩ := mem_restrict.1 ht
    exact h s hs t c known computed

/-! ## A round -/

/-- The taxons that one round loads, and the slugs that it leaves to load. -/
def round (r : Resolver) (dataSources? : Option NameSet) (seen slugs : UsedSlugs) :
    Result (UsedTaxons × UsedSlugs) := do
  let loaded : UsedTaxons :=
    ⟨← r.loadRound false slugs.required true, ← r.loadRound false slugs.optional false⟩
  return (loaded, ← nextSlugs dataSources? loaded seen)

theorem resolveRounds_succ {rounds : Nat} {used : UsedTaxons} {seen slugs : UsedSlugs} :
    r.resolveRounds dataSources? false (rounds + 1) used seen slugs =
      if slugs.isEmpty then .ok used
      else r.round dataSources? seen slugs >>= fun (loaded, next) =>
        r.resolveRounds dataSources? false rounds (used.merge loaded) (seen.merge next) next := by
  unfold round
  rw [resolveRounds]
  simp only [bind_assoc, pure_bind]

/-- No slug among those to load is a formula. -/
def Proper (slugs : UsedSlugs) : Prop := ∀ s ∈ slugs.all, Slug.isFormula s = false

theorem Proper.required {slugs : UsedSlugs} (h : Proper slugs) :
    ∀ s ∈ slugs.required, Slug.isFormula s = false :=
  fun s hs => h s (UsedSlugs.mem_all.2 (.inl hs))

theorem Proper.optional {slugs : UsedSlugs} (h : Proper slugs) :
    ∀ s ∈ slugs.optional, Slug.isFormula s = false :=
  fun s hs => h s (UsedSlugs.mem_all.2 (.inr hs))

/-- A round that succeeds. -/
structure Round (r : Resolver) (dataSources? : Option NameSet) (seen slugs : UsedSlugs)
    (loaded : UsedTaxons) (next : UsedSlugs) : Prop where
  /-- Every required slug is there. -/
  complete : ∀ s ∈ slugs.required, s ∈ r.taxons.keys
  required (s : String) (t : Taxon) : (s, t) ∈ loaded.required.toList ↔
    (s, t) ∈ r.taxons.toList ∧ s ∈ slugs.required
  optional (s : String) (t : Taxon) : (s, t) ∈ loaded.optional.toList ↔
    (s, t) ∈ r.taxons.toList ∧ s ∈ slugs.optional
  /-- What it loads can be read. -/
  parses : ∀ s ∈ slugs.all, r.Parses s
  nextRequired (x : String) : x ∈ next.required ↔
    x ∉ seen.required ∧ ∃ s ∈ slugs.required, ∃ u, r.Names dataSources? s u ∧ x ∈ u.required
  nextOptional (x : String) : x ∈ next.optional ↔
    (x ∉ seen.optional ∧ ∃ s ∈ slugs.required, ∃ u, r.Names dataSources? s u ∧ x ∈ u.optional) ∨
      x ∉ seen.all ∧ ∃ s ∈ slugs.optional, ∃ u, r.Names dataSources? s u ∧ x ∈ u.all

variable {seen slugs next : UsedSlugs} {loaded : UsedTaxons}

theorem round_eq_ok (proper : Proper slugs)
    (h : r.round dataSources? seen slugs = .ok (loaded, next)) :
    r.Round dataSources? seen slugs loaded next := by
  obtain ⟨ts, required, h⟩ := Result.bind_eq_ok.1 h
  obtain ⟨us, optional, h⟩ := Result.bind_eq_ok.1 h
  obtain ⟨next', named, h⟩ := Result.bind_eq_ok.1 h
  cases h
  obtain ⟨complete, rfl⟩ := (loadRound_eq_ok proper.required true).1 required
  obtain ⟨_, rfl⟩ := (loadRound_eq_ok proper.optional false).1 optional
  obtain ⟨byRequired, hrequired, h⟩ := Result.bind_eq_ok.1 named
  obtain ⟨byOptional, hoptional, h⟩ := Result.bind_eq_ok.1 h
  cases h
  exact {
    complete := complete rfl
    required := fun s t => mem_restrict
    optional := fun s t => mem_restrict
    parses := fun s hs => (UsedSlugs.mem_all.1 hs).elim
      ((exists_references_restrict_iff _).1 ⟨_, hrequired⟩ s)
      ((exists_references_restrict_iff _).1 ⟨_, hoptional⟩ s)
    nextRequired := fun x => by
      rw [SortedSet.mem_diff, mem_unions_references hrequired, and_comm]
    nextOptional := fun x => by
      rw [SortedSet.mem_cup, SortedSet.mem_diff, SortedSet.mem_diff,
        mem_unions_references hrequired, mem_unions_references hoptional, and_comm]
      exact or_congr_right and_comm }

theorem Round.mem_required (h : r.Round dataSources? seen slugs loaded next) :
    slug ∈ loaded.required.keys ↔ slug ∈ slugs.required := by
  constructor
  · intro hs
    obtain ⟨t, ht⟩ := SortedMap.mem_keys.1 hs
    exact ((h.required slug t).1 ht).2
  · intro hs
    obtain ⟨t, ht⟩ := SortedMap.mem_keys.1 (h.complete slug hs)
    exact SortedMap.mem_keys.2 ⟨t, (h.required slug t).2 ⟨ht, hs⟩⟩

theorem Round.mem_optional (h : r.Round dataSources? seen slugs loaded next) :
    slug ∈ loaded.optional.keys ↔ slug ∈ r.taxons.keys ∧ slug ∈ slugs.optional := by
  rw [SortedMap.mem_keys, SortedMap.mem_keys, ← exists_and_right]
  exact exists_congr fun t => h.optional slug t

theorem exists_round_iff (dataSources? : Option NameSet) (proper : Proper slugs) :
    (∃ y, r.round dataSources? seen slugs = .ok y) ↔
      (∀ s ∈ slugs.required, s ∈ r.taxons.keys) ∧ ∀ s ∈ slugs.all, r.Parses s := by
  constructor
  · rintro ⟨⟨loaded, next⟩, h⟩
    have succeeds := round_eq_ok proper h
    exact ⟨succeeds.complete, succeeds.parses⟩
  · rintro ⟨complete, parses⟩
    have required := (loadRound_eq_ok (r := r) proper.required true).2 ⟨fun _ => complete, rfl⟩
    have optional := (loadRound_eq_ok (r := r) proper.optional false).2
      ⟨fun h => (Bool.false_ne_true h).elim, rfl⟩
    obtain ⟨byRequired, hrequired⟩ := (exists_references_restrict_iff dataSources?).2 fun s hs =>
      parses s (UsedSlugs.mem_all.2 (.inl hs))
    obtain ⟨byOptional, hoptional⟩ := (exists_references_restrict_iff dataSources?).2 fun s hs =>
      parses s (UsedSlugs.mem_all.2 (.inr hs))
    obtain ⟨next, named⟩ : ∃ next, nextSlugs dataSources?
        ⟨r.taxons.restrict slugs.required, r.taxons.restrict slugs.optional⟩ seen = .ok next :=
      ⟨_, Result.bind_eq_ok.2 ⟨_, hrequired, Result.bind_eq_ok.2 ⟨_, hoptional, rfl⟩⟩⟩
    exact ⟨_, Result.bind_eq_ok.2 ⟨_, required, Result.bind_eq_ok.2 ⟨_, optional,
      Result.bind_eq_ok.2 ⟨next, named, rfl⟩⟩⟩⟩

end Resolver

end SemanticLayer
