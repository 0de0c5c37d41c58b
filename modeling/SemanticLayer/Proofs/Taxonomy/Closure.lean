import SemanticLayer.Proofs.Taxonomy.Rounds

/-!
# What a resolution collects

A resolution collects the taxons that the requested ones reach through references, and keeps those
apart that they reach through required references only.  It succeeds where these are all there and
everything it reaches can be read, and it always ends, cyclic references or not.

* `Needed`, `Reached`: what references lead to;
* `Progress`: what every round keeps, `Progress.collects`: what it is once nothing is left to load;
* `resolveRounds_resolves`: the rounds do not run out, since each finds a slug it had not seen;
* `resolveWith_collects`, `exists_resolveWith_iff`: both together.
-/

namespace SemanticLayer.Resolver

open Formula (UsedSlugs)

variable {r : Resolver} {dataSources? : Option NameSet} {asked : NameSet}

/-- Slugs that others reach through required references only. -/
inductive Needed (r : Resolver) (dataSources? : Option NameSet) (asked : NameSet) : String → Prop
  | asked {s : String} (h : s ∈ asked) : Needed r dataSources? asked s
  | named {s x : String} {u : UsedSlugs} (h : Needed r dataSources? asked s)
      (names : r.Names dataSources? s u) (hx : x ∈ u.required) : Needed r dataSources? asked x

/-- Slugs that others reach through any references. -/
inductive Reached (r : Resolver) (dataSources? : Option NameSet) (asked : NameSet) : String → Prop
  | asked {s : String} (h : s ∈ asked) : Reached r dataSources? asked s
  | named {s x : String} {u : UsedSlugs} (h : Reached r dataSources? asked s)
      (names : r.Names dataSources? s u) (hx : x ∈ u.all) : Reached r dataSources? asked x

theorem Needed.reached {s : String} (h : Needed r dataSources? asked s) :
    Reached r dataSources? asked s := by
  induction h with
  | asked h => exact .asked h
  | named _ names hx ih => exact .named ih names (UsedSlugs.mem_all.2 (.inl hx))

/-- Everything needed is there, and everything reached can be read. -/
structure IsComplete (r : Resolver) (dataSources? : Option NameSet) (asked : NameSet) : Prop where
  needed : ∀ s, Needed r dataSources? asked s → s ∈ r.taxons.keys
  parses : ∀ s, Reached r dataSources? asked s → r.Parses s

/-- The taxons that the requested ones need, and with the others those that they reach. -/
structure Collects (r : Resolver) (dataSources? : Option NameSet) (asked : NameSet)
    (used : UsedTaxons) : Prop where
  required (s : String) (t : Taxon) : (s, t) ∈ used.required.toList ↔
    Needed r dataSources? asked s ∧ (s, t) ∈ r.taxons.toList
  optional (s : String) (t : Taxon) : (s, t) ∈ used.optional.toList →
    Reached r dataSources? asked s ∧ (s, t) ∈ r.taxons.toList
  reached (s : String) : Reached r dataSources? asked s → s ∈ r.taxons.keys →
    s ∈ used.required.keys ∨ s ∈ used.optional.keys

/-- What holds between two rounds. -/
structure Progress (r : Resolver) (dataSources? : Option NameSet) (asked : NameSet)
    (used : UsedTaxons) (seen slugs : UsedSlugs) : Prop where
  required (s : String) (t : Taxon) : (s, t) ∈ used.required.toList →
    Needed r dataSources? asked s ∧ (s, t) ∈ r.taxons.toList
  optional (s : String) (t : Taxon) : (s, t) ∈ used.optional.toList →
    Reached r dataSources? asked s ∧ (s, t) ∈ r.taxons.toList
  nextRequired : ∀ s ∈ slugs.required, Needed r dataSources? asked s
  nextOptional : ∀ s ∈ slugs.optional, Reached r dataSources? asked s
  /-- Every slug seen has been loaded or is loaded next. -/
  loads : ∀ s, s ∈ asked ∨ s ∈ seen.required → s ∈ used.required.keys ∨ s ∈ slugs.required
  loadsOptional : ∀ s ∈ seen.optional, s ∈ r.taxons.keys →
    s ∈ used.optional.keys ∨ s ∈ slugs.optional
  parses : ∀ s, s ∈ used.required.keys ∨ s ∈ used.optional.keys → r.Parses s
  /-- Every slug that a loaded taxon names has been seen. -/
  follows : ∀ s ∈ used.required.keys, ∀ u, r.Names dataSources? s u →
    (∀ x ∈ u.required, x ∈ seen.required) ∧ ∀ x ∈ u.optional, x ∈ seen.optional
  followsOptional : ∀ s ∈ used.optional.keys, ∀ u, r.Names dataSources? s u →
    ∀ x ∈ u.all, x ∈ seen.all

variable {used loaded : UsedTaxons} {seen slugs more : UsedSlugs}

theorem Names.mem_keys {s : String} {u : UsedSlugs} (h : r.Names dataSources? s u) :
    s ∈ r.taxons.keys := by
  obtain ⟨t, _, ht, _⟩ := h
  exact SortedMap.mem_keys.2 ⟨t, ht⟩

theorem mem_keys_merge_required {s : String} :
    s ∈ (used.merge loaded).required.keys ↔ s ∈ loaded.required.keys ∨ s ∈ used.required.keys :=
  SortedMap.mem_keys_merge

theorem mem_keys_merge_optional {s : String} :
    s ∈ (used.merge loaded).optional.keys ↔ s ∈ loaded.optional.keys ∨ s ∈ used.optional.keys :=
  SortedMap.mem_keys_merge

theorem mem_all_merge {x : String} : x ∈ (seen.merge more).all ↔ x ∈ seen.all ∨ x ∈ more.all := by
  rw [UsedSlugs.mem_all, UsedSlugs.mem_all, UsedSlugs.mem_all]
  exact (or_congr SortedSet.mem_cup SortedSet.mem_cup).trans or_or_or_comm

/-- Taxons that are used as they are known are found under the slugs of both kinds. -/
theorem mem_toList_all {known : TaxonMap} (h : ∀ s t, (s, t) ∈ used.required.toList ∨
      (s, t) ∈ used.optional.toList → (s, t) ∈ known.toList) {s : String} {t : Taxon} :
    (s, t) ∈ used.all.toList ↔
      (s ∈ used.required.keys ∨ s ∈ used.optional.keys) ∧ (s, t) ∈ known.toList := by
  have all {t : Taxon} (ht : (s, t) ∈ used.all.toList) : (s, t) ∈ known.toList :=
    h s t (SortedMap.mem_toList_merge ht)
  have keys : s ∈ used.all.keys ↔ s ∈ used.required.keys ∨ s ∈ used.optional.keys :=
    SortedMap.mem_keys_merge
  rw [← keys]
  constructor
  · exact fun ht => ⟨SortedMap.mem_keys.2 ⟨t, ht⟩, all ht⟩
  · rintro ⟨hs, ht⟩
    obtain ⟨t', ht'⟩ := SortedMap.mem_keys.1 hs
    have same := SortedMap.get?_eq_some_iff.2 (all ht')
    rw [SortedMap.get?_eq_some_iff.2 ht] at same
    cases same
    exact ht'

/-- No slug that a calculation names is a formula. -/
theorem Names.proper {s x : String} {u : UsedSlugs} (h : r.Names dataSources? s u) (hx : x ∈ u.all) :
    Slug.isFormula x = false := by
  obtain ⟨_, _, _, _, read⟩ := h
  obtain ⟨_, _, named⟩ := Formula.usedSlugs_names read
  exact (named x hx).2

/-- What is loaded can be read, and every slug that it names has been seen. -/
structure Followed (r : Resolver) (dataSources? : Option NameSet) (used : UsedTaxons)
    (seen : UsedSlugs) : Prop where
  parses : ∀ s, s ∈ used.required.keys ∨ s ∈ used.optional.keys → r.Parses s
  follows : ∀ s ∈ used.required.keys, ∀ u, r.Names dataSources? s u →
    (∀ x ∈ u.required, x ∈ seen.required) ∧ ∀ x ∈ u.optional, x ∈ seen.optional
  followsOptional : ∀ s ∈ used.optional.keys, ∀ u, r.Names dataSources? s u →
    ∀ x ∈ u.all, x ∈ seen.all

theorem Followed.next (h : Followed r dataSources? used seen)
    (round : r.Round dataSources? seen slugs loaded more) :
    Followed r dataSources? (used.merge loaded) (seen.merge more) where
  parses := fun s hs => by
    rw [mem_keys_merge_required, mem_keys_merge_optional, round.mem_required,
      round.mem_optional] at hs
    rcases hs with (hs | hs) | (hs | hs)
    · exact round.parses s (UsedSlugs.mem_all.2 (.inl hs))
    · exact h.parses s (.inl hs)
    · exact round.parses s (UsedSlugs.mem_all.2 (.inr hs.2))
    · exact h.parses s (.inr hs)
  follows := fun s hs u names => by
    rw [mem_keys_merge_required, round.mem_required] at hs
    rcases hs with hs | hs
    · refine ⟨fun x hx => SortedSet.mem_cup.2 ?_, fun x hx => SortedSet.mem_cup.2 ?_⟩
      · exact or_iff_not_imp_left.2 fun new => (round.nextRequired x).2 ⟨new, s, hs, u, names, hx⟩
      · exact or_iff_not_imp_left.2 fun new =>
          (round.nextOptional x).2 (.inl ⟨new, s, hs, u, names, hx⟩)
    · obtain ⟨required, optional⟩ := h.follows s hs u names
      exact ⟨fun x hx => SortedSet.mem_cup.2 (.inl (required x hx)),
        fun x hx => SortedSet.mem_cup.2 (.inl (optional x hx))⟩
  followsOptional := fun s hs u names x hx => by
    rw [mem_keys_merge_optional, round.mem_optional] at hs
    rcases hs with ⟨_, hs⟩ | hs
    · by_cases seen : x ∈ seen.all
      · exact mem_all_merge.2 (.inl seen)
      · have new := (round.nextOptional x).2 (.inr ⟨seen, s, hs, u, names, hx⟩)
        exact mem_all_merge.2 (.inr (UsedSlugs.mem_all.2 (.inr new)))
    · exact mem_all_merge.2 (.inl (h.followsOptional s hs u names x hx))

namespace Progress

theorem start : Progress r dataSources? asked .empty .empty ⟨asked, .empty⟩ where
  required := fun _ _ h => by cases h
  optional := fun _ _ h => by cases h
  nextRequired := fun _ h => .asked h
  nextOptional := fun _ h => by cases h
  loads := fun s h => .inr (h.resolve_right fun none => by cases none)
  loadsOptional := fun _ h => by cases h
  parses := fun _ h => h.elim (fun h => by cases h) fun h => by cases h
  follows := fun _ h => by cases h
  followsOptional := fun _ h => by cases h

/-- Once nothing is left to load, everything reached has been loaded. -/
theorem collects (h : Progress r dataSources? asked used seen slugs) (none : slugs.isEmpty = true) :
    Collects r dataSources? asked used ∧ IsComplete r dataSources? asked := by
  obtain ⟨noRequired, noOptional⟩ := Bool.and_eq_true_iff.1 none
  have loaded (s : String) (hs : s ∈ asked ∨ s ∈ seen.required) : s ∈ used.required.keys :=
    (h.loads s hs).resolve_right (SortedSet.isEmpty_iff.1 noRequired s)
  have loadedOptional (s : String) (hs : s ∈ seen.optional) (known : s ∈ r.taxons.keys) :
      s ∈ used.optional.keys :=
    (h.loadsOptional s hs known).resolve_right (SortedSet.isEmpty_iff.1 noOptional s)
  have needed (s : String) (hs : Needed r dataSources? asked s) : s ∈ used.required.keys := by
    induction hs with
    | asked hs => exact loaded _ (.inl hs)
    | named _ names hx ih => exact loaded _ (.inr ((h.follows _ ih _ names).1 _ hx))
  have reached (s : String) (hs : Reached r dataSources? asked s) (known : s ∈ r.taxons.keys) :
      s ∈ used.required.keys ∨ s ∈ used.optional.keys := by
    induction hs with
    | asked hs => exact .inl (loaded _ (.inl hs))
    | @named s x u _ names hx ih =>
      have seen : x ∈ seen.required ∨ x ∈ seen.optional := by
        rcases ih names.mem_keys with hs | hs
        · have follows := h.follows s hs u names
          exact (UsedSlugs.mem_all.1 hx).imp (follows.1 x) (follows.2 x)
        · exact UsedSlugs.mem_all.1 (h.followsOptional s hs u names x hx)
      exact seen.imp (fun hx => loaded x (.inr hx)) fun hx => loadedOptional x hx known
  refine ⟨⟨fun s t => ⟨h.required s t, ?_⟩, h.optional, reached⟩, fun s hs => ?_, fun s hs => ?_⟩
  · rintro ⟨hs, known⟩
    obtain ⟨t', ht'⟩ := SortedMap.mem_keys.1 (needed s hs)
    have same := SortedMap.get?_eq_some_iff.2 (h.required s t' ht').2
    rw [SortedMap.get?_eq_some_iff.2 known] at same
    cases same
    exact ht'
  · obtain ⟨t, ht⟩ := SortedMap.mem_keys.1 (needed s hs)
    exact SortedMap.mem_keys.2 ⟨t, (h.required s t ht).2⟩
  · intro t c known computed
    exact h.parses s (reached s hs (SortedMap.mem_keys.2 ⟨t, known⟩)) t c known computed

theorem followed (h : Progress r dataSources? asked used seen slugs) :
    Followed r dataSources? used seen :=
  ⟨h.parses, h.follows, h.followsOptional⟩

theorem next (h : Progress r dataSources? asked used seen slugs)
    (round : r.Round dataSources? seen slugs loaded more) :
    Progress r dataSources? asked (used.merge loaded) (seen.merge more) more where
  required := fun s t ht => by
    rcases SortedMap.mem_toList_merge ht with ht | ht
    · obtain ⟨known, hs⟩ := (round.required s t).1 ht
      exact ⟨h.nextRequired s hs, known⟩
    · exact h.required s t ht
  optional := fun s t ht => by
    rcases SortedMap.mem_toList_merge ht with ht | ht
    · obtain ⟨known, hs⟩ := (round.optional s t).1 ht
      exact ⟨h.nextOptional s hs, known⟩
    · exact h.optional s t ht
  nextRequired := fun x hx => by
    obtain ⟨_, s, hs, u, names, hx⟩ := (round.nextRequired x).1 hx
    exact (h.nextRequired s hs).named names hx
  nextOptional := fun x hx => by
    obtain ⟨_, s, hs, u, names, hx⟩ | ⟨_, s, hs, u, names, hx⟩ := (round.nextOptional x).1 hx
    · exact (h.nextRequired s hs).reached.named names (UsedSlugs.mem_all.2 (.inr hx))
    · exact (h.nextOptional s hs).named names hx
  loads := fun s hs => by
    rw [mem_keys_merge_required, round.mem_required]
    rcases hs with hs | hs
    · exact .inl ((h.loads s (.inl hs)).symm)
    · rcases SortedSet.mem_cup.1 hs with hs | hs
      · exact .inl ((h.loads s (.inr hs)).symm)
      · exact .inr hs
  loadsOptional := fun s hs known => by
    rw [mem_keys_merge_optional, round.mem_optional]
    rcases SortedSet.mem_cup.1 hs with hs | hs
    · exact .inl ((h.loadsOptional s hs known).symm.imp_left (.intro known))
    · exact .inr hs
  parses := (h.followed.next round).parses
  follows := (h.followed.next round).follows
  followsOptional := (h.followed.next round).followsOptional

end Progress

/-! ## Until nothing is left -/

/-- Resolution with as many rounds as it takes. -/
inductive Resolves (r : Resolver) (dataSources? : Option NameSet) :
    UsedTaxons → UsedSlugs → UsedSlugs → Result UsedTaxons → Prop
  | done {used : UsedTaxons} {seen slugs : UsedSlugs} (h : slugs.isEmpty = true) :
      Resolves r dataSources? used seen slugs (.ok used)
  | fails {used : UsedTaxons} {seen slugs : UsedSlugs} {e : Error} (h : slugs.isEmpty = false)
      (round : r.round dataSources? seen slugs = .error e) :
      Resolves r dataSources? used seen slugs (.error e)
  | next {used loaded : UsedTaxons} {seen slugs more : UsedSlugs} {result : Result UsedTaxons}
      (h : slugs.isEmpty = false) (round : r.round dataSources? seen slugs = .ok (loaded, more))
      (rest : Resolves r dataSources? (used.merge loaded) (seen.merge more) more result) :
      Resolves r dataSources? used seen slugs result

theorem Round.proper (round : r.Round dataSources? seen slugs loaded more) : Proper more := by
  intro x hx
  rcases UsedSlugs.mem_all.1 hx with hx | hx
  · obtain ⟨_, _, _, u, names, hx⟩ := (round.nextRequired x).1 hx
    exact names.proper (UsedSlugs.mem_all.2 (.inl hx))
  · obtain ⟨_, _, _, u, names, hx⟩ | ⟨_, _, _, u, names, hx⟩ := (round.nextOptional x).1 hx
    · exact names.proper (UsedSlugs.mem_all.2 (.inr hx))
    · exact names.proper hx

theorem Resolves.outcome {result : Result UsedTaxons}
    (h : Resolves r dataSources? used seen slugs result) (proper : Proper slugs)
    (progress : Progress r dataSources? asked used seen slugs) :
    (∀ used, result = .ok used → Collects r dataSources? asked used) ∧
      ((∃ used, result = .ok used) ↔ IsComplete r dataSources? asked) := by
  induction h with
  | done none =>
    obtain ⟨collects, complete⟩ := progress.collects none
    exact ⟨fun _ h => Except.ok.inj h ▸ collects, fun _ => complete, fun _ => ⟨_, rfl⟩⟩
  | fails _ round =>
    refine ⟨fun _ h => (by cases h), fun ⟨_, h⟩ => (by cases h), fun complete => ?_⟩
    obtain ⟨_, succeeds⟩ := (exists_round_iff dataSources? proper).2
      ⟨fun s hs => complete.needed s (progress.nextRequired s hs), fun s hs =>
        complete.parses s ((UsedSlugs.mem_all.1 hs).elim
          (fun hs => (progress.nextRequired s hs).reached) (progress.nextOptional s))⟩
    rw [succeeds] at round
    cases round
  | next _ round _ ih =>
    have succeeds := round_eq_ok proper round
    exact ih succeeds.proper (progress.next succeeds)

/-! ## The number of rounds -/

theorem exists_names (dataSources? : Option NameSet) (cs : List String) :
    ∃ names : List String, names.length ≤ cs.foldl (fun n c => n + c.length) 0 ∧
      ∀ c ∈ cs, ∀ u, Formula.usedSlugs c dataSources? = .ok u → ∀ x ∈ u.all, x ∈ names := by
  have each (start : Nat) : ∃ names : List String,
      start + names.length ≤ cs.foldl (fun n c => n + c.length) start ∧
        ∀ c ∈ cs, ∀ u, Formula.usedSlugs c dataSources? = .ok u → ∀ x ∈ u.all, x ∈ names := by
    induction cs generalizing start with
    | nil => exact ⟨[], Nat.le_refl _, fun _ h => nomatch h⟩
    | cons c cs ih =>
      obtain ⟨own, short, hown⟩ : ∃ own : List String, own.length ≤ c.length ∧
          ∀ u, Formula.usedSlugs c dataSources? = .ok u → ∀ x ∈ u.all, x ∈ own := by
        cases read : Formula.usedSlugs c dataSources? with
        | error e => exact ⟨[], Nat.zero_le _, fun _ h => nomatch h⟩
        | ok u =>
          obtain ⟨own, short, named⟩ := Formula.usedSlugs_names read
          refine ⟨own, short, ?_⟩
          rintro _ ⟨⟩ x hx
          exact (named x hx).1
      obtain ⟨names, bound, hnames⟩ := ih (start + c.length)
      refine ⟨own ++ names, ?_, List.forall_mem_cons.2 ⟨?_, ?_⟩⟩
      · rw [List.length_append, List.foldl_cons]
        omega
      · exact fun u read x hx => List.mem_append_left _ (hown u read x hx)
      · exact fun d hd u read x hx => List.mem_append_right _ (hnames d hd u read x hx)
  obtain ⟨names, bound, hnames⟩ := each 0
  exact ⟨names, by omega, hnames⟩

/-- A round that leaves something to load has seen a new slug. -/
theorem Round.size_lt (round : r.Round dataSources? seen slugs loaded more)
    (some : more.isEmpty = false) :
    seen.required.size + seen.optional.size <
      (seen.merge more).required.size + (seen.merge more).optional.size := by
  have kept (s t : NameSet) : s.size ≤ (s ∪ t).size :=
    SortedSet.size_le_of_subset fun x hx => SortedSet.mem_cup.2 (.inl hx)
  have grows (s t : NameSet) (x : String) (hx : x ∈ t) (new : x ∉ s) : s.size < (s ∪ t).size :=
    SortedSet.size_lt_of_subset (fun y hy => SortedSet.mem_cup.2 (.inl hy))
      (SortedSet.mem_cup.2 (.inr hx)) new
  by_cases none : more.required.isEmpty = true
  · have optional : more.optional.isEmpty ≠ true := fun h => by
      rw [UsedSlugs.isEmpty, none, h] at some
      cases some
    obtain ⟨x, hx⟩ := SortedSet.exists_mem optional
    have new : x ∉ seen.optional := fun old => by
      rcases (round.nextOptional x).1 hx with h | h
      · exact h.1 old
      · exact h.1 (UsedSlugs.mem_all.2 (.inr old))
    exact Nat.add_lt_add_of_le_of_lt (kept _ _) (grows _ _ x hx new)
  · obtain ⟨x, hx⟩ := SortedSet.exists_mem none
    exact Nat.add_lt_add_of_lt_of_le (grows _ _ x hx ((round.nextRequired x).1 hx).1) (kept _ _)

/-- All slugs seen are among some names, and the rounds left are enough to see all of these. -/
structure Bounded (names : List String) (rounds : Nat) (seen slugs : UsedSlugs) : Prop where
  among : ∀ x ∈ seen.all, x ∈ names
  enough : slugs.isEmpty = true ∨
    2 * names.length < rounds + (seen.required.size + seen.optional.size)

namespace Bounded

variable {names : List String} {rounds : Nat}

theorem start (h : 2 * names.length < rounds) : Bounded names rounds .empty slugs :=
  ⟨fun _ h => (nomatch h), .inr (Nat.lt_of_lt_of_le h (Nat.le_add_right _ _))⟩

theorem isEmpty (h : Bounded names 0 seen slugs) : slugs.isEmpty = true := by
  refine h.enough.resolve_right fun enough => ?_
  have required : seen.required.size ≤ names.length :=
    SortedSet.size_le_of_subset fun x hx => h.among x (UsedSlugs.mem_all.2 (.inl hx))
  have optional : seen.optional.size ≤ names.length :=
    SortedSet.size_le_of_subset fun x hx => h.among x (UsedSlugs.mem_all.2 (.inr hx))
  omega

/-- A round leaves enough rounds: it sees a new slug, or it was the last. -/
theorem next {slugs' : UsedSlugs} (h : Bounded names (rounds + 1) seen slugs')
    (some : ¬ slugs'.isEmpty = true) (round : r.Round dataSources? seen slugs loaded more)
    (all : ∀ s u, r.Names dataSources? s u → ∀ x ∈ u.all, x ∈ names) :
    Bounded names rounds (seen.merge more) more := by
  refine ⟨fun x hx => ?_, ?_⟩
  · rcases mem_all_merge.1 hx with hx | hx
    · exact h.among x hx
    · rcases UsedSlugs.mem_all.1 hx with hx | hx
      · obtain ⟨_, s, _, u, named, hx⟩ := (round.nextRequired x).1 hx
        exact all s u named x (UsedSlugs.mem_all.2 (.inl hx))
      · obtain ⟨_, s, _, u, named, hx⟩ | ⟨_, s, _, u, named, hx⟩ := (round.nextOptional x).1 hx
        · exact all s u named x (UsedSlugs.mem_all.2 (.inr hx))
        · exact all s u named x hx
  · by_cases last : more.isEmpty = true
    · exact .inl last
    · have grows := round.size_lt (Bool.eq_false_iff.2 last)
      have enough := h.enough.resolve_left some
      exact .inr (by omega)

end Bounded

/-- The rounds do not run out: all that is ever seen are names of calculations. -/
theorem resolveRounds_resolves {names : List String} {rounds : Nat}
    (all : ∀ s u, r.Names dataSources? s u → ∀ x ∈ u.all, x ∈ names)
    (used : UsedTaxons) (proper : Proper slugs) (bounded : Bounded names rounds seen slugs) :
    Resolves r dataSources? used seen slugs
      (r.resolveRounds dataSources? false rounds used seen slugs) := by
  induction rounds generalizing used seen slugs with
  | zero => exact .done bounded.isEmpty
  | succ rounds ih =>
    rw [resolveRounds_succ]
    by_cases none : slugs.isEmpty = true
    · rw [if_pos none]
      exact .done none
    rw [if_neg none]
    cases ran : r.round dataSources? seen slugs with
    | error e => exact .fails (Bool.eq_false_iff.2 none) ran
    | ok loadedMore =>
      obtain ⟨loaded, more⟩ := loadedMore
      have round := round_eq_ok proper ran
      exact .next (Bool.eq_false_iff.2 none) ran
        (ih (used.merge loaded) round.proper (bounded.next none round all))

/-! ## A whole resolution -/

theorem proper_asked (proper : ∀ s ∈ asked, Slug.isFormula s = false) :
    Proper ⟨asked, .empty⟩ :=
  fun s hs => (UsedSlugs.mem_all.1 hs).elim (proper s) (nomatch ·)

/-- Twice as many slugs as all calculations name fit into the rounds of a resolution. -/
theorem exists_names_of_calculations (r : Resolver) (dataSources? : Option NameSet) :
    ∃ names : List String, 2 * names.length < r.roundLimit ∧
      ∀ s u, r.Names dataSources? s u → ∀ x ∈ u.all, x ∈ names := by
  obtain ⟨names, short, hnames⟩ :=
    exists_names dataSources? (r.taxons.values.filterMap Taxon.calculation?)
  refine ⟨names, ?_, ?_⟩
  · have length : names.length ≤ calculationLength r.taxons := short
    unfold roundLimit
    omega
  · rintro s u ⟨t, c, known, computed, read⟩
    exact hnames c (mem_calculations.2 ⟨s, t, known, computed⟩) u read

theorem resolveWith_resolves (proper : ∀ s ∈ asked, Slug.isFormula s = false) :
    Resolves r dataSources? .empty .empty ⟨asked, .empty⟩
      (r.resolveWith dataSources? false asked) := by
  obtain ⟨names, enough, hnames⟩ := exists_names_of_calculations r dataSources?
  exact resolveRounds_resolves hnames _ (proper_asked proper) (.start enough)

theorem resolveWith_collects (proper : ∀ s ∈ asked, Slug.isFormula s = false)
    (h : r.resolveWith dataSources? false asked = .ok used) :
    Collects r dataSources? asked used :=
  ((resolveWith_resolves proper).outcome (proper_asked proper) .start).1 used h

theorem exists_resolveWith_iff (proper : ∀ s ∈ asked, Slug.isFormula s = false) :
    (∃ used, r.resolveWith dataSources? false asked = .ok used) ↔
      IsComplete r dataSources? asked :=
  ((resolveWith_resolves proper).outcome (proper_asked proper) .start).2

/-- A resolution ends, and collects the taxons that references lead to: as required exactly those
that required references alone lead to, and with the optional ones exactly those that any lead to.
It succeeds exactly if the former are all there and everything reached can be read. -/
theorem resolve_follows_references (r : Resolver) (asked : NameSet)
    (plain : r.withAggregationTaxons = false) (proper : ∀ s ∈ asked, Slug.isFormula s = false) :
    Resolves r r.dataSources? .empty .empty ⟨asked, .empty⟩ (r.resolve asked) ∧
    (∀ used, r.resolve asked = .ok used →
      (∀ s, s ∈ used.required.keys ↔ Needed r r.dataSources? asked s) ∧
      ∀ s, s ∈ used.required.keys ∨ s ∈ used.optional.keys ↔
        Reached r r.dataSources? asked s ∧ s ∈ r.taxons.keys) ∧
    ((∃ used, r.resolve asked = .ok used) ↔
      (∀ s, Needed r r.dataSources? asked s → s ∈ r.taxons.keys) ∧
      ∀ s, Reached r r.dataSources? asked s → r.Parses s) := by
  have same : r.resolve asked = r.resolveWith r.dataSources? false asked := by
    rw [resolve, plain]
  rw [same]
  refine ⟨resolveWith_resolves proper, fun used h => ?_, ?_⟩
  · have collects := resolveWith_collects proper h
    have complete := (exists_resolveWith_iff proper).1 ⟨used, h⟩
    refine ⟨fun s => ⟨fun hs => ?_, fun hs => ?_⟩, fun s => ⟨fun hs => ?_, fun hs => ?_⟩⟩
    · obtain ⟨t, ht⟩ := SortedMap.mem_keys.1 hs
      exact ((collects.required s t).1 ht).1
    · obtain ⟨t, ht⟩ := SortedMap.mem_keys.1 (complete.needed s hs)
      exact SortedMap.mem_keys.2 ⟨t, (collects.required s t).2 ⟨hs, ht⟩⟩
    · rcases hs with hs | hs
      · obtain ⟨t, ht⟩ := SortedMap.mem_keys.1 hs
        obtain ⟨needed, known⟩ := (collects.required s t).1 ht
        exact ⟨needed.reached, SortedMap.mem_keys.2 ⟨t, known⟩⟩
      · obtain ⟨t, ht⟩ := SortedMap.mem_keys.1 hs
        obtain ⟨reached, known⟩ := collects.optional s t ht
        exact ⟨reached, SortedMap.mem_keys.2 ⟨t, known⟩⟩
    · exact collects.reached s hs.1 hs.2
  · rw [exists_resolveWith_iff proper]
    exact ⟨fun h => ⟨h.needed, h.parses⟩, fun h => ⟨h.1, h.2⟩⟩

/-- Two taxons that name each other; one of them can do without a third, which is not there. -/
def cycle : TaxonMap :=
  .ofList [("spend", .ofFormula "spend" "cost + cost" .metric "acme"),
    ("cost", .ofFormula "cost" "spend + fee?" .metric "acme")]

theorem resolve_follows_references_cycle :
    ∃ used, (ofTaxons cycle).resolve (.singleton "spend") = .ok used ∧
      ∀ s, s ∈ used.required.keys ∨ s ∈ used.optional.keys ↔
        Reached (ofTaxons cycle) none (.singleton "spend") s ∧ s ∈ cycle.keys := by
  have proper : ∀ s ∈ (SortedSet.singleton "spend" : NameSet), Slug.isFormula s = false := by
    intro s hs
    obtain rfl := (SortedSet.mem_insert.1 hs).resolve_right (SortedSet.not_mem_empty s)
    decide
  obtain ⟨used, h, _⟩ : ∃ used, (ofTaxons cycle).resolve (.singleton "spend") = .ok used ∧ _ :=
    Result.ok_of_any (f := fun used => used.required.keys = ["cost", "spend"]) (by decide +kernel)
  exact ⟨used, h, ((resolve_follows_references _ _ rfl proper).2.1 used h).2⟩

end SemanticLayer.Resolver
