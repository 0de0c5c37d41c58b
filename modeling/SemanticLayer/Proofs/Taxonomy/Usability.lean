import SemanticLayer.Proofs.Taxonomy.Closure

/-!
# What the facts of a taxon need

The facts of a taxon are derived from all that its definition uses.  The references that it can do
without are resolved there as if they had been asked for, so what *they* need must be there, and
they themselves, although a resolution of the taxon passes over them where they are not.

* `exists_usedInDefinition_iff`: what must be there for the definition of any taxon;
* `completesUpToEvaluation_iff`: how far the facts of a map are derived;
* `usedInDefinition_and_completes_iff`: both, for a taxon whose own resolution succeeds.
-/

namespace SemanticLayer.Resolver

open Formula (UsedSlugs)

variable {r : Resolver} {dataSources? : Option NameSet} {asked : NameSet} {slug : String} {t : Taxon}

/-! ## Definitions -/

theorem exists_load_iff {slugs : NameSet} :
    (∃ ts, r.load slugs true = .ok ts) ↔
      ∀ s ∈ slugs, Slug.isFormula s = false → s ∈ r.taxons.keys := by
  constructor
  · rintro ⟨ts, h⟩
    exact (load_eq_ok.1 h).1 rfl
  · intro h
    exact ⟨_, load_eq_ok.2 ⟨fun _ => h, rfl⟩⟩

/-- What a definition uses is found if it can be read and everything that any of its references
needs is there, optional ones not excepted. -/
theorem exists_usedInDefinition_iff :
    (∃ used, r.usedInDefinition t = .ok used) ↔
      match t.definition with
      | .computed c => ∃ named, Formula.usedSlugs c none = .ok named ∧
          IsComplete r none named.required ∧ IsComplete r none named.optional
      | .raw a => ∀ s ∈ a.usedSlugs, Slug.isFormula s = false → s ∈ r.taxons.keys := by
  unfold usedInDefinition
  cases t.definition with
  | computed c =>
    dsimp only
    constructor
    · rintro ⟨used, h⟩
      obtain ⟨named, read, h⟩ := Result.bind_eq_ok.1 h
      obtain ⟨required, hrequired, h⟩ := Result.bind_eq_ok.1 h
      obtain ⟨optional, hoptional, h⟩ := Result.bind_eq_ok.1 h
      obtain ⟨_, _, proper⟩ := Formula.usedSlugs_names read
      exact ⟨named, read,
        (exists_resolveWith_iff fun s hs => (proper s (UsedSlugs.mem_all.2 (.inl hs))).2).1
          ⟨required, hrequired⟩,
        (exists_resolveWith_iff fun s hs => (proper s (UsedSlugs.mem_all.2 (.inr hs))).2).1
          ⟨optional, hoptional⟩⟩
    · rintro ⟨named, read, required, optional⟩
      obtain ⟨_, _, proper⟩ := Formula.usedSlugs_names read
      obtain ⟨_, hrequired⟩ :=
        (exists_resolveWith_iff fun s hs => (proper s (UsedSlugs.mem_all.2 (.inl hs))).2).2 required
      obtain ⟨_, hoptional⟩ :=
        (exists_resolveWith_iff fun s hs => (proper s (UsedSlugs.mem_all.2 (.inr hs))).2).2 optional
      exact ⟨_, Result.bind_eq_ok.2 ⟨_, read, Result.bind_eq_ok.2 ⟨_, hrequired,
        Result.bind_eq_ok.2 ⟨_, hoptional, rfl⟩⟩⟩⟩
  | raw a =>
    dsimp only
    by_cases none : a.usedSlugs.isEmpty = true
    · rw [if_pos none]
      exact ⟨fun _ s hs => absurd hs (SortedSet.isEmpty_iff.1 none s), fun _ => ⟨_, rfl⟩⟩
    · rw [if_neg none, ← exists_load_iff]
      constructor
      · rintro ⟨_, h⟩
        obtain ⟨ts, h, _⟩ := Result.bind_eq_ok.1 h
        exact ⟨ts, h⟩
      · rintro ⟨ts, h⟩
        exact ⟨_, Result.bind_eq_ok.2 ⟨ts, h, rfl⟩⟩

/-- Everything is there that the taxon under a slug needs to have facts. -/
def IsUsable (r : Resolver) (slug : String) (t : Taxon) : Prop :=
  match t.definition with
  | .computed _ => ∀ named, r.Names none slug named → ∀ x,
      Needed r none named.required x ∨ Needed r none named.optional x → x ∈ r.taxons.keys
  | .raw a => ∀ x ∈ a.usedSlugs, Slug.isFormula x = false → x ∈ r.taxons.keys

/-! ## What references lead to -/

theorem Names.unrestricted {s : String} {u : UsedSlugs} (h : r.Names dataSources? s u) :
    ∃ v, r.Names none s v ∧ (∀ x ∈ u.required, x ∈ v.required) ∧ ∀ x ∈ u.all, x ∈ v.all := by
  obtain ⟨t, c, known, computed, read⟩ := h
  obtain ⟨v, read', required, optional⟩ := Formula.usedSlugs_mono read
  exact ⟨v, ⟨t, c, known, computed, read'⟩, required, fun x hx =>
    UsedSlugs.mem_all.2 ((UsedSlugs.mem_all.1 hx).imp (required x) (optional x))⟩

theorem Names.unique {s : String} {u v : UsedSlugs} (h : r.Names dataSources? s u)
    (h' : r.Names dataSources? s v) : u = v := by
  obtain ⟨t, c, known, computed, read⟩ := h
  obtain ⟨t', c', known', computed', read'⟩ := h'
  have same := SortedMap.get?_eq_some_iff.2 known
  rw [SortedMap.get?_eq_some_iff.2 known'] at same
  cases same
  cases computed.symm.trans computed'
  exact Except.ok.inj (read.symm.trans read')

theorem Needed.unrestricted {s : String} (h : Needed r dataSources? asked s) :
    Needed r none asked s := by
  induction h with
  | asked h => exact .asked h
  | named _ names hx ih =>
    obtain ⟨v, names, required, _⟩ := names.unrestricted
    exact ih.named names (required _ hx)

theorem Reached.unrestricted {s : String} (h : Reached r dataSources? asked s) :
    Reached r none asked s := by
  induction h with
  | asked h => exact .asked h
  | named _ names hx ih =>
    obtain ⟨v, names, _, all⟩ := names.unrestricted
    exact ih.named names (all _ hx)

theorem IsComplete.restricted (h : IsComplete r none asked) : IsComplete r dataSources? asked :=
  ⟨fun s hs => h.needed s hs.unrestricted, fun s hs => h.parses s hs.unrestricted⟩

theorem Needed.trans {s : String} {slugs : NameSet}
    (h : ∀ y ∈ slugs, Needed r dataSources? asked y) (hs : Needed r dataSources? slugs s) :
    Needed r dataSources? asked s := by
  induction hs with
  | asked hs => exact h _ hs
  | named _ names hx ih => exact ih.named names hx

theorem Reached.trans {s : String} {slugs : NameSet}
    (h : ∀ y ∈ slugs, Reached r dataSources? asked y) (hs : Reached r dataSources? slugs s) :
    Reached r dataSources? asked s := by
  induction hs with
  | asked hs => exact h _ hs
  | named _ names hx ih => exact ih.named names hx

theorem Reached.mono {asked' : NameSet} (sub : ∀ s ∈ asked, s ∈ asked') {s : String}
    (h : Reached r dataSources? asked s) : Reached r dataSources? asked' s :=
  h.trans fun y hy => .asked (sub y hy)

theorem Reached.proper (proper : ∀ s ∈ asked, Slug.isFormula s = false) {s : String}
    (h : Reached r dataSources? asked s) : Slug.isFormula s = false := by
  cases h with
  | asked h => exact proper s h
  | named _ names hx => exact names.proper hx

theorem Collects.reached_of_mem {used : UsedTaxons} (h : Collects r dataSources? asked used)
    {s : String} (hs : s ∈ used.required.keys ∨ s ∈ used.optional.keys) :
    Reached r dataSources? asked s := by
  rcases hs with hs | hs <;> obtain ⟨t, ht⟩ := SortedMap.mem_keys.1 hs
  · exact ((h.required s t).1 ht).1.reached
  · exact (h.optional s t ht).1

/-- Below a taxon that is reached, everything can be read if everything reached can. -/
theorem exists_usedInDefinition_iff_isUsable (parses : ∀ s, Reached r none asked s → r.Parses s)
    (reached : Reached r none asked slug) (known : (slug, t) ∈ r.taxons.toList) :
    (∃ used, r.usedInDefinition t = .ok used) ↔ r.IsUsable slug t := by
  rw [exists_usedInDefinition_iff]
  unfold IsUsable
  cases defined : t.definition with
  | raw a => exact Iff.rfl
  | computed c =>
    have computed : t.calculation? = some c := by rw [Taxon.calculation?, defined]
    dsimp only
    constructor
    · rintro ⟨named, read, required, optional⟩ named' names x hx
      cases names.unique ⟨t, c, known, computed, read⟩
      exact hx.elim (required.needed x) (optional.needed x)
    · intro h
      obtain ⟨named, read⟩ : ∃ named, Formula.usedSlugs c none = .ok named :=
        Formula.exists_usedSlugs_iff.2 (parses slug reached t c known computed)
      have names : r.Names none slug named := ⟨t, c, known, computed, read⟩
      have below (slugs : NameSet) (sub : ∀ x ∈ slugs, x ∈ named.all) (s : String)
          (hs : Reached r none slugs s) : r.Parses s :=
        parses s (.trans (fun x hx => reached.named names (sub x hx)) hs)
      exact ⟨named, read,
        ⟨fun x hx => h named names x (.inl hx),
          below _ fun x hx => UsedSlugs.mem_all.2 (.inl hx)⟩,
        ⟨fun x hx => h named names x (.inr hx),
          below _ fun x hx => UsedSlugs.mem_all.2 (.inr hx)⟩⟩

/-! ## Facts of a whole map -/

/-- The taxon has facts, or they can be derived. -/
def HasFacts (r : Resolver) (t : Taxon) : Prop := t.facts?.isSome ∨ ∃ f, r.deriveFacts t = .ok f

/-- All taxons of a map get facts, or the first one that does not fails as its formula is evaluated
with all it uses. -/
def CompletesUpToEvaluation (r : Resolver) (useFallback : Bool) (ts : TaxonMap) : Prop :=
  (∃ us, r.completeFacts useFallback ts = .ok us) ∨
    ∃ before e after used error, ts.toList = before ++ e :: after ∧
      (∀ d ∈ before, r.HasFacts d.2) ∧ e.2.facts? = none ∧
      r.usedInDefinition e.2 = .ok used ∧ e.2.deriveFacts used = .error error ∧
      r.completeFacts useFallback ts = .error error

variable {useFallback : Bool} {ts : TaxonMap} {error : Error}

/-- A taxon with its facts. -/
def withFacts (r : Resolver) (useFallback : Bool) (t : Taxon) : Result Taxon := do
  let facts ←
    match t.facts? with
    | some f => pure f
    | none => r.deriveFacts t
  return { t with facts? := some (if useFallback then withFallback t facts else facts) }

theorem exists_withFacts_iff (useFallback : Bool) :
    (∃ u, r.withFacts useFallback t = .ok u) ↔ r.HasFacts t := by
  unfold withFacts HasFacts
  cases t.facts? with
  | some f => exact ⟨fun _ => .inl rfl, fun _ => ⟨_, rfl⟩⟩
  | none =>
    constructor
    · rintro ⟨u, h⟩
      obtain ⟨f, derived, _⟩ := Result.bind_eq_ok.1 h
      exact .inr ⟨f, derived⟩
    · rintro (h | ⟨f, derived⟩)
      · cases h
      · exact ⟨_, Result.bind_eq_ok.2 ⟨f, derived, rfl⟩⟩

theorem withFacts_eq_error :
    r.withFacts useFallback t = .error error ↔
      t.facts? = none ∧ r.deriveFacts t = .error error := by
  unfold withFacts
  cases t.facts? with
  | some f => exact ⟨fun h => (by cases h), fun h => (by cases h.1)⟩
  | none =>
    dsimp only
    cases r.deriveFacts t with
    | error e =>
      exact ⟨fun h => ⟨rfl, congrArg _ (Except.error.inj h)⟩, fun h => congrArg _ (Except.error.inj h.2)⟩
    | ok f => exact ⟨fun h => (by cases h), fun h => (by cases h.2)⟩

theorem exists_completeFacts_iff :
    (∃ us, r.completeFacts useFallback ts = .ok us) ↔ ∀ e ∈ ts.toList, r.HasFacts e.2 := by
  have all : (∃ es, ts.toList.mapM (fun e => (r.withFacts useFallback e.2).map (e.1, ·)) = .ok es) ↔
      ∀ e ∈ ts.toList, ∃ u, (r.withFacts useFallback e.2).map (e.1, ·) = .ok u :=
    Result.exists_mapM_iff
  constructor
  · rintro ⟨us, h⟩ e he
    obtain ⟨es, each, _⟩ := Result.map_eq_ok.1 h
    obtain ⟨_, h⟩ := all.1 ⟨es, each⟩ e he
    obtain ⟨u, h, _⟩ := Result.map_eq_ok.1 h
    exact (exists_withFacts_iff _).1 ⟨u, h⟩
  · intro h
    obtain ⟨es, each⟩ := all.2 fun e he => by
      obtain ⟨u, hu⟩ := (exists_withFacts_iff useFallback).2 (h e he)
      exact ⟨_, Result.map_eq_ok.2 ⟨u, hu, rfl⟩⟩
    exact ⟨_, Result.map_eq_ok.2 ⟨es, each, rfl⟩⟩

/-- Facts fail with the first taxon that gets none. -/
theorem completeFacts_eq_error :
    r.completeFacts useFallback ts = .error error ↔
      ∃ before e after, ts.toList = before ++ e :: after ∧ (∀ d ∈ before, r.HasFacts d.2) ∧
        e.2.facts? = none ∧ r.deriveFacts e.2 = .error error := by
  refine Result.map_eq_error.trans (Result.mapM_eq_error.trans ?_)
  refine exists_congr fun before => exists_congr fun e => exists_congr fun after =>
    and_congr_right fun _ => and_congr (forall₂_congr fun d _ => ?_) ?_
  · rw [← exists_withFacts_iff useFallback]
    constructor
    · rintro ⟨_, h⟩
      obtain ⟨u, h, _⟩ := Result.map_eq_ok.1 h
      exact ⟨u, h⟩
    · rintro ⟨u, h⟩
      exact ⟨_, Result.map_eq_ok.2 ⟨u, h, rfl⟩⟩
  · exact Result.map_eq_error.trans withFacts_eq_error

theorem completesUpToEvaluation_iff :
    r.CompletesUpToEvaluation useFallback ts ↔
      ∀ before e after, ts.toList = before ++ e :: after → (∀ d ∈ before, r.HasFacts d.2) →
        e.2.facts? = none → ∃ used, r.usedInDefinition e.2 = .ok used := by
  have defined (t : Taxon) (none : t.facts? = none) (facts : r.HasFacts t) :
      ∃ used, r.usedInDefinition t = .ok used := by
    obtain facts | ⟨f, derived⟩ := facts
    · rw [none] at facts
      cases facts
    · obtain ⟨used, h, _⟩ := Result.bind_eq_ok.1 derived
      exact ⟨used, h⟩
  constructor
  · rintro (all | ⟨before, e, after, used, error, split, fine, none, huse, failed, _⟩) before' e' after'
      split' fine' none'
    · exact defined e'.2 none' (exists_completeFacts_iff.1 all e' (by rw [split']; simp))
    -- The taxon stands before the one that fails, or is that one, or stands after it.
    · have fails : ¬ r.HasFacts e.2 := by
        rintro (facts | ⟨f, derived⟩)
        · rw [none] at facts
          cases facts
        · rw [deriveFacts, huse] at derived
          cases failed.symm.trans derived
      rcases List.append_eq_append_iff.1 (split.symm.trans split') with
        ⟨_ | ⟨d, more⟩, rfl, same⟩ | ⟨_ | ⟨d, more⟩, rfl, same⟩
      · cases same
        exact ⟨used, huse⟩
      · cases same
        exact absurd (fine' e (by simp)) fails
      · cases same
        exact ⟨used, huse⟩
      · cases same
        exact defined e'.2 none' (fine e' (by simp))
  · intro h
    cases facts : r.completeFacts useFallback ts with
    | ok us => exact .inl ⟨us, facts⟩
    | error error =>
      obtain ⟨before, e, after, split, fine, none, failed⟩ := completeFacts_eq_error.1 facts
      obtain ⟨used, huse⟩ := h before e after split fine none
      refine .inr ⟨before, e, after, used, error, split, fine, none, huse, ?_, facts⟩
      rw [deriveFacts, huse] at failed
      exact failed

/-! ## A taxon and all it uses -/

/-- Where everything that a taxon needs is there and everything it reaches can be read, it resolves.
What its own facts need, and those of the taxons it is resolved to, is found as well exactly if what
its optional references need is there too, and so for each of those taxons that gets no facts
otherwise. -/
theorem usedInDefinition_and_completes_iff (r : Resolver) (useFallback : Bool) {slug : String}
    {t : Taxon} (plain : r.withAggregationTaxons = false) (proper : Slug.isFormula slug = false)
    (known : (slug, t) ∈ r.taxons.toList) (computed : t.isComputed = true)
    (needed : ∀ s, Needed r none (.singleton slug) s → s ∈ r.taxons.keys)
    (parses : ∀ s, Reached r none (.singleton slug) s → r.Parses s) :
    ∃ resolved, r.resolve (.singleton slug) = .ok resolved ∧
      ((∃ used, r.usedInDefinition t = .ok used) ∧
          r.CompletesUpToEvaluation useFallback resolved.all ↔
        (∀ named, r.Names none slug named →
          ∀ x, Needed r none named.optional x → x ∈ r.taxons.keys) ∧
        ∀ before e after, resolved.all.toList = before ++ e :: after →
          (∀ d ∈ before, r.HasFacts d.2) → e.2.facts? = none → r.IsUsable e.1 e.2) := by
  have single (s : String) : s ∈ (SortedSet.singleton slug : NameSet) ↔ s = slug :=
    SortedSet.mem_insert.trans (or_iff_left (SortedSet.not_mem_empty s))
  have itself : slug ∈ (SortedSet.singleton slug : NameSet) := (single slug).2 rfl
  have properAsked : ∀ s ∈ (SortedSet.singleton slug : NameSet), Slug.isFormula s = false :=
    fun s hs => (single s).1 hs ▸ proper
  have complete : IsComplete r none (.singleton slug) := ⟨needed, parses⟩
  have restricted : IsComplete r r.dataSources? (.singleton slug) := complete.restricted
  obtain ⟨resolved, h⟩ := (exists_resolveWith_iff properAsked).2 restricted
  have collects := resolveWith_collects properAsked h
  refine ⟨resolved, by rw [resolve, plain, h], and_congr ?_ ?_⟩
  · rw [exists_usedInDefinition_iff_isUsable parses (.asked itself) known]
    unfold IsUsable
    unfold Taxon.isComputed Taxon.calculation? at computed
    cases defined : t.definition with
    | raw a =>
      rw [defined] at computed
      cases computed
    | computed c =>
      refine forall₂_congr fun named names => ⟨fun h x hx => h x (.inr hx), fun h x hx => ?_⟩
      rcases hx with hx | hx
      · exact needed x (.trans (fun y hy => .named (.asked itself) names hy) hx)
      · exact h x hx
  · rw [completesUpToEvaluation_iff]
    refine forall₃_congr fun before e after => forall₃_congr fun split _ _ => ?_
    have mem : e ∈ resolved.all.toList := by rw [split]; simp
    obtain ⟨reached, known⟩ : Reached r r.dataSources? (.singleton slug) e.1 ∧
        (e.1, e.2) ∈ r.taxons.toList := by
      rcases SortedMap.mem_toList_merge mem with he | he
      · obtain ⟨needed, known⟩ := (collects.required _ _).1 he
        exact ⟨needed.reached, known⟩
      · exact collects.optional _ _ he
    exact exists_usedInDefinition_iff_isUsable parses reached.unrestricted known

/-- A taxon of one data source, and one that can do without it. -/
def wholeTaxons : TaxonMap :=
  .ofList [("spend", .ofFormula "spend" "fb|spend?" .metric "acme"),
    ("fb|spend", ⟨"fb|spend", "Spend", some "fb", .metric, .raw .sum, .numeric, "acme", none, none,
      none⟩)]

theorem proper_spend : ∀ s ∈ (SortedSet.singleton "spend" : NameSet), Slug.isFormula s = false := by
  intro s hs
  obtain rfl := (SortedSet.mem_insert.1 hs).resolve_right (SortedSet.not_mem_empty s)
  decide

theorem usedInDefinition_and_completes_spend :
    ∃ resolved, (ofTaxons wholeTaxons).resolve (.singleton "spend") = .ok resolved ∧
      ∀ named, (ofTaxons wholeTaxons).Names none "spend" named →
        ∀ x, Needed (ofTaxons wholeTaxons) none named.optional x → x ∈ wholeTaxons.keys := by
  obtain ⟨used, h, _⟩ : ∃ used, (ofTaxons wholeTaxons).resolve (.singleton "spend") = .ok used ∧ _ :=
    Result.ok_of_any (f := fun _ => true) (by decide +kernel)
  have complete := (exists_resolveWith_iff proper_spend).1 ⟨used, h⟩
  obtain ⟨resolved, resolves, facts⟩ := usedInDefinition_and_completes_iff (ofTaxons wholeTaxons)
    false rfl (by decide) (t := .ofFormula "spend" "fb|spend?" .metric "acme")
    (SortedMap.get?_eq_some_iff.1 (by decide +kernel)) rfl complete.needed complete.parses
  obtain ⟨_, defined, _⟩ : ∃ used, (ofTaxons wholeTaxons).usedInDefinition
      (.ofFormula "spend" "fb|spend?" .metric "acme") = .ok used ∧ _ :=
    Result.ok_of_any (f := fun _ => true) (by decide +kernel)
  have run : (match (ofTaxons wholeTaxons).resolve (.singleton "spend") with
      | .ok resolved => ((ofTaxons wholeTaxons).completeFacts false resolved.all).toOption.isSome
      | .error _ => false) = true := by
    decide +kernel
  rw [resolves] at run
  obtain ⟨us, completes, _⟩ := Result.ok_of_any (f := fun _ => true) (by simpa using run)
  exact ⟨resolved, resolves, (facts.1 ⟨⟨_, defined⟩, .inl ⟨us, completes⟩⟩).1⟩

/-! ### A reference that can be done without -/

/-- A taxon that can do without both taxons it names, neither of which is there. -/
def partialSpend : Taxon := .ofFormula "spend" "fb|spend? + gone?" .metric "acme"

def partialTaxons : TaxonMap := .ofList [("spend", partialSpend)]

theorem usedInDefinition_missing_optional :
    (∃ used, (ofTaxons partialTaxons).resolve (.singleton "spend") = .ok used) ∧
    (∀ s, Needed (ofTaxons partialTaxons) none (.singleton "spend") s → s ∈ partialTaxons.keys) ∧
    (∀ s, Reached (ofTaxons partialTaxons) none (.singleton "spend") s →
      (ofTaxons partialTaxons).Parses s) ∧
    (ofTaxons partialTaxons).usedInDefinition partialSpend =
      .error (.taxonsNotFound (.ofList ["fb|spend", "gone"])) := by
  obtain ⟨used, h, _⟩ : ∃ used, (ofTaxons partialTaxons).resolve (.singleton "spend") = .ok used ∧ _ :=
    Result.ok_of_any (f := fun _ => true) (by decide +kernel)
  have complete := (exists_resolveWith_iff proper_spend).1 ⟨used, h⟩
  have run : (match (ofTaxons partialTaxons).usedInDefinition partialSpend with
      | .error (.taxonsNotFound slugs) => decide (slugs = .ofList ["fb|spend", "gone"])
      | _ => false) = true := by
    decide +kernel
  refine ⟨⟨used, h⟩, complete.needed, complete.parses, ?_⟩
  split at run
  · rename_i failed
    rw [failed, of_decide_eq_true run]
  · cases run

end SemanticLayer.Resolver
