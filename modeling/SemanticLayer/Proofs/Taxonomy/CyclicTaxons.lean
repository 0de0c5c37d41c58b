import SemanticLayer.Proofs.Formula.Expansion
import SemanticLayer.Proofs.Taxonomy.RequiredPhases

/-!
# Facts of cyclic taxons

The facts of a taxon are derived among the others, where its own slug stands for no taxon.  A chain
of references that comes back to it ends there like one that comes to an unknown slug, so only the
cycles of other taxons are found.

* `IsCyclic`: a computed taxon whose calculation leads back to it;
* `others`: the taxons without one of them;
* `IsDerivable`, `exists_deriveFacts_iff`: when a computed taxon has facts;
* `deriveFacts_fails_iff`: when those of a cyclic taxon fail, alone and among others.
-/

namespace SemanticLayer

theorem Formula.ne_empty_of_mem_taxonRefs {text : String} {tree : Formula.Tree}
    (parsed : Formula.parse text = .ok tree) {ref : Formula.TaxonRef}
    (href : ref ∈ tree.taxonRefs) : ref.slug ≠ "" := by
  obtain ⟨named, read, mem⟩ := Resolver.mem_named_of_parse parsed
  obtain ⟨refs, ts, splits, quotes, stands⟩ := Formula.exists_quotes read
  obtain ⟨r, hr, same⟩ := stands _ (mem ref href)
  obtain ⟨word, rest, hword, starts⟩ := quotes.words hr
  rw [← same, Ne, ← String.toList_eq_nil_iff, starts, List.append_eq_nil_iff]
  exact fun h => (splits.word_of_mem hword).1 h.1

namespace Formula.Chain

/-- A chain depends on the calculations that it comes by. -/
theorem congr {ctx ctx' : Context} {p : String → Prop}
    (same : ∀ s, p s → ctx.calculation? s = ctx'.calculation? s)
    (closed : ∀ s d tree, p s → ctx.calculation? s = some d → parse d = .ok tree →
      ∀ ref ∈ tree.taxonRefs, p ref.slug) {text last : String} {slugs : List String}
    (h : Chain ctx text slugs last)
    (start : ∀ tree, parse text = .ok tree → ∀ ref ∈ tree.taxonRefs, p ref.slug) :
    Chain ctx' text slugs last := by
  induction h with
  | done text => exact .done text
  | next first _ ih =>
    obtain ⟨computed, tree, parsed, ref, href, rfl⟩ := first
    have here := start tree parsed ref href
    refine .next ⟨(same _ here).symm.trans computed, tree, parsed, ref, href, rfl⟩ (ih ?_)
    exact fun tree' => closed _ _ tree' here computed

theorem slug_not_mem {ts : TaxonMap} {text last : String} {slugs : List String}
    (h : Chain (.ofTaxons ts) text slugs last) : (Context.ofTaxons ts).slug ∉ slugs := by
  induction h with
  | done => exact List.not_mem_nil
  | next first _ ih =>
    obtain ⟨_, tree, parsed, ref, href, rfl⟩ := first
    exact List.not_mem_cons_of_ne_of_not_mem (ne_empty_of_mem_taxonRefs parsed href).symm ih

end Formula.Chain

namespace Resolver

open Formula (Chain Context HasCycle IsExpandable IsReadable Node UsedSlugs referenceLimit)

variable {r : Resolver} {t : Taxon} {c : String} {used : UsedTaxons} {named : UsedSlugs}

/-! ## The formula of facts -/

/-- All known taxons but one. -/
def others (r : Resolver) (t : Taxon) : Context := .ofTaxons (r.taxons.erase t.slug)

theorem others_calculation?_eq_some {s d : String} : (r.others t).calculation? s = some d ↔
    s ≠ t.slug ∧ ∃ x, r.taxons.get? s = some x ∧ x.calculation? = some d := by
  unfold Context.calculation?
  rw [Option.bind_eq_some_iff]
  constructor
  · rintro ⟨x, hx, computed⟩
    obtain ⟨known, other⟩ := SortedMap.get?_erase.1 hx
    exact ⟨other, x, known, computed⟩
  · rintro ⟨other, x, known, computed⟩
    exact ⟨x, SortedMap.get?_erase.2 ⟨known, other⟩, computed⟩

/-- What references lead to, they lead to further on. -/
theorem reached_of_others {s d : String} {tree : Formula.Tree} (reached : Reached r none named.all s)
    (computed : (r.others t).calculation? s = some d) (parsed : Formula.parse d = .ok tree) :
    ∀ ref ∈ tree.taxonRefs, Reached r none named.all ref.slug := by
  obtain ⟨_, x, known, computed⟩ := others_calculation?_eq_some.1 computed
  obtain ⟨named', read, mem⟩ := mem_named_of_parse parsed
  intro ref href
  exact reached.named ⟨x, d, SortedMap.get?_eq_some_iff.1 known, computed, read⟩ (mem ref href)

theorem factContext_calculation? (definition : t.definition = .computed c)
    (h : r.usedInDefinition t = .ok used) (read : Formula.usedSlugs c none = .ok named) {s : String}
    (reached : Reached r none named.all s) :
    (factContext t used).calculation? s = (r.others t).calculation? s := by
  have same : (factContext t used).taxons.get? s = (r.others t).taxons.get? s := by
    ext x
    change _ ↔ (r.taxons.erase t.slug).get? s = some x
    rw [SortedMap.get?_erase]
    by_cases own : s = t.slug
    · subst own
      rw [get?_factContext_own]
      exact iff_of_false nofun fun h => h.2 rfl
    · rw [get?_factContext own, get?_usedInDefinition definition h read, and_iff_right reached,
        and_iff_left own]
  unfold Context.calculation?
  rw [same]

/-- The chains of a calculation among the taxons that it uses are those among all others. -/
theorem chain_factContext_iff (definition : t.definition = .computed c)
    (h : r.usedInDefinition t = .ok used) {slugs : List String} {last : String} :
    Chain (factContext t used) c slugs last ↔ Chain (r.others t) c slugs last := by
  obtain ⟨named, read, _⟩ := reached_of_usedInDefinition definition h
  have same (s : String) (reached : Reached r none named.all s) :=
    factContext_calculation? definition h read reached
  have start (tree : Formula.Tree) (parsed : Formula.parse c = .ok tree) (ref : Formula.TaxonRef)
      (href : ref ∈ tree.taxonRefs) : Reached r none named.all ref.slug := by
    obtain ⟨named', read', mem⟩ := mem_named_of_parse parsed
    cases read.symm.trans read'
    exact .asked (mem ref href)
  constructor
  · refine fun chain => chain.congr same (fun s d tree reached computed => ?_) start
    exact reached_of_others reached ((same s reached).symm.trans computed)
  · refine fun chain => chain.congr (fun s reached => (same s reached).symm) ?_ start
    exact fun s d tree reached computed => reached_of_others reached computed

/-- Whether everything that a calculation needs is there and can be read, and the chains from it
among all taxons but its own have no cycle, are not too long and end at formulas with known
functions. -/
structure IsDerivable (r : Resolver) (t : Taxon) (c : String) : Prop where
  complete : ∃ named, Formula.usedSlugs c none = .ok named ∧ IsComplete r none named.required ∧
    IsComplete r none named.optional
  acyclic : ¬HasCycle (r.others t) c
  ends : ∀ slugs last, Chain (r.others t) c slugs last →
    slugs.length + 1 < referenceLimit ∧ IsReadable last

theorem exists_ofFormula_factContext_iff (definition : t.definition = .computed c)
    (h : r.usedInDefinition t = .ok used) :
    (∃ n, Node.ofFormula (factContext t used) none c = .ok n) ↔
      ¬HasCycle (r.others t) c ∧ ∀ slugs last, Chain (r.others t) c slugs last →
        slugs.length + 1 < referenceLimit ∧ IsReadable last := by
  rw [Node.exists_ofFormula_iff]
  constructor
  · intro chains
    have expandable {slugs : List String} {last : String} (chain : Chain (r.others t) c slugs last) :=
      chains slugs last ((chain_factContext_iff definition h).2 chain)
    refine ⟨fun cycle => ?_, fun slugs last chain => ?_⟩
    · obtain ⟨slugs, last, chain, again⟩ := Chain.exists_not_nodup cycle
      exact again (expandable chain).1.nodup
    · exact ⟨(expandable chain).1.short, (expandable chain).2⟩
  · rintro ⟨acyclic, ends⟩ slugs last chain
    have chain' := (chain_factContext_iff definition h).1 chain
    obtain ⟨short, readable⟩ := ends slugs last chain'
    exact ⟨⟨chain'.nodup acyclic, chain.slug_not_mem, short⟩, readable⟩

theorem exists_deriveFacts_iff_exists_ofFormula (definition : t.definition = .computed c) :
    (∃ f, r.deriveFacts t = .ok f) ↔ ∃ used, r.usedInDefinition t = .ok used ∧
      ∃ n, Node.ofFormula (factContext t used) none c = .ok n := by
  constructor
  · rintro ⟨f, h⟩
    obtain ⟨used, n, k⟩ := exists_factsFrom definition h
    exact ⟨used, k.uses, n, k.reads⟩
  · rintro ⟨used, uses, n, reads⟩
    have computed : t.calculation? = some c := by rw [Taxon.calculation?, definition]
    have derived : ∃ f, t.deriveFacts used = .ok f := by
      unfold Taxon.deriveFacts
      rw [computed]
      exact ⟨_, Result.bind_eq_ok.2 ⟨n, reads, rfl⟩⟩
    obtain ⟨f, hf⟩ := derived
    exact ⟨f, Result.bind_eq_ok.2 ⟨used, uses, hf⟩⟩

/-- A computed taxon has facts unless something is wrong besides chains that come back to it. -/
theorem exists_deriveFacts_iff (definition : t.definition = .computed c) :
    (∃ f, r.deriveFacts t = .ok f) ↔ r.IsDerivable t c := by
  have complete : (∃ used, r.usedInDefinition t = .ok used) ↔ _ := exists_usedInDefinition_iff
  rw [definition] at complete
  rw [exists_deriveFacts_iff_exists_ofFormula definition]
  constructor
  · rintro ⟨used, uses, formula⟩
    obtain ⟨acyclic, ends⟩ := (exists_ofFormula_factContext_iff definition uses).1 formula
    exact ⟨complete.1 ⟨used, uses⟩, acyclic, ends⟩
  · rintro ⟨needed, acyclic, ends⟩
    obtain ⟨used, uses⟩ := complete.2 needed
    exact ⟨used, uses, (exists_ofFormula_factContext_iff definition uses).2 ⟨acyclic, ends⟩⟩

/-! ## Taxons that their calculation leads back to -/

/-- A known taxon whose calculation leads back to it, through any references. -/
structure IsCyclic (r : Resolver) (t : Taxon) (c : String) : Prop where
  definition : t.definition = .computed c
  known : r.taxons.get? t.slug = some t
  leads : ∃ named, Formula.usedSlugs c none = .ok named ∧ Reached r none named.all t.slug

theorem fails_iff {α : Type} {x : Result α} : (∃ e, x = .error e) ↔ ¬∃ a, x = .ok a := by
  cases x <;> simp

theorem exists_precalculate_iff {ts : TaxonMap} :
    (∃ us, precalculate ts = .ok us) ↔
      ∀ e ∈ ts.toList, ∃ f, (ofTaxons ts).deriveFacts e.2 = .ok f := by
  unfold precalculate SortedMap.mapValuesM
  rw [Result.exists_map_ok, Result.exists_mapM_iff]
  exact forall₂_congr fun e _ => Result.exists_map_ok.trans Result.exists_bind_ok

/-- The facts of a cyclic taxon fail only if something else is wrong with its references; then they
fail for every map that holds the taxon without facts, and so does the calculation of facts of the
whole taxonomy.  That fails only if the facts of one of its taxons do. -/
theorem deriveFacts_fails_iff (cyclic : r.IsCyclic t c) :
    ((∃ e, r.deriveFacts t = .error e) ↔ ¬r.IsDerivable t c) ∧
      (∀ useFallback ts, t.facts? = none → (∀ x ∈ ts.toList, x.2 = t ∨ r.HasFacts x.2) →
        (t.slug, t) ∈ ts.toList →
          ((∃ e, r.completeFacts useFallback ts = .error e) ↔ ¬r.IsDerivable t c)) ∧
      ∀ ts, r = ofTaxons ts →
        ((∃ e, precalculate ts = .error e) ↔
          ∃ x ∈ ts.toList, ∃ e, r.deriveFacts x.2 = .error e) := by
  have derives := exists_deriveFacts_iff (r := r) cyclic.definition
  refine ⟨fails_iff.trans (not_congr derives), fun useFallback ts noFacts rest member => ?_, ?_⟩
  · rw [fails_iff, exists_completeFacts_iff, ← derives]
    refine not_congr ⟨fun all => ?_, fun derived x hx => ?_⟩
    · refine (all _ member).resolve_left ?_
      rw [noFacts]
      exact Bool.false_ne_true
    · rcases rest x hx with same | facts
      · exact same ▸ .inr derived
      · exact facts
  · rintro ts rfl
    rw [fails_iff, exists_precalculate_iff]
    simp only [fails_iff, not_forall, exists_prop]

/-! ### A debit and a credit that name each other -/

def debit : Taxon := .ofFormula "debit" "credit" .metric "shop"

def credit (calculation : String) : Taxon := .ofFormula "credit" calculation .metric "shop"

theorem isCyclic_debit (calculation : String) (known : r.taxons.get? "debit" = some debit)
    (other : r.taxons.get? "credit" = some (credit calculation))
    (back : (Formula.usedSlugs calculation none).toOption.any (·.all.contains "debit") = true) :
    r.IsCyclic debit "credit" := by
  obtain ⟨named, read, first⟩ : ∃ named, Formula.usedSlugs "credit" none = .ok named ∧ _ :=
    Result.ok_of_any (f := fun named => named.all.contains "credit") (by decide +kernel)
  obtain ⟨named', read', back⟩ := Result.ok_of_any back
  have names : r.Names none "credit" named' :=
    ⟨_, calculation, SortedMap.get?_eq_some_iff.1 other, rfl, read'⟩
  have there : Reached r none named.all "credit" := .asked (SortedSet.contains_iff.1 first)
  exact ⟨rfl, known, named, read, there.named names (SortedSet.contains_iff.1 back)⟩

/-- With a fee that names itself. -/
def feeLedger : Resolver :=
  ofTaxons (Taxon.mapOf [debit, credit "debit? + fee", .ofFormula "fee" "fee + 1" .metric "shop"])

theorem deriveFacts_fails_fee : feeLedger.IsCyclic debit "credit" ∧
    (∃ e, feeLedger.deriveFacts debit = .error e) ∧
    ∃ e, precalculate feeLedger.taxons = .error e := by
  have cyclic : feeLedger.IsCyclic debit "credit" :=
    isCyclic_debit "debit? + fee" (by decide +kernel) (by decide +kernel) (by decide +kernel)
  have toCredit : (feeLedger.others debit).Expands "credit" "credit" "debit? + fee" :=
    .of_any (by decide +kernel) (by decide +kernel)
  have toFee : (feeLedger.others debit).Expands "debit? + fee" "fee" "fee + 1" :=
    .of_any (by decide +kernel) (by decide +kernel)
  have back : (feeLedger.others debit).Expands "fee + 1" "fee" "fee + 1" :=
    .of_any (by decide +kernel) (by decide +kernel)
  have cycle : HasCycle (feeLedger.others debit) "credit" :=
    ⟨["credit"], [], "fee", _, .next toCredit (.next toFee (.done _)), .next back (.done _)⟩
  obtain ⟨own, _, whole⟩ := deriveFacts_fails_iff cyclic
  have fails := own.2 fun derivable => derivable.acyclic cycle
  exact ⟨cyclic, fails, (whole _ rfl).2 ⟨_, SortedMap.get?_eq_some_iff.1 cyclic.known, fails⟩⟩

def ledger : Resolver := ofTaxons (Taxon.mapOf [debit, credit "debit"])

/-- Each is derived to be a dimension, since the other is nothing without it. -/
theorem ledger_derives : ledger.IsCyclic debit "credit" ∧
    (∃ f, ledger.deriveFacts debit = .ok f ∧ f.phase = .dimension ∧
      f.aggregation? = some .notSet) ∧
    (∃ us, ledger.completeFacts false ledger.taxons = .ok us) ∧
    ∃ us, precalculate ledger.taxons = .ok us := by
  have cyclic : ledger.IsCyclic debit "credit" :=
    isCyclic_debit "debit" (by decide +kernel) (by decide +kernel) (by decide +kernel)
  obtain ⟨f, hf, facts⟩ : ∃ f, ledger.deriveFacts debit = .ok f ∧ _ :=
    Result.ok_of_any (f := fun f => f.phase = .dimension ∧ f.aggregation? = some .notSet)
      (by decide +kernel)
  obtain ⟨g, hg, -⟩ : ∃ f, ledger.deriveFacts (credit "debit") = .ok f ∧ _ :=
    Result.ok_of_any (f := fun _ => true) (by decide +kernel)
  have each : ∀ e ∈ ledger.taxons.toList, ∃ f, ledger.deriveFacts e.2 = .ok f := by
    have taxons : ledger.taxons.toList = [("credit", credit "debit"), ("debit", debit)] := by
      decide +kernel
    rw [taxons, List.forall_mem_cons, List.forall_mem_singleton]
    exact ⟨⟨g, hg⟩, f, hf⟩
  exact ⟨cyclic, ⟨f, hf, of_decide_eq_true facts⟩,
    exists_completeFacts_iff.2 fun e he => .inr (each e he), exists_precalculate_iff.2 each⟩

end Resolver

end SemanticLayer
