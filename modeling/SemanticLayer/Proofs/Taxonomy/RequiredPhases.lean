import SemanticLayer.Proofs.Formula.PhaseOrder
import SemanticLayer.Proofs.Formula.Rereading
import SemanticLayer.Proofs.Taxonomy.QueriedFormulas

/-!
# Phases of required taxons

The facts of a computed taxon hold the phase of its formula, in which the formulas of other computed
taxons stand.

* `FactsFrom`: the formula that facts are derived from;
* `FactsFrom.get?_eq_some_iff`: it is read among the taxons that its references lead to;
* `FactsFrom.phase_of_mem_parts`: a computed taxon within it has the phase of its own facts;
* `keepsLevel_iff_and_phase_le`: so facts are no earlier than those of the taxons they build on, if
  every call heeds its arguments;
* `label_earlier_than_ratio`: a label that does not.
-/

namespace SemanticLayer.Resolver

open Formula (Context Node UsedSlugs)

variable {r : Resolver} {t b : Taxon} {c : String} {used : UsedTaxons} {named : UsedSlugs}

/-- What the facts of a taxon are derived in. -/
def factContext (t : Taxon) (used : UsedTaxons) : Context := .ofTaxons (used.erase t.slug).all

/-- The facts of a computed taxon, with the formula and what it is read among. -/
structure FactsFrom (r : Resolver) (t : Taxon) (f : FormulaFacts) (c : String) (used : UsedTaxons)
    (n : Node) : Prop where
  derives : r.deriveFacts t = .ok f
  definition : t.definition = .computed c
  uses : r.usedInDefinition t = .ok used
  reads : Node.ofFormula (factContext t used) none c = .ok n
  phase : f.phase = n.phase (factContext t used)

theorem exists_factsFrom {f : FormulaFacts} (definition : t.definition = .computed c)
    (h : r.deriveFacts t = .ok f) : ∃ used n, r.FactsFrom t f c used n := by
  obtain ⟨used, uses, derived⟩ := Result.bind_eq_ok.1 h
  have computed : t.calculation? = some c := by rw [Taxon.calculation?, definition]
  unfold Taxon.deriveFacts at derived
  rw [computed] at derived
  obtain ⟨n, reads, derived⟩ := Result.bind_eq_ok.1 derived
  cases derived
  exact ⟨used, n, h, definition, uses, reads, rfl⟩

theorem FactsFrom.isUnmoved {f : FormulaFacts} {n : Node} (h : r.FactsFrom t f c used n) :
    n.isUnmoved = true := by
  have parts : Node.Hereditary fun n => n.isUnmoved = true :=
    Node.hereditary_isPlain fun _ _ _ => rfl
  exact parts.ofCalculation (fun _ _ _ => rfl) h.reads

/-! ## What facts are derived among -/

theorem reached_all_iff {s : String} : Reached r none named.all s ↔
    Reached r none named.required s ∨ Reached r none named.optional s := by
  constructor
  · intro h
    induction h with
    | asked hs => exact (UsedSlugs.mem_all.1 hs).imp .asked .asked
    | named _ names hx ih => exact ih.imp (·.named names hx) (·.named names hx)
  · rintro (h | h)
    · exact h.mono fun x hx => UsedSlugs.mem_all.2 (.inl hx)
    · exact h.mono fun x hx => UsedSlugs.mem_all.2 (.inr hx)

/-- What a definition uses are the known taxons that its references lead to. -/
theorem get?_usedInDefinition (definition : t.definition = .computed c)
    (h : r.usedInDefinition t = .ok used) (read : Formula.usedSlugs c none = .ok named)
    {s : String} {x : Taxon} :
    used.all.get? s = some x ↔ Reached r none named.all s ∧ r.taxons.get? s = some x := by
  obtain ⟨named', read', reached⟩ := reached_of_usedInDefinition definition h
  cases read.symm.trans read'
  unfold usedInDefinition at h
  rw [definition] at h
  obtain ⟨named', read', h⟩ := Result.bind_eq_ok.1 h
  cases read.symm.trans read'
  obtain ⟨required, hrequired, h⟩ := Result.bind_eq_ok.1 h
  obtain ⟨optional, hoptional, h⟩ := Result.bind_eq_ok.1 h
  cases h
  obtain ⟨_, _, proper⟩ := Formula.usedSlugs_names read
  have collects := resolveWith_collects
    (fun s hs => (proper s (UsedSlugs.mem_all.2 (.inl hs))).2) hrequired
  have collects' := resolveWith_collects
    (fun s hs => (proper s (UsedSlugs.mem_all.2 (.inr hs))).2) hoptional
  have known (s : String) (x : Taxon)
      (hx : (s, x) ∈ required.required.toList ∨
        (s, x) ∈ (required.optional.merge (optional.required.merge optional.optional)).toList) :
      (s, x) ∈ r.taxons.toList := by
    rcases hx with hx | hx
    · exact ((collects.required s x).1 hx).2
    · rcases SortedMap.mem_toList_merge hx with hx | hx
      · rcases SortedMap.mem_toList_merge hx with hx | hx
        · exact (collects'.optional s x hx).2
        · exact ((collects'.required s x).1 hx).2
      · exact (collects.optional s x hx).2
  rw [SortedMap.get?_eq_some_iff, mem_toList_all known, SortedMap.get?_eq_some_iff]
  refine and_congr_left fun hx => ⟨reached s, fun hs => ?_⟩
  have there : s ∈ r.taxons.keys := SortedMap.mem_keys.2 ⟨x, hx⟩
  rcases reached_all_iff.1 hs with hs | hs
  · exact (collects.reached s hs there).imp_right fun hs => SortedMap.mem_keys_merge.2 (.inr hs)
  · refine .inr (SortedMap.mem_keys_merge.2 (.inl (SortedMap.mem_keys_merge.2 ?_)))
    exact (collects'.reached s hs there).symm

theorem get?_factContext {s : String} (other : s ≠ t.slug) :
    (factContext t used).taxons.get? s = used.all.get? s := by
  have erased (ts : TaxonMap) : (ts.erase t.slug).get? s = ts.get? s := by
    ext x
    exact SortedMap.get?_erase.trans (and_iff_left other)
  change ((used.optional.erase t.slug).merge (used.required.erase t.slug)).get? s =
    (used.optional.merge used.required).get? s
  rw [SortedMap.get?_merge, SortedMap.get?_merge, erased, erased]

theorem get?_factContext_own : (factContext t used).taxons.get? t.slug = none := by
  have erased (ts : TaxonMap) : (ts.erase t.slug).get? t.slug = none :=
    Option.eq_none_iff_forall_ne_some.2 fun x hx => (SortedMap.get?_erase.1 hx).2 rfl
  change ((used.optional.erase t.slug).merge (used.required.erase t.slug)).get? t.slug = none
  rw [SortedMap.get?_merge, erased, erased]
  rfl

section
variable {f : FormulaFacts} {n : Node} (k : r.FactsFrom t f c used n)
  (read : Formula.usedSlugs c none = .ok named) {s : String} {x : Taxon}
include k read

/-- A calculation is read among the taxons that its references lead to, without its own. -/
theorem FactsFrom.get?_eq_some_iff : (factContext t used).taxons.get? s = some x ↔
    s ≠ t.slug ∧ Reached r none named.all s ∧ r.taxons.get? s = some x := by
  by_cases own : s = t.slug
  · subst own
    rw [get?_factContext_own]
    exact iff_of_false (fun h => nomatch h) fun h => h.1 rfl
  · rw [get?_factContext own, get?_usedInDefinition k.definition k.uses read]
    exact (and_iff_right own).symm

theorem FactsFrom.get?_of_reached (other : s ≠ t.slug) (reached : Reached r none named.all s) :
    (factContext t used).taxons.get? s = r.taxons.get? s := by
  ext x
  rw [k.get?_eq_some_iff read, and_iff_right other, and_iff_right reached]

end

/-! ## A taxon within the formula of another -/

/-- The references of a calculation that can be read are the slugs that it names. -/
theorem mem_named_of_parse {d : String} {tree : Formula.Tree} (parsed : Formula.parse d = .ok tree) :
    ∃ named, Formula.usedSlugs d none = .ok named ∧ ∀ ref ∈ tree.taxonRefs, ref.slug ∈ named.all := by
  obtain ⟨named, read⟩ := Formula.exists_usedSlugs_iff.2 ⟨tree, parsed⟩
  obtain ⟨tree', parsed', mem⟩ := Formula.mem_usedSlugs read
  cases parsed.symm.trans parsed'
  refine ⟨named, read, fun ref href => UsedSlugs.mem_all.2 ?_⟩
  cases optional : ref.optional with
  | false => exact .inl ((mem ref.slug).1.2 ⟨ref, href, rfl, optional, rfl⟩)
  | true => exact .inr ((mem ref.slug).2.2 ⟨ref, href, rfl, optional, rfl⟩)

/-- What a computed part of a formula is read from. -/
theorem FactsFrom.of_mem_parts {f : FormulaFacts} {n m : Node} (k : r.FactsFrom t f c used n)
    {u : Formula.TaxonUse} {place : Formula.Location} (part : .computed u m place ∈ n.parts) :
    ∃ x d depth optional expanding, (factContext t used).taxons.get? u.slug = some x ∧
      x.calculation? = some d ∧ u.slug ∈ expanding ∧
      Node.ofCalculation (factContext t used) depth optional expanding d = .ok m := by
  let IsRead (n : Node) : Prop := ∀ u m place, n = .computed u m place →
    ∃ x d depth optional expanding, (factContext t used).taxons.get? u.slug = some x ∧
      x.calculation? = some d ∧ u.slug ∈ expanding ∧
      Node.ofCalculation (factContext t used) depth optional expanding d = .ok m
  have read : Node.HoldsRead (factContext t used) IsRead :=
    { leaf := fun n h _ u m place e => by
        rw [e] at h
        cases h
      paren := fun _ _ _ _ _ e => nomatch e
      binary := fun _ _ _ _ _ _ _ e => nomatch e
      not := fun _ _ _ _ _ e => nomatch e
      isNull := fun _ _ _ _ _ _ e => nomatch e
      call := fun _ _ _ _ _ _ e => nomatch e }
  refine Node.all_ofCalculation read ?_ k.reads _ part u m place rfl
  intro u d depth optional expanding n place known computed reads within u' m' place' e
  cases e
  obtain ⟨x, hx, hd⟩ := Option.bind_eq_some_iff.1 computed
  exact ⟨x, d, depth, optional, expanding, known.symm.trans hx, hd, within, reads⟩

/-- A computed taxon within the formula of another has the phase of its own facts, unless its
calculation leads back to the other. -/
theorem FactsFrom.phase_of_mem_parts {f g : FormulaFacts} {n m : Node} {d : String}
    (k : r.FactsFrom t f c used n) (definition : b.definition = .computed d)
    (hg : r.deriveFacts b = .ok g) (known : r.taxons.get? b.slug = some b)
    (apart : ∀ named, r.Names none b.slug named → ¬ Reached r none named.all t.slug)
    {u : Formula.TaxonUse} {place : Formula.Location} (part : .computed u m place ∈ n.parts)
    (slug : u.slug = b.slug) : g.phase = m.phase (factContext t used) := by
  obtain ⟨used', m', k'⟩ := exists_factsFrom definition hg
  obtain ⟨x, d', depth, optional, expanding, hx, hd, within, reads⟩ := k.of_mem_parts part
  obtain ⟨named, read, _⟩ := reached_of_usedInDefinition k.definition k.uses
  obtain ⟨named', read', _⟩ := reached_of_usedInDefinition k'.definition k'.uses
  rw [slug] at hx within
  obtain ⟨_, reached, hx'⟩ := (k.get?_eq_some_iff read).1 hx
  cases known.symm.trans hx'
  have computed : b.calculation? = some d := by rw [Taxon.calculation?, definition]
  cases computed.symm.trans hd
  have names : r.Names none b.slug named' :=
    ⟨b, d, SortedMap.get?_eq_some_iff.1 known, computed, read'⟩
  have below {s : String} (hs : Reached r none named'.all s) : Reached r none named.all s :=
    hs.trans fun y hy => reached.named names hy
  have shares : Node.Shares (factContext t used) (factContext b used') expanding
      fun s => Reached r none named'.all s := by
    refine ⟨fun s hs => ?_, fun s hs c' hc' tree parsed ref href => ?_⟩
    · by_cases own : s = b.slug
      · subst own
        exact .inr ⟨within, by simp [hx, computed]⟩
      · have other : s ≠ t.slug := fun e => apart named' names (e ▸ hs)
        exact .inl ((k.get?_of_reached read other (below hs)).trans
          (k'.get?_of_reached read' own hs).symm)
    · obtain ⟨y, hy, hc'⟩ := Option.bind_eq_some_iff.1 hc'
      obtain ⟨_, _, hy⟩ := (k.get?_eq_some_iff read).1 hy
      obtain ⟨named'', read'', mem⟩ := mem_named_of_parse parsed
      exact hs.named ⟨y, c', SortedMap.get?_eq_some_iff.1 hy, hc', read''⟩ (mem ref href)
  have own (tree : Formula.Tree) (parsed : Formula.parse d = .ok tree) (ref : Formula.TaxonRef)
      (href : ref ∈ tree.taxonRefs) : Reached r none named'.all ref.slug := by
    obtain ⟨named'', read'', mem⟩ := mem_named_of_parse parsed
    cases read'.symm.trans read''
    exact .asked (mem ref href)
  have isOpen := Context.isOpen_ofTaxons (used.erase t.slug).all
  have isOpen' := Context.isOpen_ofTaxons (used'.erase b.slug).all
  have same := Node.asRequired_ofCalculation isOpen isOpen' shares own reads k'.reads
  calc g.phase = m'.phase (factContext b used') := k'.phase
    _ = m'.asRequired.phase (factContext t used) := (Node.phase_asRequired isOpen' isOpen m').symm
    _ = m.asRequired.phase (factContext t used) := by rw [same]
    _ = m.phase (factContext t used) := Node.phase_asRequired isOpen isOpen m

/-- The formula of a taxon rests on a computed taxon, whose calculation does not lead back to it. -/
structure BuildsOn (r : Resolver) (t b : Taxon) (ctx : Context) (n : Node) : Prop where
  known : r.taxons.get? b.slug = some b
  computed : ∃ d, b.definition = .computed d
  rests : ∃ u m place, u.slug = b.slug ∧ n.RestsOn ctx (.computed u m place)
  apart : ∀ named, r.Names none b.slug named → ¬ Reached r none named.all t.slug

/-- Everywhere in a formula a node is no earlier than its children, exactly if every call heeds its
arguments; and where all do, the facts of a taxon are no earlier than those it builds on. -/
theorem keepsLevel_iff_and_phase_le (r : Resolver) :
    (∀ (ctx : Context) (formula : String) (n : Node),
      Node.rootOfFormula ctx none formula = .ok n →
        (n.All (Node.KeepsLevel ctx) ↔ n.All (Node.HeedsArguments ctx))) ∧
    ∀ (t b : Taxon) (f g : FormulaFacts) (c : String) (used : UsedTaxons) (n : Node),
      r.FactsFrom t f c used n → r.deriveFacts b = .ok g →
        r.BuildsOn t b (factContext t used) n →
          n.All (Node.HeedsArguments (factContext t used)) → g.phase ≤ f.phase := by
  refine ⟨fun ctx formula n h => ?_, fun t b f g c used n k hg builds heeds => ?_⟩
  · exact Node.all_keepsLevel_iff (Node.isUnmoved_rootOfFormula h)
  · obtain ⟨d, definition⟩ := builds.computed
    obtain ⟨u, m, place, slug, rests⟩ := builds.rests
    have levels := (Node.all_keepsLevel_iff k.isUnmoved).2 heeds
    rw [k.phase_of_mem_parts definition hg builds.known builds.apart rests.mem_parts slug, k.phase]
    exact rests.phase_le levels

/-! ### A ratio of two metrics -/

def ratio : Taxon := .ofFormula "cpc" "spend / clicks" .metric "shop"

/-- A sum that holds the ratio. -/
def costs : Taxon := .ofFormula "costs" "cpc + spend" .metric "shop"

/-- A text that shows the ratio. -/
def ratioLabel : Taxon := .ofFormula "label" "to_text(cpc)" .dimension "shop"

def ratioResolver : Resolver :=
  let raw (slug : String) : Taxon :=
    ⟨slug, slug, none, .metric, .raw .sum, .numeric, "shop", none, none, none⟩
  ofTaxons (Taxon.mapOf [raw "spend", raw "clicks", ratio, costs, ratioLabel])

/-- The ratio leads to the two metrics only. -/
theorem ratio_apart : ∀ named, ratioResolver.Names none "cpc" named →
    ¬ Reached ratioResolver none named.all "costs" := by
  intro named names reached
  have raw : ∀ e ∈ ratioResolver.taxons.toList,
      e.1 ∈ ["clicks", "spend"] → e.2.calculation? = none := by decide +kernel
  have own : ∀ e ∈ ratioResolver.taxons.toList, e.1 = "cpc" →
      e.2.calculation?.all fun c => (Formula.usedSlugs c none).toOption.any fun named =>
        ∀ s ∈ named.all.toList, s ∈ ["clicks", "spend"] := by decide +kernel
  have metrics {s : String} (h : Reached ratioResolver none named.all s) :
      s ∈ ["clicks", "spend"] := by
    induction h with
    | asked hs =>
      obtain ⟨t, c, known, computed, read⟩ := names
      have slugs := own _ known rfl
      rw [computed, Option.all_some, read] at slugs
      exact of_decide_eq_true slugs _ hs
    | named _ names' _ ih =>
      obtain ⟨t, c, known, computed, _⟩ := names'
      cases (raw _ known ih).symm.trans computed
  exact absurd (metrics reached) (by decide)

theorem keepsLevel_iff_and_phase_le_costs :
    ∃ f g used n, ratioResolver.FactsFrom costs f "cpc + spend" used n ∧
      ratioResolver.deriveFacts ratio = .ok g ∧ g.phase ≤ f.phase ∧
      ∃ m, Node.rootOfFormula (factContext costs used) none "cpc + spend" = .ok m ∧
        m.All (Node.KeepsLevel (factContext costs used)) := by
  obtain ⟨f, hf, _⟩ : ∃ f, ratioResolver.deriveFacts costs = .ok f ∧ _ :=
    Result.ok_of_any (f := fun _ => true) (by decide +kernel)
  obtain ⟨g, hg, _⟩ : ∃ g, ratioResolver.deriveFacts ratio = .ok g ∧ _ :=
    Result.ok_of_any (f := fun _ => true) (by decide +kernel)
  obtain ⟨used, n, k⟩ := exists_factsFrom (c := "cpc + spend") rfl hf
  have run : (ratioResolver.usedInDefinition costs).toOption.any fun used =>
      (Node.ofFormula (factContext costs used) none "cpc + spend").toOption.any fun n =>
        n.All (Node.HeedsArguments (factContext costs used)) ∧
          n.children.any fun c => !c.isMissing (factContext costs used) && match c with
            | .computed u _ _ => u.slug = "cpc"
            | _ => false := by decide +kernel
  rw [k.uses, Except.toOption, Option.any_some, k.reads] at run
  obtain ⟨heeds, holds⟩ := of_decide_eq_true run
  obtain ⟨c, hc, present⟩ := List.any_eq_true.1 holds
  obtain ⟨there, named⟩ := Bool.and_eq_true_iff.1 present
  split at named
  · rename_i u m place
    have rests := Node.RestsOn.child hc (Bool.not_eq_true' _ ▸ there) (.self _)
    have builds : ratioResolver.BuildsOn costs ratio (factContext costs used) n :=
      ⟨by decide +kernel, ⟨"spend / clicks", rfl⟩, ⟨u, m, place, of_decide_eq_true named, rests⟩,
        ratio_apart⟩
    have root : Node.rootOfFormula (factContext costs used) none "cpc + spend" =
        .ok (.root n n.place) := by
      rw [Node.rootOfFormula, k.reads]
      rfl
    have both := keepsLevel_iff_and_phase_le ratioResolver
    refine ⟨f, g, used, n, k, hg, both.2 costs ratio f g _ used n k hg builds heeds, _, root, ?_⟩
    exact (both.1 _ _ _ root).2 (Node.all_iff.2 ⟨trivial, List.forall_mem_singleton.2 heeds⟩)
  · cases named

/-- A label is a dimension, although the ratio that it shows is known after aggregation only. -/
theorem label_earlier_than_ratio :
    (∃ f g, ratioResolver.deriveFacts ratioLabel = .ok f ∧
      f.requiredRawTaxons = ["clicks", "spend"] ∧ ratioResolver.deriveFacts ratio = .ok g ∧
      ¬ g.phase ≤ f.phase) ∧
    ∃ n, Node.rootOfFormula (.ofTaxons ratioResolver.taxons) none "to_text(spend / clicks)" = .ok n ∧
      n.faults (.ofTaxons ratioResolver.taxons) = [] ∧
      ¬ n.All (Node.KeepsLevel (.ofTaxons ratioResolver.taxons)) := by
  obtain ⟨f, hf, dimension⟩ : ∃ f, ratioResolver.deriveFacts ratioLabel = .ok f ∧ _ :=
    Result.ok_of_any (f := fun f => f.requiredRawTaxons = ["clicks", "spend"] ∧
      f.phase = .dimension) (by decide +kernel)
  obtain ⟨g, hg, post⟩ : ∃ g, ratioResolver.deriveFacts ratio = .ok g ∧ _ :=
    Result.ok_of_any (f := fun g => g.phase = .metricPost) (by decide +kernel)
  obtain ⟨n, hn, earlier⟩ : ∃ n, Node.rootOfFormula (.ofTaxons ratioResolver.taxons) none
      "to_text(spend / clicks)" = .ok n ∧ _ :=
    Result.ok_of_any (f := fun n => (n.faults (.ofTaxons ratioResolver.taxons)).isEmpty ∧
      ¬ n.All (Node.KeepsLevel (.ofTaxons ratioResolver.taxons))) (by decide +kernel)
  obtain ⟨required, dimension⟩ := of_decide_eq_true dimension
  obtain ⟨valid, earlier⟩ := of_decide_eq_true earlier
  refine ⟨⟨f, g, hf, required, hg, ?_⟩, n, hn, List.isEmpty_iff.1 valid, earlier⟩
  rw [dimension, of_decide_eq_true post]
  decide

end SemanticLayer.Resolver
