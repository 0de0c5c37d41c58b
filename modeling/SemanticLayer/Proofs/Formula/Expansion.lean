import SemanticLayer.Proofs.Formula.Rereading

/-!
# Expansion of references

A computed taxon that a formula names is expanded into its own calculation, and so is each one that
is named there.  The expansion ends since it follows chains of references to a limited depth.

* `Chain`: computed taxons, each named in the calculation of the one before it;
* `exists_ofCalculation_iff`: a calculation can be read exactly if no chain comes back to a taxon
  that is being expanded, none is too long, and each ends at a formula with known functions;
* `Node.Nests`: expansions within expansions, which stand on a chain (`Node.Nests.exists_chain`);
* `readAs_expands_chains`: a formula that can be read has no cycle, and one without can be read.
-/

namespace SemanticLayer.Formula

namespace Tree

mutual

/-- Whether every function that is called has a definition. -/
def callsKnown : Tree → Bool
  | .integer .. => true
  | .float .. => true
  | .bool .. => true
  | .singleQuoted .. => true
  | .doubleQuoted .. => true
  | .taxon .. => true
  | .call name args _ => (Function.ofName? name).isSome && allCallKnown args
  | .paren t _ => t.callsKnown
  | .binary _ l r _ => l.callsKnown && r.callsKnown
  | .not t _ => t.callsKnown
  | .isNull t _ _ => t.callsKnown

def allCallKnown : List Tree → Bool
  | [] => true
  | t :: ts => t.callsKnown && allCallKnown ts

end

end Tree

/-- Whether a text is a formula that calls known functions only. -/
def IsReadable (text : String) : Prop := ∃ t, parse text = .ok t ∧ t.callsKnown = true

/-- The calculation of a computed taxon. -/
def Context.calculation? (ctx : Context) (slug : String) : Option String :=
  (ctx.taxons.get? slug).bind Taxon.calculation?

/-- Whether a text names a computed taxon with a calculation. -/
def Context.Expands (ctx : Context) (text slug calculation : String) : Prop :=
  ctx.calculation? slug = some calculation ∧
    ∃ t, parse text = .ok t ∧ ∃ r ∈ t.taxonRefs, r.slug = slug

/-! ## Chains of references -/

/-- Computed taxons, the first named in a text and each further one in the calculation of the one
before it.  The chain leads to the calculation of the last. -/
inductive Chain (ctx : Context) : String → List String → String → Prop
  | done (text : String) : Chain ctx text [] text
  | next {text slug calculation last : String} {slugs : List String}
      (first : ctx.Expands text slug calculation) (rest : Chain ctx calculation slugs last) :
      Chain ctx text (slug :: slugs) last

/-- Whether a chain from a text comes to a taxon from which a chain comes back to it. -/
def HasCycle (ctx : Context) (text : String) : Prop :=
  ∃ before between slug calculation, Chain ctx text (before ++ [slug]) calculation ∧
    Chain ctx calculation (between ++ [slug]) calculation

/-- Whether the taxons of a chain can be expanded, each within the one before it. -/
structure IsExpandable (ctx : Context) (slugs : List String) : Prop where
  nodup : slugs.Nodup
  others : ctx.slug ∉ slugs
  short : slugs.length + 1 < referenceLimit

namespace Chain

variable {ctx : Context} {text last : String} {slugs : List String}

theorem append {middle : String} {more : List String} (h : Chain ctx text slugs middle)
    (rest : Chain ctx middle more last) : Chain ctx text (slugs ++ more) last := by
  induction h with
  | done => exact rest
  | next first _ ih => exact .next first (ih rest)

/-- A chain up to one of its taxons. -/
theorem upTo {before after : List String} {slug : String}
    (h : Chain ctx text (before ++ slug :: after) last) :
    ∃ calculation, ctx.calculation? slug = some calculation ∧
      Chain ctx text (before ++ [slug]) calculation := by
  induction before generalizing text with
  | nil =>
    cases h with
    | next first _ => exact ⟨_, first.1, .next first (.done _)⟩
  | cons s before ih =>
    cases h with
    | next first rest =>
      obtain ⟨calculation, named, start⟩ := ih rest
      exact ⟨calculation, named, .next first start⟩

/-- Without a cycle no taxon comes twice. -/
theorem nodup (h : Chain ctx text slugs last) (acyclic : ¬HasCycle ctx text) : slugs.Nodup := by
  induction h with
  | done => exact .nil
  | @next text slug calculation last slugs first rest ih =>
    refine List.nodup_cons.2 ⟨fun again => ?_, ih ?_⟩
    · obtain ⟨between, after, rfl⟩ := List.append_of_mem again
      obtain ⟨c, named, back⟩ := rest.upTo
      cases first.1.symm.trans named
      exact acyclic ⟨[], between, slug, calculation, .next first (.done _), back⟩
    · rintro ⟨before, between, s, c, leads, back⟩
      exact acyclic ⟨slug :: before, between, s, c, .next first leads, back⟩

/-- The taxon of a cycle comes twice on a chain that goes round once more. -/
theorem exists_not_nodup (cycle : HasCycle ctx text) :
    ∃ slugs last, Chain ctx text slugs last ∧ ¬slugs.Nodup := by
  obtain ⟨before, between, slug, calculation, leads, back⟩ := cycle
  refine ⟨_, _, leads.append back, fun nodup => ?_⟩
  exact (List.disjoint_of_nodup_append nodup) (List.mem_append_right _ (List.mem_singleton_self _))
    (List.mem_append_right _ (List.mem_singleton_self _))

end Chain

namespace Node

variable {ctx : Context}

/-! ## Reading along chains -/

section
variable {text : String} {lookup : TaxonRef → Location → Result Node} {found : TaxonRef → Prop}

mutual

/-- A tree has a node exactly if its functions are known and its references are found. -/
theorem exists_ofTree_iff
    (hlookup : ∀ r place, (∃ n, lookup r place = .ok n) ↔ found r) : (t : Tree) →
    ((∃ n, ofTree ctx text lookup t = .ok n) ↔
      t.callsKnown = true ∧ ∀ r ∈ t.taxonRefs, found r)
  | .integer .. => iff_of_true ⟨_, rfl⟩ ⟨rfl, List.forall_mem_nil _⟩
  | .float .. => iff_of_true ⟨_, rfl⟩ ⟨rfl, List.forall_mem_nil _⟩
  | .bool .. => iff_of_true ⟨_, rfl⟩ ⟨rfl, List.forall_mem_nil _⟩
  | .singleQuoted .. => iff_of_true ⟨_, rfl⟩ ⟨rfl, List.forall_mem_nil _⟩
  | .doubleQuoted .. => iff_of_true ⟨_, rfl⟩ ⟨rfl, List.forall_mem_nil _⟩
  | .taxon r s => by
    rw [ofTree, hlookup, Tree.callsKnown, Tree.taxonRefs, List.forall_mem_singleton]
    exact (and_iff_right rfl).symm
  | .call name args s => by
    rw [ofTree, Tree.callsKnown, Tree.taxonRefs]
    cases Function.ofName? name with
    | none =>
      refine iff_of_false ?_ (fun h => Bool.false_ne_true h.1)
      rintro ⟨_, h⟩
      cases h
    | some f => exact Result.exists_bind_ok.trans (exists_ofTrees_iff hlookup args)
  | .paren t s => Result.exists_bind_ok.trans (exists_ofTree_iff hlookup t)
  | .binary op l r s => by
    rw [ofTree, Tree.callsKnown, Tree.taxonRefs, Bool.and_eq_true, List.forall_mem_append,
      and_and_and_comm, ← exists_ofTree_iff hlookup l, ← exists_ofTree_iff hlookup r]
    exact Result.exists_bind_iff fun _ => Result.exists_bind_ok
  | .not t s => Result.exists_bind_ok.trans (exists_ofTree_iff hlookup t)
  | .isNull t negated s => Result.exists_bind_ok.trans (exists_ofTree_iff hlookup t)

theorem exists_ofTrees_iff
    (hlookup : ∀ r place, (∃ n, lookup r place = .ok n) ↔ found r) : (ts : List Tree) →
    ((∃ ns, ofTrees ctx text lookup ts = .ok ns) ↔
      Tree.allCallKnown ts = true ∧ ∀ r ∈ Tree.taxonRefsOf ts, found r)
  | [] => iff_of_true ⟨_, rfl⟩ ⟨rfl, List.forall_mem_nil _⟩
  | t :: ts => by
    rw [ofTrees, Tree.allCallKnown, Tree.taxonRefsOf, Bool.and_eq_true, List.forall_mem_append,
      and_and_and_comm, ← exists_ofTree_iff hlookup t, ← exists_ofTrees_iff hlookup ts]
    exact Result.exists_bind_iff fun _ => Result.exists_bind_ok

end

end

/-- A reference is found unless it is to a computed taxon that is being expanded, or whose
calculation cannot be read. -/
theorem exists_lookupTaxon_iff (ctx : Context) (optional : Bool) (expanding : List String)
    (expand : Bool → List String → String → Result Node) (r : TaxonRef) (place : Location) :
    (∃ n, lookupTaxon ctx optional expanding expand r place = .ok n) ↔
      ∀ c, ctx.calculation? r.slug = some c → r.slug ≠ ctx.slug ∧ r.slug ∉ expanding ∧
        ∃ n, expand (r.optional || optional) (expanding ++ [r.slug]) c = .ok n := by
  unfold lookupTaxon
  dsimp only [TaxonRef.toUse]
  rw [← Context.calculation?]
  cases ctx.calculation? r.slug with
  | none =>
    refine iff_of_true ⟨_, rfl⟩ ?_
    intro c h
    cases h
  | some c =>
    simp only [Option.some.injEq, forall_eq']
    split
    · rename_i expanded
      refine iff_of_false ?_ ?_
      · rintro ⟨_, h⟩
        cases h
      rintro ⟨others, new, _⟩
      rw [Bool.or_eq_true, decide_eq_true_eq, List.contains_iff_mem] at expanded
      exact expanded.elim others new
    · rename_i unexpanded
      rw [Bool.or_eq_true, decide_eq_true_eq, List.contains_iff_mem, not_or] at unexpanded
      rw [Result.exists_map_ok, ← and_assoc]
      exact (and_iff_right unexpanded).symm

/-- A calculation can be read exactly if every chain from it is short enough, comes to no taxon
twice and to none that is being expanded, and ends at a formula that can be read by itself. -/
theorem exists_ofCalculation_iff {depth : Nat} {optional : Bool} {expanding : List String}
    {text : String} :
    (∃ n, ofCalculation ctx depth optional expanding text = .ok n) ↔
      ∀ slugs last, Chain ctx text slugs last → slugs.length < depth ∧ slugs.Nodup ∧
        ctx.slug ∉ slugs ∧ (∀ s ∈ slugs, s ∉ expanding) ∧ IsReadable last := by
  induction depth generalizing optional expanding text with
  | zero =>
    refine iff_of_false ?_ fun chains => Nat.not_lt_zero _ (chains [] text (.done text)).1
    rintro ⟨n, h⟩
    rw [ofCalculation] at h
    obtain ⟨_, _, h⟩ := Result.bind_eq_ok.1 h
    cases h
  | succ depth ih =>
    -- What is found at a reference, by induction: all chains from its calculation.
    have found (r : TaxonRef) (place : Location) :=
      exists_lookupTaxon_iff ctx optional expanding (ofCalculation ctx depth) r place
    simp only [ih] at found
    rw [ofCalculation]
    constructor
    · rintro ⟨n, h⟩
      obtain ⟨t, read, h⟩ := Result.bind_eq_ok.1 h
      obtain ⟨known, references⟩ := (exists_ofTree_iff found t).1 ⟨n, h⟩
      intro slugs last chain
      cases chain with
      | done =>
        exact ⟨Nat.succ_pos _, .nil, List.not_mem_nil, List.forall_mem_nil _, t, read, known⟩
      | next first rest =>
        obtain ⟨named, t', read', r, hr, rfl⟩ := first
        cases read.symm.trans read'
        obtain ⟨other, new, chains⟩ := references r hr _ named
        obtain ⟨short, nodup, others, news, ends⟩ := chains _ _ rest
        refine ⟨Nat.succ_lt_succ short, List.nodup_cons.2 ⟨fun again => ?_, nodup⟩, ?_, ?_, ends⟩
        · exact news _ again (List.mem_append_right _ (List.mem_singleton_self _))
        · exact List.not_mem_cons_of_ne_of_not_mem other.symm others
        · exact List.forall_mem_cons.2
            ⟨new, fun s hs old => news s hs (List.mem_append_left _ old)⟩
    · intro chains
      obtain ⟨_, _, _, _, t, read, known⟩ := chains [] text (.done text)
      rw [read]
      refine (exists_ofTree_iff found t).2 ⟨known, fun r hr c named => ?_⟩
      have first : ctx.Expands text r.slug c := ⟨named, t, read, r, hr, rfl⟩
      obtain ⟨_, _, others, news, _⟩ := chains _ _ (.next first (.done c))
      refine ⟨fun own => others (own ▸ List.mem_singleton_self _),
        news _ (List.mem_singleton_self _), fun slugs last rest => ?_⟩
      obtain ⟨short, nodup, others, news, ends⟩ := chains _ _ (.next first rest)
      obtain ⟨once, nodup⟩ := List.nodup_cons.1 nodup
      refine ⟨Nat.lt_of_succ_lt_succ short, nodup,
        fun own => others (List.mem_cons_of_mem _ own), ?_, ends⟩
      intro s hs expanded
      rcases List.mem_append.1 expanded with old | own
      · exact news s (List.mem_cons_of_mem _ hs) old
      · exact once (List.mem_singleton.1 own ▸ hs)

theorem exists_ofFormula_iff {text : String} :
    (∃ n, ofFormula ctx none text = .ok n) ↔
      ∀ slugs last, Chain ctx text slugs last → IsExpandable ctx slugs ∧ IsReadable last := by
  refine exists_ofCalculation_iff.trans (forall₃_congr fun slugs last _ => ?_)
  constructor
  · rintro ⟨short, nodup, others, _, ends⟩
    exact ⟨⟨nodup, others, Nat.succ_lt_succ short⟩, ends⟩
  · rintro ⟨⟨nodup, others, short⟩, ends⟩
    exact ⟨Nat.lt_of_succ_lt_succ short, nodup, others, fun _ _ => List.not_mem_nil, ends⟩

/-! ## Expansions within expansions -/

/-- Computed taxons that stand in a node, each within the expansion of the one before it. -/
inductive Nests : Node → List String → Prop
  | nil (n : Node) : Nests n []
  | cons {n calculation : Node} {u : TaxonUse} {place : Location} {slugs : List String}
      (within : .computed u calculation place ∈ n.parts) (inner : calculation.Nests slugs) :
      Nests n (u.slug :: slugs)

/-- Whether a node, if it is an expansion, is the last of a chain from a text and what the
calculation at its end reads as. -/
def EndsChain (ctx : Context) (text : String) (n : Node) : Prop :=
  ∀ u calculation place, n = .computed u calculation place →
    ∃ before c depth optional expanding, Chain ctx text (before ++ [u.slug]) c ∧
      ofCalculation ctx depth optional expanding c = .ok calculation

theorem holdsRead_endsChain {text : String} : HoldsRead ctx (EndsChain ctx text) where
  leaf _ leaf _ _ _ _ same := by
    subst same
    cases leaf
  paren _ _ _ _ _ same := by cases same
  binary _ _ _ _ _ _ _ same := by cases same
  not _ _ _ _ _ same := by cases same
  isNull _ _ _ _ _ _ same := by cases same
  call _ _ _ _ _ _ same := by cases same

theorem EndsChain.next {text slug c : String} (first : ctx.Expands text slug c) {n : Node}
    (h : EndsChain ctx c n) : EndsChain ctx text n := by
  intro u calculation place same
  obtain ⟨before, last, depth, optional, expanding, rest, reads⟩ := h u calculation place same
  exact ⟨slug :: before, last, depth, optional, expanding, .next first rest, reads⟩

/-- All expansions in a formula end chains from it. -/
theorem all_endsChain {depth : Nat} {optional : Bool} {expanding : List String}
    {text : String} {n : Node} (read : ofCalculation ctx depth optional expanding text = .ok n) :
    n.All (EndsChain ctx text) := by
  induction depth generalizing optional expanding text n with
  | zero =>
    rw [ofCalculation] at read
    obtain ⟨_, _, h⟩ := Result.bind_eq_ok.1 read
    cases h
  | succ depth ih =>
    rw [ofCalculation] at read
    obtain ⟨tree, parsed, h⟩ := Result.bind_eq_ok.1 read
    refine all_ofTree holdsRead_endsChain.written tree (fun r hr place k hk => ?_) n h
    rcases lookupTaxon_eq_ok hk with ⟨_, rfl⟩ | ⟨c, m, named, _, inner, rfl⟩
    · exact all_of_children_eq_nil rfl (holdsRead_endsChain.leaf _ rfl rfl)
    · have first : ctx.Expands text r.slug c := ⟨named, tree, parsed, r, hr, rfl⟩
      refine all_iff.2 ⟨?_, List.forall_mem_singleton.2 fun p hp => (ih inner p hp).next first⟩
      rintro _ _ _ ⟨⟩
      exact ⟨[], c, _, _, _, .next first (.done c), inner⟩

/-- Expansions within expansions stand on a chain. -/
theorem Nests.exists_chain {n : Node} {slugs : List String} (h : n.Nests slugs) {depth : Nat}
    {optional : Bool} {expanding : List String} {text : String}
    (read : ofCalculation ctx depth optional expanding text = .ok n) :
    ∃ chain last, Chain ctx text chain last ∧ slugs.Sublist chain := by
  induction h generalizing depth optional expanding text with
  | nil => exact ⟨[], text, .done text, .slnil⟩
  | cons within _ ih =>
    obtain ⟨before, c, _, _, _, start, reads⟩ := all_endsChain read _ within _ _ _ rfl
    obtain ⟨chain, last, rest, sub⟩ := ih reads
    refine ⟨_, last, start.append rest, ?_⟩
    rw [List.append_assoc, List.singleton_append]
    exact (sub.cons_cons _).trans (List.sublist_append_right ..)

/-- The node of a formula, or that of the whole formula. -/
def readAs (ctx : Context) (whole : Bool) (text : String) : Result Node :=
  if whole then rootOfFormula ctx none text else ofFormula ctx none text

theorem exists_readAs_iff {whole : Bool} {text : String} :
    (∃ n, readAs ctx whole text = .ok n) ↔ ∃ n, ofFormula ctx none text = .ok n := by
  unfold readAs
  split
  · exact Result.exists_map_ok
  · exact Iff.rfl

theorem Nests.exists_chain_of_readAs {whole : Bool} {text : String} {n : Node}
    (read : readAs ctx whole text = .ok n) {slugs : List String} (h : n.Nests slugs) :
    ∃ chain last, Chain ctx text chain last ∧ slugs.Sublist chain := by
  unfold readAs at read
  split at read
  · obtain ⟨m, hm, rfl⟩ := Result.map_eq_ok.1 read
    cases h with
    | nil => exact ⟨[], text, .done text, .slnil⟩
    | cons within inner =>
      rcases List.mem_cons.1 within with root | within
      · cases root
      · exact (Nests.cons within inner).exists_chain hm
  · exact h.exists_chain read

end Node

theorem IsExpandable.of_sublist {ctx : Context} {slugs chain : List String}
    (h : IsExpandable ctx chain) (sub : slugs.Sublist chain) : IsExpandable ctx slugs :=
  ⟨h.nodup.sublist sub, fun own => h.others (sub.subset own),
    Nat.lt_of_le_of_lt (Nat.succ_le_succ sub.length_le) h.short⟩

/-! ## Formulas without cycles -/

/-- Expansion is safe from cycles.  In a formula that is read, no chain of references and no
expansions within each other repeat a taxon, come to the one that the formula defines, or reach the
limit.  One that leads to a cycle is not read.  One that leads to none is read, as long as its
chains keep to these rules and to formulas that can be read by themselves. -/
theorem readAs_expands_chains (ctx : Context) (whole : Bool) (text : String) :
    (∀ n, Node.readAs ctx whole text = .ok n →
      (∀ slugs last, Chain ctx text slugs last → IsExpandable ctx slugs) ∧
        ∀ slugs, n.Nests slugs → IsExpandable ctx slugs) ∧
    (HasCycle ctx text → ∃ e, Node.readAs ctx whole text = .error e) ∧
    (¬HasCycle ctx text →
      (∀ slugs last, Chain ctx text slugs last →
        ctx.slug ∉ slugs ∧ slugs.length + 1 < referenceLimit ∧ IsReadable last) →
        ∃ n, Node.readAs ctx whole text = .ok n) := by
  have reads : (∃ n, Node.readAs ctx whole text = .ok n) ↔
      ∀ slugs last, Chain ctx text slugs last → IsExpandable ctx slugs ∧ IsReadable last :=
    Node.exists_readAs_iff.trans Node.exists_ofFormula_iff
  refine ⟨fun n read => ?_, fun cycle => ?_, fun acyclic chains => ?_⟩
  · have expandable := reads.1 ⟨n, read⟩
    refine ⟨fun slugs last chain => (expandable slugs last chain).1, fun slugs nests => ?_⟩
    obtain ⟨chain, last, leads, sub⟩ := nests.exists_chain_of_readAs read
    exact (expandable chain last leads).1.of_sublist sub
  · cases read : Node.readAs ctx whole text with
    | error e => exact ⟨e, rfl⟩
    | ok n =>
      obtain ⟨slugs, last, chain, again⟩ := Chain.exists_not_nodup cycle
      exact absurd (reads.1 ⟨n, read⟩ slugs last chain).1.nodup again
  · refine reads.2 fun slugs last chain => ?_
    obtain ⟨others, short, ends⟩ := chains slugs last chain
    exact ⟨⟨chain.nodup acyclic, others, short⟩, ends⟩

/-! ### A cost in a total twice -/

theorem Context.Expands.of_any {ctx : Context} {text slug calculation : String}
    (computed : ctx.calculation? slug = some calculation)
    (named : (parse text).toOption.any (fun t => t.taxonRefs.any fun r => r.slug = slug) = true) :
    ctx.Expands text slug calculation := by
  obtain ⟨t, parsed, named⟩ := Result.ok_of_any named
  obtain ⟨r, hr, same⟩ := List.any_eq_true.1 named
  exact ⟨computed, t, parsed, r, hr, of_decide_eq_true same⟩

/-- A cost that a total names twice, and a debit and a credit that name each other. -/
def sharedCost : Context :=
  let metric (slug : String) (definition : TaxonDefinition) : Taxon :=
    ⟨slug, slug, none, .metric, definition, .numeric, "shop", none, none, none⟩
  Context.ofTaxons (Taxon.mapOf [metric "spend" (.raw .sum),
    metric "cost" (.computed "spend + spend"), metric "total" (.computed "cost + cost?"),
    metric "debit" (.computed "spend - credit"), metric "credit" (.computed "spend - debit?")])

theorem readAs_expands_chains_shared :
    IsExpandable sharedCost ["total", "cost"] ∧ ¬HasCycle sharedCost "total + cost" ∧
    (∃ n, Node.readAs sharedCost true "total + cost" = .ok n) ∧
    HasCycle sharedCost "total + debit" ∧
    ∃ e, Node.readAs sharedCost true "total + debit" = .error e := by
  obtain ⟨n, read, _⟩ : ∃ n, Node.readAs sharedCost true "total + cost" = .ok n ∧ _ :=
    Result.ok_of_any (f := fun _ => true) (by decide +kernel)
  obtain ⟨sound, _, complete⟩ := readAs_expands_chains sharedCost true "total + cost"
  have chains := Node.exists_ofFormula_iff.1 (Node.exists_readAs_iff.1 ⟨n, read⟩)
  have total : sharedCost.Expands "total + cost" "total" "cost + cost?" :=
    .of_any (by decide +kernel) (by decide +kernel)
  have cost : sharedCost.Expands "cost + cost?" "cost" "spend + spend" :=
    .of_any (by decide +kernel) (by decide +kernel)
  have acyclic : ¬HasCycle sharedCost "total + cost" := by
    intro cycle
    obtain ⟨slugs, last, chain, again⟩ := Chain.exists_not_nodup cycle
    exact again (chains slugs last chain).1.nodup
  have debit : sharedCost.Expands "total + debit" "debit" "spend - credit" :=
    .of_any (by decide +kernel) (by decide +kernel)
  have credit : sharedCost.Expands "spend - credit" "credit" "spend - debit?" :=
    .of_any (by decide +kernel) (by decide +kernel)
  have back : sharedCost.Expands "spend - debit?" "debit" "spend - credit" :=
    .of_any (by decide +kernel) (by decide +kernel)
  have cycle : HasCycle sharedCost "total + debit" :=
    ⟨[], ["credit"], "debit", _, .next debit (.done _), .next credit (.next back (.done _))⟩
  refine ⟨(sound n read).1 _ _ (.next total (.next cost (.done _))), acyclic, ?_, cycle,
    (readAs_expands_chains sharedCost true "total + debit").2.1 cycle⟩
  refine complete acyclic fun slugs last chain => ?_
  obtain ⟨expandable, ends⟩ := chains slugs last chain
  exact ⟨expandable.others, expandable.short, ends⟩

end SemanticLayer.Formula
