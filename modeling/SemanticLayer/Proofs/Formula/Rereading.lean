import SemanticLayer.Proofs.Collections.Entries
import SemanticLayer.Proofs.Formula.Parts

/-!
# A formula read twice

A calculation is read anew wherever a taxon with it is named: among other taxons, below other
references, and with its own references optional or not.  Where every data source is allowed, none
of this changes the phase of what is read.

* `asRequired`: a node with every reference required;
* `isMissing_asRequired`, `type_asRequired`, `isEmpty_used_asRequired`, `phase_asRequired`: what does
  not depend on that where every data source is allowed;
* `asRequired_ofTree`, `asRequired_ofCalculation`: two readings differ in nothing else, if they know
  the same of all that the calculation leads to.
-/

namespace SemanticLayer.Formula

/-- Whether every data source is allowed and no model is asked for its attributes. -/
structure Context.IsOpen (ctx : Context) : Prop where
  dataSources? : ctx.dataSources? = none
  modelTable? : ctx.modelTable? = none

theorem Context.isOpen_ofTaxons (taxons : TaxonMap) : (Context.ofTaxons taxons).IsOpen := ⟨rfl, rfl⟩

theorem Context.IsOpen.isAllowed {ctx : Context} (h : ctx.IsOpen) (u : TaxonUse) :
    u.isAllowed ctx = true := by
  unfold TaxonUse.isAllowed Context.allows
  rw [h.dataSources?]
  cases u.dataSource? <;> rfl

theorem Context.IsOpen.isSingleSource {ctx : Context} (h : ctx.IsOpen) :
    ctx.isSingleSource = false := by
  rw [Context.isSingleSource, h.dataSources?]
  rfl

def TaxonUse.asRequired (u : TaxonUse) : TaxonUse := { u with isOptional := false }

namespace UsedSlugs

theorem isEmpty_merge (u v : UsedSlugs) : (u.merge v).isEmpty = (u.isEmpty && v.isEmpty) := by
  rw [Bool.eq_iff_iff]
  simp only [isEmpty, merge, Bool.and_eq_true, SortedSet.isEmpty_iff, SortedSet.mem_cup, not_or,
    forall_and, and_and_and_comm]

theorem isEmpty_mergeAll (us : List UsedSlugs) :
    (mergeAll us).isEmpty = (us.map isEmpty).all id := by
  have each (u : UsedSlugs) :
      (us.foldl merge u).isEmpty = (u.isEmpty && (us.map isEmpty).all id) := by
    induction us generalizing u with
    | nil => simp
    | cons v us ih =>
      rw [List.foldl_cons, ih, isEmpty_merge, List.map_cons, List.all_cons, Bool.and_assoc]
      rfl
  exact each empty

theorem isEmpty_ofTaxon (slug : String) (optional : Bool) :
    (ofTaxon slug optional).isEmpty = false := by
  cases optional <;> rfl

end UsedSlugs

namespace Node

variable {ctx ctx' : Context}

mutual

/-- The node with every reference required. -/
def asRequired : Node → Node
  | .integer n p => .integer n p
  | .decimal x p => .decimal x p
  | .text s p => .text s p
  | .bool b p => .bool b p
  | .column s p => .column s p
  | .paren n p => .paren n.asRequired p
  | .taxon u p => .taxon u.asRequired p
  | .attribute u e p => .attribute u.asRequired e p
  | .computed u n p => .computed u.asRequired n.asRequired p
  | .binary op l r p => .binary op l.asRequired r.asRequired p
  | .not n p => .not n.asRequired p
  | .isNull n negated p => .isNull n.asRequired negated p
  | .call f args single p => .call f (eachAsRequired args) single p
  | .transition t n a label? p => .transition t n.asRequired a label? p
  | .root n p => .root n.asRequired p

def eachAsRequired : List Node → List Node
  | [] => []
  | n :: ns => n.asRequired :: eachAsRequired ns

end

theorem eachAsRequired_eq (ns : List Node) : eachAsRequired ns = ns.map asRequired := by
  induction ns with
  | nil => rw [eachAsRequired, List.map_nil]
  | cons n ns ih => rw [eachAsRequired, ih, List.map_cons]

theorem map_eachAsRequired {α : Type} {f g : Node → α} {ns : List Node}
    (h : ∀ n ∈ ns, f n.asRequired = g n) : (eachAsRequired ns).map f = ns.map g := by
  rw [eachAsRequired_eq, List.map_map]
  exact List.map_congr_left h

section
variable (h : ctx.IsOpen) (h' : ctx'.IsOpen)
include h h'

theorem isMissing_asRequired (n : Node) : n.asRequired.isMissing ctx' = n.isMissing ctx := by
  induction n with
  | integer | decimal | text | bool | column | modelAttribute => rfl
  | paren n _ ih | not n _ ih | isNull n _ _ ih | transition _ n _ _ _ ih | root n _ ih => exact ih
  | taxon u _ =>
    rw [asRequired, isMissing, isMissing, h.isAllowed, h'.isAllowed, Bool.not_true, Bool.and_false,
      Bool.and_false]
    rfl
  | computed u n _ ih =>
    rw [asRequired, isMissing, isMissing, h.isAllowed, h'.isAllowed, ih, Bool.not_true,
      Bool.and_false, Bool.and_false]
  | binary op l r _ hl hr => cases op <;> simp only [asRequired, isMissing, hl, hr]
  | call f args _ _ ih =>
    rw [asRequired, isMissing, isMissing, eachIsMissing_eq, eachIsMissing_eq, map_eachAsRequired ih]

theorem type_asRequired (n : Node) : n.asRequired.type ctx' = n.type ctx := by
  induction n with
  | integer | decimal | text | bool | column | modelAttribute | taxon => rfl
  | paren n _ ih | not n _ ih | computed _ n _ ih | transition _ n _ _ _ ih | root n _ ih => exact ih
  | isNull n _ _ ih => rw [asRequired, type, type, ih]
  | binary op l r _ hl hr =>
    rw [asRequired, type, type, isMissing_asRequired h h', isMissing_asRequired h h', hl, hr]
  | call f args _ _ ih =>
    rw [asRequired, type, type, typeEach_eq, typeEach_eq, map_eachAsRequired ih]

theorem isEmpty_used_asRequired (n : Node) :
    (n.asRequired.used ctx').isEmpty = (n.used ctx).isEmpty := by
  induction n with
  | integer | decimal | text | bool | column | modelAttribute => rfl
  | paren n _ ih | not n _ ih | isNull n _ _ ih | transition _ n _ _ _ ih | root n _ ih => exact ih
  | taxon u _ =>
    rw [asRequired, used, used, TaxonUse.asRequired]
    split
    · rw [UsedSlugs.isEmpty_ofTaxon, UsedSlugs.isEmpty_ofTaxon]
    · rfl
  | computed u n _ ih =>
    rw [asRequired, used, used, UsedSlugs.isEmpty_merge, UsedSlugs.isEmpty_merge,
      UsedSlugs.isEmpty_ofTaxon, UsedSlugs.isEmpty_ofTaxon, Bool.and_false, Bool.and_false]
  | binary op l r _ hl hr =>
    rw [asRequired, used, used, UsedSlugs.isEmpty_merge, UsedSlugs.isEmpty_merge,
      isMissing_asRequired h h', isMissing_asRequired h h', apply_ite UsedSlugs.isEmpty,
      apply_ite UsedSlugs.isEmpty, hl, hr, apply_ite UsedSlugs.isEmpty, apply_ite UsedSlugs.isEmpty]
  | call f args _ _ ih =>
    rw [asRequired, used, used, usedEach_eq, usedEach_eq, UsedSlugs.isEmpty_mergeAll,
      UsedSlugs.isEmpty_mergeAll, List.map_map, List.map_map, map_eachAsRequired ih]
    rfl

theorem isPostOperation_asRequired (op : Operator) (l r : Node) (left right : Phase) :
    isPostOperation ctx' op l.asRequired r.asRequired left right =
      isPostOperation ctx op l r left right := by
  unfold isPostOperation isPostValue
  rw [isMissing_asRequired h h', isMissing_asRequired h h', type_asRequired h h',
    type_asRequired h h', isEmpty_used_asRequired h h', isEmpty_used_asRequired h h']

theorem phase_asRequired (n : Node) : n.asRequired.phase ctx' = n.phase ctx := by
  induction n with
  | integer | decimal | text | bool | column | modelAttribute | taxon | transition | root => rfl
  | paren n _ ih | not n _ ih | computed _ n _ ih | isNull n _ _ ih => exact ih
  | binary op l r _ hl hr =>
    rw [asRequired, phase, phase, isPostOperation_asRequired h h', isPostValue, isPostValue,
      isMissing_asRequired h h', isMissing_asRequired h h', hl, hr]
    rfl
  | call f args _ _ ih =>
    rw [asRequired, phase, phase, phaseEach_eq, phaseEach_eq, map_eachAsRequired ih]

end

/-! ## Reading a calculation twice -/

/-- Arguments that agree once their references are required are left out of a call alike. -/
theorem asRequired_ofCall (h : ctx.IsOpen) (h' : ctx'.IsOpen) {f : Function} {args args' : List Node}
    {place : Location} (same : args.map asRequired = args'.map asRequired) :
    (ofCall ctx f args place).asRequired = (ofCall ctx' f args' place).asRequired := by
  have present {ctx : Context} (h : ctx.IsOpen) (args : List Node) :
      (args.filter fun n => !n.isMissing ctx).map asRequired =
        (args.map asRequired).filter fun n => !n.isMissing ctx := by
    rw [List.filter_map]
    refine congrArg _ (List.filter_congr fun n _ => ?_)
    rw [Function.comp_apply, isMissing_asRequired h h]
  have open_eq (n : Node) : n.isMissing ctx' = n.isMissing ctx :=
    (isMissing_asRequired h' h' n).symm.trans (isMissing_asRequired h h' n)
  unfold ofCall
  rw [asRequired, asRequired, eachAsRequired_eq, eachAsRequired_eq, h.isSingleSource,
    h'.isSingleSource, apply_ite (List.map asRequired), apply_ite (List.map asRequired), present h,
    present h', same, funext open_eq]

theorem lookupTaxon_eq_ok {optional : Bool} {expanding : List String}
    {expand : Bool → List String → String → Result Node} {r : TaxonRef} {place : Location}
    {n : Node} (h : lookupTaxon ctx optional expanding expand r place = .ok n) :
    (ctx.taxons.get? r.slug).bind Taxon.calculation? = none ∧
        n = .taxon (r.toUse ctx optional) place ∨
      ∃ c m, (ctx.taxons.get? r.slug).bind Taxon.calculation? = some c ∧ r.slug ∉ expanding ∧
        expand (r.toUse ctx optional).isOptional (expanding ++ [r.slug]) c = .ok m ∧
        n = .computed (r.toUse ctx optional) m place := by
  unfold lookupTaxon at h
  dsimp only at h
  split at h
  · rename_i none
    cases h
    exact .inl ⟨none, rfl⟩
  · rename_i c known
    split at h
    · cases h
    · rename_i new
      rw [Bool.or_eq_true, not_or, List.contains_iff_mem] at new
      obtain ⟨m, hm, rfl⟩ := Result.map_eq_ok.1 h
      exact .inr ⟨c, m, known, new.2, hm, rfl⟩

/-- Whether two ways to look up a reference agree where both find something. -/
def LookAlike (lookup lookup' : TaxonRef → Location → Result Node) (r : TaxonRef) : Prop :=
  ∀ place n n', lookup r place = .ok n → lookup' r place = .ok n' → n.asRequired = n'.asRequired

section
variable {text : String} {lookup lookup' : TaxonRef → Location → Result Node}

mutual

theorem asRequired_ofTree (h : ctx.IsOpen) (h' : ctx'.IsOpen) : ∀ (t : Tree),
    (∀ r ∈ t.taxonRefs, LookAlike lookup lookup' r) → ∀ (n n' : Node),
      ofTree ctx text lookup t = .ok n → ofTree ctx' text lookup' t = .ok n' →
        n.asRequired = n'.asRequired
  | .integer .., _, n, n', hn, hn' => by
    rw [ofTree] at hn hn'
    cases hn
    cases hn'
    rfl
  | .float .., _, n, n', hn, hn' => by
    rw [ofTree] at hn hn'
    cases hn
    cases hn'
    rfl
  | .bool .., _, n, n', hn, hn' => by
    rw [ofTree] at hn hn'
    cases hn
    cases hn'
    rfl
  | .singleQuoted .., _, n, n', hn, hn' => by
    rw [ofTree] at hn hn'
    cases hn
    cases hn'
    rfl
  | .doubleQuoted .., _, n, n', hn, hn' => by
    have setting : ctx.setting = ctx'.setting := by
      rw [Context.setting, Context.setting, h.modelTable?, h'.modelTable?]
    rw [ofTree, setting] at hn
    rw [ofTree] at hn'
    cases hn
    cases hn'
    rfl
  | .taxon r s, alike, n, n', hn, hn' => by
    rw [ofTree] at hn hn'
    exact alike r (List.mem_singleton_self r) _ n n' hn hn'
  | .call name args s, alike, n, n', hn, hn' => by
    rw [ofTree] at hn hn'
    cases named : Function.ofName? name with
    | none =>
      rw [named] at hn
      cases hn
    | some f =>
      rw [named] at hn hn'
      obtain ⟨ns, hns, hn⟩ := Result.bind_eq_ok.1 hn
      obtain ⟨ns', hns', hn'⟩ := Result.bind_eq_ok.1 hn'
      cases hn
      cases hn'
      exact asRequired_ofCall h h' (asRequired_ofTrees h h' args alike ns ns' hns hns')
  | .paren t s, alike, n, n', hn, hn' => by
    rw [ofTree] at hn hn'
    obtain ⟨m, hm, hn⟩ := Result.bind_eq_ok.1 hn
    obtain ⟨m', hm', hn'⟩ := Result.bind_eq_ok.1 hn'
    cases hn
    cases hn'
    rw [asRequired, asRequired, asRequired_ofTree h h' t alike m m' hm hm']
  | .binary op l r s, alike, n, n', hn, hn' => by
    rw [ofTree] at hn hn'
    obtain ⟨left, hl, hn⟩ := Result.bind_eq_ok.1 hn
    obtain ⟨right, hr, hn⟩ := Result.bind_eq_ok.1 hn
    obtain ⟨left', hl', hn'⟩ := Result.bind_eq_ok.1 hn'
    obtain ⟨right', hr', hn'⟩ := Result.bind_eq_ok.1 hn'
    cases hn
    cases hn'
    have onLeft := asRequired_ofTree h h' l (fun r hr => alike r (List.mem_append_left _ hr))
      left left' hl hl'
    have onRight := asRequired_ofTree h h' r (fun r hr => alike r (List.mem_append_right _ hr))
      right right' hr hr'
    rw [asRequired, asRequired, onLeft, onRight]
  | .not t s, alike, n, n', hn, hn' => by
    rw [ofTree] at hn hn'
    obtain ⟨m, hm, hn⟩ := Result.bind_eq_ok.1 hn
    obtain ⟨m', hm', hn'⟩ := Result.bind_eq_ok.1 hn'
    cases hn
    cases hn'
    rw [asRequired, asRequired, asRequired_ofTree h h' t alike m m' hm hm']
  | .isNull t negated s, alike, n, n', hn, hn' => by
    rw [ofTree] at hn hn'
    obtain ⟨m, hm, hn⟩ := Result.bind_eq_ok.1 hn
    obtain ⟨m', hm', hn'⟩ := Result.bind_eq_ok.1 hn'
    cases hn
    cases hn'
    rw [asRequired, asRequired, asRequired_ofTree h h' t alike m m' hm hm']

theorem asRequired_ofTrees (h : ctx.IsOpen) (h' : ctx'.IsOpen) : ∀ (ts : List Tree),
    (∀ r ∈ Tree.taxonRefsOf ts, LookAlike lookup lookup' r) → ∀ (ns ns' : List Node),
      ofTrees ctx text lookup ts = .ok ns → ofTrees ctx' text lookup' ts = .ok ns' →
        ns.map asRequired = ns'.map asRequired
  | [], _, ns, ns', hns, hns' => by
    rw [ofTrees] at hns hns'
    cases hns
    cases hns'
    rfl
  | t :: ts, alike, ns, ns', hns, hns' => by
    rw [ofTrees] at hns hns'
    obtain ⟨m, hm, hns⟩ := Result.bind_eq_ok.1 hns
    obtain ⟨ms, hms, hns⟩ := Result.bind_eq_ok.1 hns
    obtain ⟨m', hm', hns'⟩ := Result.bind_eq_ok.1 hns'
    obtain ⟨ms', hms', hns'⟩ := Result.bind_eq_ok.1 hns'
    cases hns
    cases hns'
    have first := asRequired_ofTree h h' t (fun r hr => alike r (List.mem_append_left _ hr))
      m m' hm hm'
    have rest := asRequired_ofTrees h h' ts (fun r hr => alike r (List.mem_append_right _ hr))
      ms ms' hms hms'
    rw [List.map_cons, List.map_cons, first, rest]

end

end

/-- What two contexts have to agree on for a calculation to be read alike: a set of slugs that holds
all its references and the references of their calculations, but for those being read already. -/
structure Shares (ctx ctx' : Context) (expanding : List String) (known : String → Prop) : Prop where
  agree : ∀ s, known s → ctx.taxons.get? s = ctx'.taxons.get? s ∨
    s ∈ expanding ∧ (ctx.taxons.get? s).bind Taxon.calculation? ≠ none
  follows : ∀ s, known s → ∀ c, (ctx.taxons.get? s).bind Taxon.calculation? = some c →
    ∀ t, parse c = .ok t → ∀ r ∈ t.taxonRefs, known r.slug

theorem Shares.append {expanding : List String} {known : String → Prop}
    (k : Shares ctx ctx' expanding known) (more : List String) :
    Shares ctx ctx' (expanding ++ more) known :=
  ⟨fun s hs => (k.agree s hs).imp_right fun h => ⟨List.mem_append_left _ h.1, h.2⟩, k.follows⟩

/-- Two readings of a calculation, from wherever it is named, differ at most in which references are
optional. -/
theorem asRequired_ofCalculation (h : ctx.IsOpen) (h' : ctx'.IsOpen) {known : String → Prop}
    {depth depth' : Nat} {optional optional' : Bool} {expanding expanding' : List String}
    {formula : String} (k : Shares ctx ctx' expanding known)
    (own : ∀ t, parse formula = .ok t → ∀ r ∈ t.taxonRefs, known r.slug) {n n' : Node}
    (hn : ofCalculation ctx depth optional expanding formula = .ok n)
    (hn' : ofCalculation ctx' depth' optional' expanding' formula = .ok n') :
    n.asRequired = n'.asRequired := by
  induction depth generalizing depth' optional optional' expanding expanding' formula n n' with
  | zero =>
    rw [ofCalculation] at hn
    obtain ⟨_, _, hn⟩ := Result.bind_eq_ok.1 hn
    cases hn
  | succ depth ih =>
    cases depth' with
    | zero =>
      rw [ofCalculation] at hn'
      obtain ⟨_, _, hn'⟩ := Result.bind_eq_ok.1 hn'
      cases hn'
    | succ depth' =>
      rw [ofCalculation] at hn hn'
      obtain ⟨tree, read, hn⟩ := Result.bind_eq_ok.1 hn
      obtain ⟨tree', read', hn'⟩ := Result.bind_eq_ok.1 hn'
      cases read.symm.trans read'
      refine asRequired_ofTree h h' tree (fun r hr place m m' hm hm' => ?_) n n' hn hn'
      have knows := own tree read r hr
      have uses (same : ctx.taxons.get? r.slug = ctx'.taxons.get? r.slug) :
          (r.toUse ctx optional).asRequired = (r.toUse ctx' optional').asRequired := by
        unfold TaxonUse.asRequired TaxonRef.toUse
        rw [same]
      rcases lookupTaxon_eq_ok hm with ⟨raw, rfl⟩ | ⟨c, m, known, new, inner, rfl⟩
      · have same := (k.agree r.slug knows).resolve_right fun computed => computed.2 raw
        rcases lookupTaxon_eq_ok hm' with ⟨_, rfl⟩ | ⟨c', m', known', _⟩
        · rw [asRequired, asRequired, uses same]
        · rw [← same, raw] at known'
          cases known'
      · have same := (k.agree r.slug knows).resolve_right fun computed => new computed.1
        rcases lookupTaxon_eq_ok hm' with ⟨raw, rfl⟩ | ⟨c', m', known', _, inner', rfl⟩
        · rw [← same, known] at raw
          cases raw
        · rw [← same, known] at known'
          cases known'
          rw [asRequired, asRequired, uses same,
            ih (k.append _) (k.follows r.slug knows c known) inner inner']

end Node

end SemanticLayer.Formula
