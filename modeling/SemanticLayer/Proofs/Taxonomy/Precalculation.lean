import SemanticLayer.Proofs.Formula.Rereading
import SemanticLayer.Proofs.Taxonomy.Listing

/-!
# Facts of a whole taxonomy

The facts of a taxon are derived from formulas over other taxons, which may hold facts themselves.
None of these are looked at.

* `Taxon.withoutFacts`, `Formula.Node.withoutFacts`, `Resolver.withoutFacts`: taxons, and what is
  built of them, without the facts they hold;
* `Formula.Node.phase_withoutFacts`, `aggregation?_withoutFacts`, `canCompare_withoutFacts`,
  `ofCalculation_withoutFacts`: what is read of a formula, and how it is read;
* `Resolver.deriveFacts_withoutFacts`: the facts of a taxon do not depend on those stored already;
* `Taxonomy.precalculate`: facts are derived for all taxons, and then stored one after the other
  (`Taxonomy.run_precalculate_iff`);
* `Taxonomy.precalculate_idempotent`: they are stored for all taxons or for none, and the same ones
  if they are stored again.
-/

namespace SemanticLayer

/-! ## Maps with other values -/

namespace SortedMap

variable {κ α β : Type} [Ord κ]

theorem keys_mapValues {m : SortedMap κ α} {f : κ → α → β} : (m.mapValues f).keys = m.keys := by
  unfold keys mapValues
  rw [List.map_map]
  rfl

section
variable [Std.LawfulEqOrd κ] [DecidableEq κ] {m n : SortedMap κ α} {f : κ → α → β}

theorem get?_mapValues (k : κ) : (m.mapValues f).get? k = (m.get? k).map (f k) := by
  ext v
  simp only [get?_eq_some_iff, Option.map_eq_some_iff, mapValues, List.mem_map]
  constructor
  · rintro ⟨⟨l, w⟩, hw, same⟩
    cases same
    exact ⟨w, hw, rfl⟩
  · rintro ⟨w, hw, rfl⟩
    exact ⟨(k, w), hw, rfl⟩

variable [Std.TransOrd κ]

theorem filter_mapValues (p : κ → Bool) :
    (m.mapValues f).filter (fun k _ => p k) = (m.filter fun k _ => p k).mapValues f := by
  refine ext fun k v => ?_
  simp only [get?_filter, get?_mapValues, Option.map_eq_some_iff]
  constructor
  · rintro ⟨⟨w, hw, rfl⟩, hp⟩
    exact ⟨w, ⟨hw, hp⟩, rfl⟩
  · rintro ⟨w, ⟨hw, hp⟩, rfl⟩
    exact ⟨⟨w, hw, rfl⟩, hp⟩

theorem merge_mapValues : (m.mapValues f).merge (n.mapValues f) = (m.merge n).mapValues f := by
  refine ext fun k v => ?_
  rw [get?_merge, get?_mapValues, get?_mapValues, get?_mapValues, get?_merge, Option.map_or]

/-- What a step that may fail gives for a value stands under its key. -/
theorem mapValuesM_eq_ok {ε : Type} {step : κ → α → Except ε β} {n : SortedMap κ β}
    (h : m.mapValuesM step = .ok n) : n.keys = m.keys ∧
      ∀ k v, m.get? k = some v → ∃ w, step k v = .ok w ∧ n.get? k = some w := by
  obtain ⟨es, steps, rfl⟩ := Result.map_eq_ok.1 h
  have keys : m.toList.map (·.1) = es.map (·.1) := by
    rw [← List.forall₂_eq_eq_eq, List.forall₂_map_left_iff, List.forall₂_map_right_iff]
    refine (Result.mapM_eq_ok.1 steps).imp fun e e' stepped => ?_
    obtain ⟨_, _, rfl⟩ := Result.map_eq_ok.1 stepped
    rfl
  have increasing : KeysIncreasing es := by
    have sorted : (m.toList.map (·.1)).Pairwise fun a b => compare a b = .lt :=
      List.pairwise_map.2 m.increasing
    rw [keys] at sorted
    exact List.pairwise_map.1 sorted
  have all : (ofList es).toList = es := toList_ofList increasing
  refine ⟨?_, fun k v found => ?_⟩
  · unfold SortedMap.keys
    rw [all, keys]
  · obtain ⟨e, he, stepped⟩ := Result.mapM_mem_ok steps (get?_eq_some_iff.1 found)
    obtain ⟨w, hw, rfl⟩ := Result.map_eq_ok.1 stepped
    refine ⟨w, hw, get?_eq_some_iff.2 ?_⟩
    rw [all]
    exact he

end

section
variable {ε : Type} [Std.TransOrd κ] [Std.LawfulEqOrd κ] {step : κ → α → Except ε β}

theorem mapValuesM_mapValues {γ : Type} {m : SortedMap κ γ} {f : κ → γ → α} :
    (m.mapValues f).mapValuesM step = m.mapValuesM fun k v => step k (f k v) := by
  unfold mapValuesM mapValues
  refine congrArg (Except.map ofList) (Result.mapM_congr₂ ?_)
  rw [List.forall₂_map_left_iff, List.forall₂_same]
  exact fun _ _ => rfl

end

end SortedMap

/-! ## Taxons without facts -/

namespace Taxon

/-- The taxon as it is declared, without what is derived from it. -/
def withoutFacts (t : Taxon) : Taxon := { t with facts? := none }

def withFacts (t : Taxon) (f : FormulaFacts) : Taxon := { t with facts? := some f }

theorem withFacts_withFacts (t : Taxon) (f g : FormulaFacts) :
    (t.withFacts f).withFacts g = t.withFacts g := rfl

end Taxon

namespace TaxonMap

def withoutFacts (ts : TaxonMap) : TaxonMap := ts.mapValues fun _ t => t.withoutFacts

variable (ts us : TaxonMap)

theorem get?_withoutFacts (slug : String) :
    ts.withoutFacts.get? slug = (ts.get? slug).map Taxon.withoutFacts :=
  SortedMap.get?_mapValues slug

theorem keys_withoutFacts : ts.withoutFacts.keys = ts.keys := SortedMap.keys_mapValues

theorem values_withoutFacts : ts.withoutFacts.values = ts.values.map Taxon.withoutFacts := by
  unfold withoutFacts SortedMap.mapValues SortedMap.values
  rw [List.map_map, List.map_map]
  rfl

theorem contains_withoutFacts (slug : String) :
    ts.withoutFacts.contains slug = ts.contains slug := by
  rw [SortedMap.contains_eq_isSome, SortedMap.contains_eq_isSome, get?_withoutFacts,
    Option.isSome_map]

theorem merge_withoutFacts :
    ts.withoutFacts.merge us.withoutFacts = TaxonMap.withoutFacts (ts.merge us) :=
  SortedMap.merge_mapValues

theorem restrict_withoutFacts (slugs : NameSet) :
    ts.withoutFacts.restrict slugs = (ts.restrict slugs).withoutFacts :=
  SortedMap.filter_mapValues _

theorem erase_withoutFacts (slug : String) :
    ts.withoutFacts.erase slug = TaxonMap.withoutFacts (ts.erase slug) :=
  SortedMap.filter_mapValues _

/-- What is collected of taxons, if it is no matter of their facts. -/
theorem filterMap_withoutFacts {α : Type} {f : Taxon → Option α} (h : ∀ t, f t.withoutFacts = f t) :
    ts.withoutFacts.values.filterMap f = ts.values.filterMap f := by
  rw [values_withoutFacts, List.filterMap_map]
  exact List.filterMap_congr fun t _ => h t

end TaxonMap

def UsedTaxons.withoutFacts (u : UsedTaxons) : UsedTaxons :=
  ⟨u.required.withoutFacts, u.optional.withoutFacts⟩

namespace Formula

def TaxonUse.withoutFacts (u : TaxonUse) : TaxonUse :=
  { u with taxon? := u.taxon?.map Taxon.withoutFacts }

def Context.withoutFacts (ctx : Context) : Context := { ctx with taxons := ctx.taxons.withoutFacts }

theorem TaxonUse.isMetric_withoutFacts (u : TaxonUse) : u.withoutFacts.isMetric = u.isMetric := by
  unfold isMetric withoutFacts
  cases u.taxon? <;> rfl

namespace Node

mutual

/-- The node over taxons without facts. -/
def withoutFacts : Node → Node
  | .integer n p => .integer n p
  | .decimal x p => .decimal x p
  | .text s p => .text s p
  | .bool b p => .bool b p
  | .column s p => .column s p
  | .paren n p => .paren n.withoutFacts p
  | .taxon u p => .taxon u.withoutFacts p
  | .attribute u e p => .attribute u.withoutFacts e p
  | .computed u n p => .computed u.withoutFacts n.withoutFacts p
  | .binary op l r p => .binary op l.withoutFacts r.withoutFacts p
  | .not n p => .not n.withoutFacts p
  | .isNull n negated p => .isNull n.withoutFacts negated p
  | .call f args single p => .call f (eachWithoutFacts args) single p
  | .transition t n a label? p => .transition t n.withoutFacts a label? p
  | .root n p => .root n.withoutFacts p

def eachWithoutFacts : List Node → List Node
  | [] => []
  | n :: ns => n.withoutFacts :: eachWithoutFacts ns

end

theorem eachWithoutFacts_eq (ns : List Node) : eachWithoutFacts ns = ns.map withoutFacts := by
  induction ns with
  | nil => rw [eachWithoutFacts, List.map_nil]
  | cons n ns ih => rw [eachWithoutFacts, ih, List.map_cons]

theorem map_eachWithoutFacts {α : Type} {f g : Node → α} {ns : List Node}
    (h : ∀ n ∈ ns, f n.withoutFacts = g n) : (eachWithoutFacts ns).map f = ns.map g := by
  rw [eachWithoutFacts_eq, List.map_map]
  exact List.map_congr_left h

variable (ctx : Context)

/-! ### What a node reads -/

theorem isMissing_withoutFacts (n : Node) :
    n.withoutFacts.isMissing ctx.withoutFacts = n.isMissing ctx := by
  induction n with
  | integer | decimal | text | bool | column | modelAttribute => rfl
  | paren n _ ih | not n _ ih | isNull n _ _ ih | transition _ n _ _ _ ih | root n _ ih => exact ih
  | taxon u _ =>
    rw [withoutFacts, isMissing, isMissing, TaxonUse.withoutFacts, Option.isNone_map]
    rfl
  | computed u n _ ih =>
    rw [withoutFacts, isMissing, isMissing, ih]
    rfl
  | binary op l r _ hl hr => cases op <;> simp only [withoutFacts, isMissing, hl, hr]
  | call f args _ _ ih =>
    rw [withoutFacts, isMissing, isMissing, eachIsMissing_eq, eachIsMissing_eq,
      map_eachWithoutFacts ih]

theorem type_withoutFacts (n : Node) : n.withoutFacts.type ctx.withoutFacts = n.type ctx := by
  induction n with
  | integer | decimal | text | bool | column | modelAttribute => rfl
  | paren n _ ih | not n _ ih | computed _ n _ ih | transition _ n _ _ _ ih | root n _ ih => exact ih
  | taxon u _ =>
    rw [withoutFacts, type, type, TaxonUse.withoutFacts]
    cases u.taxon? <;> rfl
  | isNull n _ _ ih => rw [withoutFacts, type, type, ih]
  | binary op l r _ hl hr =>
    rw [withoutFacts, type, type, isMissing_withoutFacts, isMissing_withoutFacts, hl, hr]
  | call f args _ _ ih =>
    rw [withoutFacts, type, type, typeEach_eq, typeEach_eq, map_eachWithoutFacts ih]

theorem used_withoutFacts (n : Node) : n.withoutFacts.used ctx.withoutFacts = n.used ctx := by
  induction n with
  | integer | decimal | text | bool | column | modelAttribute => rfl
  | paren n _ ih | not n _ ih | isNull n _ _ ih | transition _ n _ _ _ ih | root n _ ih => exact ih
  | taxon u _ =>
    rw [withoutFacts, used, used, TaxonUse.withoutFacts, Option.isSome_map]
  | computed u n _ ih =>
    rw [withoutFacts, used, used, ih]
    rfl
  | binary op l r _ hl hr =>
    rw [withoutFacts, used, used, isMissing_withoutFacts, isMissing_withoutFacts, hl, hr]
  | call f args _ _ ih =>
    rw [withoutFacts, used, used, usedEach_eq, usedEach_eq, map_eachWithoutFacts ih]

theorem phase_withoutFacts (n : Node) : n.withoutFacts.phase ctx.withoutFacts = n.phase ctx := by
  induction n with
  | integer | decimal | text | bool | column | transition | root => rfl
  | paren n _ ih | not n _ ih | computed _ n _ ih | isNull n _ _ ih => exact ih
  | taxon u _ | modelAttribute u _ _ =>
    rw [withoutFacts, phase, phase, usePhase, usePhase, TaxonUse.isMetric_withoutFacts]
    rfl
  | binary op l r _ hl hr =>
    rw [withoutFacts, phase, phase, isPostOperation, isPostOperation, isPostValue, isPostValue,
      isPostValue, isPostValue]
    simp only [isMissing_withoutFacts, type_withoutFacts, used_withoutFacts, hl, hr]
  | call f args _ _ ih =>
    rw [withoutFacts, phase, phase, phaseEach_eq, phaseEach_eq, map_eachWithoutFacts ih]

/-! ### Aggregation and comparison -/

theorem useAggregation_withoutFacts (u : TaxonUse) :
    useAggregation u.withoutFacts = useAggregation u := by
  unfold useAggregation TaxonUse.withoutFacts
  cases u.taxon? <;> rfl

theorem aggregationEach_eq (ns : List Node) :
    aggregationEach ctx ns = ns.map (aggregation? ctx) := by
  induction ns with
  | nil => rw [aggregationEach, List.map_nil]
  | cons n ns ih => rw [aggregationEach, ih, List.map_cons]

theorem aggregation?_withoutFacts (n : Node) :
    n.withoutFacts.aggregation? ctx.withoutFacts = n.aggregation? ctx := by
  induction n with
  | integer | decimal | text | bool | column | not | isNull => rfl
  | paren n _ ih | computed _ n _ ih | root n _ ih => exact ih
  | taxon u _ | modelAttribute u _ _ =>
    exact congrArg some (useAggregation_withoutFacts u)
  | binary op l r _ hl hr => rw [withoutFacts, aggregation?, aggregation?, hl, hr]
  | call f args _ _ ih =>
    rw [withoutFacts, aggregation?, aggregation?, aggregationEach_eq, aggregationEach_eq,
      map_eachWithoutFacts ih]
    rfl
  | transition t n _ _ _ ih =>
    cases t with
    | dimension => exact ih
    | aggregation | postAggregation => rfl

theorem anyContainsTaxon_eq (ns : List Node) :
    anyContainsTaxon ns = (ns.map containsTaxon).any id := by
  induction ns with
  | nil => rw [anyContainsTaxon, List.map_nil, List.any_nil]
  | cons n ns ih => rw [anyContainsTaxon, ih, List.map_cons, List.any_cons, id]

theorem anyCanCompare_eq (ns : List Node) : anyCanCompare ns = (ns.map canCompare).any id := by
  induction ns with
  | nil => rw [anyCanCompare, List.map_nil, List.any_nil]
  | cons n ns ih => rw [anyCanCompare, ih, List.map_cons, List.any_cons, id]

theorem containsTaxon_withoutFacts (n : Node) : n.withoutFacts.containsTaxon = n.containsTaxon := by
  induction n with
  | integer | decimal | text | bool | column | modelAttribute | taxon | computed => rfl
  | paren n _ ih | not n _ ih | isNull n _ _ ih | transition _ n _ _ _ ih | root n _ ih => exact ih
  | binary op l r _ hl hr => rw [withoutFacts, containsTaxon, containsTaxon, hl, hr]
  | call f args _ _ ih =>
    rw [withoutFacts, containsTaxon, containsTaxon, anyContainsTaxon_eq, anyContainsTaxon_eq,
      map_eachWithoutFacts ih]

theorem canCompare_withoutFacts (n : Node) : n.withoutFacts.canCompare = n.canCompare := by
  induction n with
  | integer | decimal | text | bool | column | modelAttribute | taxon => rfl
  | paren n _ ih | not n _ ih | isNull n _ _ ih | computed _ n _ ih | transition _ n _ _ _ ih
  | root n _ ih => exact ih
  | binary op l r _ hl hr =>
    rw [withoutFacts, canCompare, canCompare, hl, hr, containsTaxon_withoutFacts]
  | call f args _ _ ih =>
    rw [withoutFacts, canCompare, canCompare, anyCanCompare_eq, anyCanCompare_eq,
      map_eachWithoutFacts ih]

/-! ### Reading -/

theorem ofCall_withoutFacts (f : Function) (args : List Node) (place : Location) :
    ofCall ctx.withoutFacts f (args.map withoutFacts) place =
      (ofCall ctx f args place).withoutFacts := by
  have present : (args.map withoutFacts).filter (fun n => !n.isMissing ctx.withoutFacts) =
      (args.filter fun n => !n.isMissing ctx).map withoutFacts := by
    rw [List.filter_map]
    refine congrArg _ (List.filter_congr fun n _ => ?_)
    rw [Function.comp_apply, isMissing_withoutFacts]
  unfold ofCall
  rw [withoutFacts, eachWithoutFacts_eq, apply_ite (List.map withoutFacts), present]
  rfl

section
variable {ctx} {text : String} {lookup lookup' : TaxonRef → Location → Result Node}

mutual

theorem ofTree_withoutFacts
    (found : ∀ r place, lookup' r place = (lookup r place).map withoutFacts) : (t : Tree) →
    ofTree ctx.withoutFacts text lookup' t = (ofTree ctx text lookup t).map withoutFacts
  | .integer .. => rfl
  | .float .. => rfl
  | .bool .. => rfl
  | .singleQuoted .. => rfl
  | .doubleQuoted t s => by
    rw [ofTree, ofTree, show ctx.withoutFacts.setting = ctx.setting from rfl]
    cases ctx.setting <;> rfl
  | .taxon r s => found r _
  | .call name args s => by
    rw [ofTree, ofTree]
    cases Function.ofName? name with
    | none => rfl
    | some f =>
      dsimp only
      rw [ofTrees_withoutFacts found args]
      cases ofTrees ctx text lookup args with
      | error e => rfl
      | ok ns => exact congrArg Except.ok (ofCall_withoutFacts ctx f ns _)
  | .paren t s => by
    rw [ofTree, ofTree, ofTree_withoutFacts found t]
    cases ofTree ctx text lookup t <;> rfl
  | .binary op l r s => by
    rw [ofTree, ofTree, ofTree_withoutFacts found l, ofTree_withoutFacts found r]
    cases ofTree ctx text lookup l <;> cases ofTree ctx text lookup r <;> rfl
  | .not t s => by
    rw [ofTree, ofTree, ofTree_withoutFacts found t]
    cases ofTree ctx text lookup t <;> rfl
  | .isNull t negated s => by
    rw [ofTree, ofTree, ofTree_withoutFacts found t]
    cases ofTree ctx text lookup t <;> rfl

theorem ofTrees_withoutFacts
    (found : ∀ r place, lookup' r place = (lookup r place).map withoutFacts) : (ts : List Tree) →
    ofTrees ctx.withoutFacts text lookup' ts =
      (ofTrees ctx text lookup ts).map (List.map withoutFacts)
  | [] => rfl
  | t :: ts => by
    rw [ofTrees, ofTrees, ofTree_withoutFacts found t, ofTrees_withoutFacts found ts]
    cases ofTree ctx text lookup t <;> cases ofTrees ctx text lookup ts <;> rfl

end

end

theorem toUse_withoutFacts (r : TaxonRef) (optional : Bool) :
    r.toUse ctx.withoutFacts optional = (r.toUse ctx optional).withoutFacts := by
  unfold TaxonRef.toUse TaxonUse.withoutFacts Context.withoutFacts
  rw [TaxonMap.get?_withoutFacts]

theorem lookupTaxon_withoutFacts {optional : Bool} {expanding : List String}
    {expand expand' : Bool → List String → String → Result Node}
    (expands : ∀ optional expanding text,
      expand' optional expanding text = (expand optional expanding text).map withoutFacts)
    (r : TaxonRef) (place : Location) :
    lookupTaxon ctx.withoutFacts optional expanding expand' r place =
      (lookupTaxon ctx optional expanding expand r place).map withoutFacts := by
  unfold lookupTaxon
  dsimp only
  rw [toUse_withoutFacts]
  generalize r.toUse ctx optional = use
  have calculation : use.withoutFacts.taxon?.bind Taxon.calculation? =
      use.taxon?.bind Taxon.calculation? := by
    rw [TaxonUse.withoutFacts]
    cases use.taxon? <;> rfl
  rw [calculation]
  cases use.taxon?.bind Taxon.calculation? with
  | none => rfl
  | some c =>
    change (if decide (use.slug = ctx.slug) || expanding.contains use.slug then _
      else (expand' use.isOptional (expanding ++ [use.slug]) c).map
        (computed use.withoutFacts · place)) = _
    dsimp only
    rw [expands, apply_ite (Except.map withoutFacts)]
    congr 1
    cases expand use.isOptional (expanding ++ [use.slug]) c <;> rfl

theorem ofCalculation_withoutFacts (levels : Nat) (optional : Bool) (expanding : List String)
    (text : String) :
    ofCalculation ctx.withoutFacts levels optional expanding text =
      (ofCalculation ctx levels optional expanding text).map withoutFacts := by
  induction levels generalizing optional expanding text with
  | zero =>
    rw [ofCalculation, ofCalculation]
    cases parse text <;> rfl
  | succ levels ih =>
    rw [ofCalculation, ofCalculation]
    cases parse text with
    | error e => rfl
    | ok t => exact ofTree_withoutFacts (lookupTaxon_withoutFacts ctx ih) t

end Node

end Formula

/-! ## Facts of one taxon -/

theorem Taxon.rawSlugs_withoutFacts (ts : TaxonMap) : rawSlugs ts.withoutFacts = rawSlugs ts := by
  unfold rawSlugs
  rw [TaxonMap.values_withoutFacts, List.filter_map, List.map_map]
  rfl

/-- The facts of a taxon are derived from the taxons it uses, whatever facts these hold. -/
theorem Taxon.deriveFacts_withoutFacts (t : Taxon) (used : UsedTaxons) :
    t.withoutFacts.deriveFacts used.withoutFacts = t.deriveFacts used := by
  have others : used.withoutFacts.erase t.slug = (used.erase t.slug).withoutFacts := by
    unfold UsedTaxons.withoutFacts UsedTaxons.erase
    rw [TaxonMap.erase_withoutFacts, TaxonMap.erase_withoutFacts]
  have all (u : UsedTaxons) : u.withoutFacts.all = TaxonMap.withoutFacts u.all :=
    TaxonMap.merge_withoutFacts ..
  unfold deriveFacts
  rw [show t.withoutFacts.slug = t.slug from rfl, others]
  generalize used.erase t.slug = used
  dsimp only
  rw [all, show used.withoutFacts.required = used.required.withoutFacts from rfl,
    show used.withoutFacts.optional = used.optional.withoutFacts from rfl, rawSlugs_withoutFacts,
    rawSlugs_withoutFacts, TaxonMap.keys_withoutFacts,
    show t.withoutFacts.calculation? = t.calculation? from rfl]
  cases t.calculation? with
  | none => rfl
  | some c =>
    dsimp only
    have read : Formula.Node.ofFormula (.ofTaxons (TaxonMap.withoutFacts used.all)) none c =
        (Formula.Node.ofFormula (.ofTaxons used.all) none c).map Formula.Node.withoutFacts :=
      Formula.Node.ofCalculation_withoutFacts (.ofTaxons used.all) _ false [] c
    rw [read]
    cases Formula.Node.ofFormula (.ofTaxons used.all) none c with
    | error e => rfl
    | ok n =>
      refine congrArg Except.ok ?_
      rw [← Formula.Node.phase_withoutFacts (.ofTaxons used.all) n,
        ← Formula.Node.aggregation?_withoutFacts (.ofTaxons used.all) n,
        ← Formula.Node.canCompare_withoutFacts n]
      rfl

/-! ## Resolution without facts -/

namespace Resolver

/-- The resolver over taxons without facts. -/
def withoutFacts (r : Resolver) : Resolver :=
  { r with taxons := r.taxons.withoutFacts, temporary := r.temporary.withoutFacts }

variable (r : Resolver)

theorem load_withoutFacts (slugs : NameSet) (mustLoadAll : Bool) :
    r.withoutFacts.load slugs mustLoadAll =
      (r.load slugs mustLoadAll).map TaxonMap.withoutFacts := by
  unfold load
  dsimp only [withoutFacts]
  simp only [TaxonMap.restrict_withoutFacts, TaxonMap.contains_withoutFacts,
    TaxonMap.merge_withoutFacts]
  split <;> rfl

theorem loadRound_withoutFacts (slugs : NameSet) (mustLoadAll : Bool) :
    r.withoutFacts.loadRound false slugs mustLoadAll =
      (r.loadRound false slugs mustLoadAll).map TaxonMap.withoutFacts := by
  unfold loadRound
  split
  · rfl
  · rw [load_withoutFacts]
    cases r.load slugs mustLoadAll <;> rfl

theorem references_withoutFacts (dataSources? : Option NameSet) (ts : TaxonMap) :
    references dataSources? ts.withoutFacts = references dataSources? ts := by
  unfold references
  rw [TaxonMap.filterMap_withoutFacts ts fun _ => rfl]

theorem nextSlugs_withoutFacts (dataSources? : Option NameSet) (loaded : UsedTaxons)
    (seen : Formula.UsedSlugs) :
    nextSlugs dataSources? loaded.withoutFacts seen = nextSlugs dataSources? loaded seen := by
  unfold nextSlugs
  rw [UsedTaxons.withoutFacts, references_withoutFacts, references_withoutFacts]

theorem merge_withoutFacts (u v : UsedTaxons) :
    u.withoutFacts.merge v.withoutFacts = (u.merge v).withoutFacts := by
  unfold UsedTaxons.withoutFacts UsedTaxons.merge
  rw [TaxonMap.merge_withoutFacts, TaxonMap.merge_withoutFacts]

theorem resolveRounds_withoutFacts (dataSources? : Option NameSet) (rounds : Nat)
    (used : UsedTaxons) (seen slugs : Formula.UsedSlugs) :
    r.withoutFacts.resolveRounds dataSources? false rounds used.withoutFacts seen slugs =
      (r.resolveRounds dataSources? false rounds used seen slugs).map UsedTaxons.withoutFacts := by
  induction rounds generalizing used seen slugs with
  | zero => rfl
  | succ rounds ih =>
    rw [resolveRounds, resolveRounds]
    split
    · rfl
    rw [loadRound_withoutFacts, loadRound_withoutFacts]
    cases r.loadRound false slugs.required true with
    | error e => rfl
    | ok required =>
      cases r.loadRound false slugs.optional false with
      | error e => rfl
      | ok optional =>
        change (nextSlugs dataSources? (UsedTaxons.mk required optional).withoutFacts seen >>= _) =
          Except.map _ (nextSlugs dataSources? ⟨required, optional⟩ seen >>= _)
        rw [nextSlugs_withoutFacts]
        cases nextSlugs dataSources? ⟨required, optional⟩ seen with
        | error e => rfl
        | ok next =>
          change r.withoutFacts.resolveRounds dataSources? false rounds
            (used.withoutFacts.merge (UsedTaxons.mk required optional).withoutFacts) _ _ = _
          rw [merge_withoutFacts, ih]
          rfl

theorem calculationLength_withoutFacts (ts : TaxonMap) :
    calculationLength ts.withoutFacts = calculationLength ts := by
  unfold calculationLength
  rw [TaxonMap.filterMap_withoutFacts ts fun _ => rfl]

theorem resolveWith_withoutFacts (dataSources? : Option NameSet) (slugs : NameSet) :
    r.withoutFacts.resolveWith dataSources? false slugs =
      (r.resolveWith dataSources? false slugs).map UsedTaxons.withoutFacts := by
  have limit : r.withoutFacts.roundLimit = r.roundLimit := by
    unfold roundLimit
    rw [withoutFacts, calculationLength_withoutFacts, calculationLength_withoutFacts]
  unfold resolveWith
  rw [limit]
  exact resolveRounds_withoutFacts r dataSources? r.roundLimit .empty .empty ⟨slugs, .empty⟩

theorem usedInDefinition_withoutFacts (t : Taxon) :
    r.withoutFacts.usedInDefinition t.withoutFacts =
      (r.usedInDefinition t).map UsedTaxons.withoutFacts := by
  unfold usedInDefinition
  rw [show t.withoutFacts.definition = t.definition from rfl]
  cases t.definition with
  | computed c =>
    dsimp only
    cases Formula.usedSlugs c none with
    | error e => rfl
    | ok named =>
      change (r.withoutFacts.resolveWith none false named.required >>= _) =
        Except.map _ (r.resolveWith none false named.required >>= _)
      rw [resolveWith_withoutFacts]
      cases r.resolveWith none false named.required with
      | error e => rfl
      | ok required =>
        change (r.withoutFacts.resolveWith none false named.optional >>= _) =
          Except.map _ (r.resolveWith none false named.optional >>= _)
        rw [resolveWith_withoutFacts]
        cases r.resolveWith none false named.optional with
        | error e => rfl
        | ok optional =>
          refine congrArg Except.ok ?_
          unfold UsedTaxons.withOptional UsedTaxons.withoutFacts
          dsimp only
          rw [TaxonMap.merge_withoutFacts, TaxonMap.merge_withoutFacts]
  | raw a =>
    dsimp only
    split
    · rfl
    · rw [load_withoutFacts]
      cases r.load a.usedSlugs true <;> rfl

theorem deriveFacts_withoutFacts (t : Taxon) :
    r.withoutFacts.deriveFacts t.withoutFacts = r.deriveFacts t := by
  unfold deriveFacts
  rw [usedInDefinition_withoutFacts]
  cases r.usedInDefinition t with
  | error e => rfl
  | ok used => exact t.deriveFacts_withoutFacts used

/-! ## Facts of all taxons -/

/-- A taxon with its facts. -/
def derive (t : Taxon) : Result Taxon := do
  return t.withFacts (← r.deriveFacts t)

variable {ts us : TaxonMap}

theorem precalculate_eq (ts : TaxonMap) :
    precalculate ts = ts.mapValuesM fun _ t => (ofTaxons ts).derive t := rfl

theorem derive_withoutFacts (t : Taxon) : r.withoutFacts.derive t.withoutFacts = r.derive t := by
  unfold derive
  rw [deriveFacts_withoutFacts]
  rfl

theorem derive_eq_ok {t u : Taxon} :
    r.derive t = .ok u ↔ ∃ f, r.deriveFacts t = .ok f ∧ u = t.withFacts f := by
  unfold derive
  rw [Result.bind_eq_ok]
  refine exists_congr fun f => and_congr_right fun _ => ?_
  constructor
  · intro h
    exact (Except.ok.inj h).symm
  · rintro rfl
    rfl

theorem precalculate_withoutFacts (ts : TaxonMap) :
    precalculate ts.withoutFacts = precalculate ts := by
  rw [precalculate_eq, precalculate_eq]
  conv => lhs; arg 1; unfold TaxonMap.withoutFacts
  rw [SortedMap.mapValuesM_mapValues]
  congr 1
  funext _ t
  exact derive_withoutFacts (ofTaxons ts) t

/-- The facts of all taxons are stored with them, and nothing else changes. -/
theorem get?_precalculate (h : precalculate ts = .ok us) {slug : String} {t : Taxon}
    (found : ts.get? slug = some t) : ∃ f, (ofTaxons ts).deriveFacts t = .ok f ∧
      us.get? slug = some (t.withFacts f) := by
  obtain ⟨u, hu, stored⟩ := (SortedMap.mapValuesM_eq_ok h).2 slug t found
  obtain ⟨f, hf, rfl⟩ := (derive_eq_ok _).1 hu
  exact ⟨f, hf, stored⟩

theorem get?_precalculate_of_none (h : precalculate ts = .ok us) {slug : String}
    (absent : ts.get? slug = none) : us.get? slug = none := by
  rw [SortedMap.get?_eq_none_iff, (SortedMap.mapValuesM_eq_ok h).1]
  exact SortedMap.get?_eq_none_iff.1 absent

theorem withoutFacts_precalculate (h : precalculate ts = .ok us) :
    us.withoutFacts = ts.withoutFacts := by
  refine SortedMap.ext fun slug t => ?_
  rw [TaxonMap.get?_withoutFacts, TaxonMap.get?_withoutFacts]
  cases found : ts.get? slug with
  | some t =>
    obtain ⟨f, _, stored⟩ := get?_precalculate h found
    rw [stored]
    rfl
  | none => rw [get?_precalculate_of_none h found]

theorem precalculate_precalculate (h : precalculate ts = .ok us) : precalculate us = .ok us := by
  rw [← precalculate_withoutFacts, withoutFacts_precalculate h, precalculate_withoutFacts, h]

end Resolver

/-! ## A taxonomy that is given its facts -/

/-- The taxons of a company, each under its slug. -/
@[ext]
structure Taxonomy where
  taxons : TaxonMap
  listed : taxons.IsListed

namespace Taxonomy

/-- Taxons by their slugs; of several with one slug the last stays. -/
def of (ts : List Taxon) : Taxonomy where
  taxons := Taxon.mapOf ts
  listed := by
    rintro ⟨slug, t⟩ he
    obtain ⟨_, _, same⟩ := List.mem_map.1 (SortedMap.mem_of_mem_ofList he)
    cases same
    rfl

/-- A computation on a taxonomy that may fail; what it has stored by then stays. -/
abbrev Update := ExceptT Error (StateM Taxonomy)

/-- Stores facts with the taxon under a slug, if there is one. -/
def storeFacts (s : Taxonomy) (slug : String) (f : FormulaFacts) : Taxonomy where
  taxons := s.taxons.mapValues fun k t => if k = slug then t.withFacts f else t
  listed := by
    intro e he
    obtain ⟨⟨k, t⟩, ht, rfl⟩ := List.mem_map.1 he
    have own : t.slug = k := s.listed _ ht
    dsimp only
    split <;> exact own

/-- The facts of all taxons with their slugs. -/
def derived (s : Taxonomy) : Result (List (String × FormulaFacts)) :=
  s.taxons.values.mapM fun t => ((Resolver.ofTaxons s.taxons).deriveFacts t).map (t.slug, ·)

/-- Derives the facts of all taxons, and then stores them one after the other. -/
def precalculate : Update Unit := do
  let derived ← (← get).derived
  derived.forM fun e => modify fun s => s.storeFacts e.1 e.2

/-! ### Storing -/

def storeAll (s : Taxonomy) (fs : List (String × FormulaFacts)) : Taxonomy :=
  fs.foldl (fun s e => s.storeFacts e.1 e.2) s

theorem run_forM_storeFacts (fs : List (String × FormulaFacts)) (s : Taxonomy) :
    (fs.forM fun e => modify fun s => s.storeFacts e.1 e.2 : Update Unit).run s =
      (.ok (), s.storeAll fs) := by
  induction fs generalizing s with
  | nil => rfl
  | cons e fs ih => exact ih (s.storeFacts e.1 e.2)

theorem run_precalculate (s : Taxonomy) :
    precalculate.run s = match s.derived with
      | .ok fs => (.ok (), s.storeAll fs)
      | .error e => (.error e, s) := by
  change (liftM s.derived >>= fun fs : List (String × FormulaFacts) => (fs.forM fun e =>
    modify fun s => s.storeFacts e.1 e.2 : Update Unit)).run s = _
  cases s.derived with
  | error e => rfl
  | ok fs => exact run_forM_storeFacts fs s

/-- What is stored under each slug, if it is the same whenever it is. -/
theorem taxons_storeAll {facts : String → FormulaFacts} {fs : List (String × FormulaFacts)}
    (h : ∀ e ∈ fs, e.2 = facts e.1) (s : Taxonomy) :
    (s.storeAll fs).taxons = s.taxons.mapValues fun k t =>
      if k ∈ fs.map (·.1) then t.withFacts (facts k) else t := by
  induction fs generalizing s with
  | nil =>
    refine SortedMap.ext fun k t => ?_
    rw [SortedMap.get?_mapValues]
    simp [storeAll]
  | cons e fs ih =>
    obtain ⟨he, hfs⟩ := List.forall_mem_cons.1 h
    change ((s.storeFacts e.1 e.2).storeAll fs).taxons = _
    refine SortedMap.ext fun k u => ?_
    rw [ih hfs, SortedMap.get?_mapValues, SortedMap.get?_mapValues, storeFacts,
      SortedMap.get?_mapValues, Option.map_map]
    refine iff_of_eq (congrArg (· = some u) (Option.map_congr fun t _ => ?_))
    -- A later entry for the same slug stores what this one does.
    by_cases own : k = e.1
    · subst own
      by_cases later : e.1 ∈ fs.map (·.1)
      · rw [Function.comp_apply, if_pos later, if_pos rfl, List.map_cons,
          if_pos (List.mem_cons_self ..), Taxon.withFacts_withFacts]
      · rw [Function.comp_apply, if_neg later, if_pos rfl, List.map_cons,
          if_pos (List.mem_cons_self ..), he]
    · rw [Function.comp_apply, if_neg own, List.map_cons]
      exact if_congr (List.mem_cons.trans (or_iff_right own)).symm rfl rfl

/-! ### Deriving -/

variable {s : Taxonomy}

theorem derived_eq (s : Taxonomy) : s.derived = s.taxons.toList.mapM fun x =>
    ((Resolver.ofTaxons s.taxons).deriveFacts x.2).map (x.2.slug, ·) := by
  refine Result.mapM_congr₂ ?_
  unfold SortedMap.values
  rw [List.forall₂_map_left_iff, List.forall₂_same]
  exact fun _ _ => rfl

theorem derived_eq_error {e : Error} (h : s.derived = .error e) :
    Resolver.precalculate s.taxons = .error e := by
  rw [derived_eq, Result.mapM_eq_error] at h
  obtain ⟨before, x, after, parts, fine, failed⟩ := h
  rw [Resolver.precalculate_eq, SortedMap.mapValuesM, Result.map_eq_error, Result.mapM_eq_error]
  refine ⟨before, x, after, parts, fun y hy => ?_, ?_⟩
  · obtain ⟨f, hf⟩ := Result.exists_map_ok.1 (fine y hy)
    exact Result.exists_map_ok.2 ⟨_, (Resolver.derive_eq_ok _).2 ⟨f, hf, rfl⟩⟩
  · unfold Resolver.derive
    rw [Result.map_eq_error, Result.map_eq_error.1 failed]
    rfl

theorem derived_eq_ok {fs : List (String × FormulaFacts)} (h : s.derived = .ok fs) :
    Resolver.precalculate s.taxons = .ok (s.storeAll fs).taxons := by
  rw [derived_eq] at h
  have known {slug : String} {t : Taxon} (found : s.taxons.get? slug = some t) :
      ∃ f, (Resolver.ofTaxons s.taxons).deriveFacts t = .ok f ∧ (slug, f) ∈ fs := by
    obtain ⟨e, he, derives⟩ := Result.mapM_mem_ok h (SortedMap.get?_eq_some_iff.1 found)
    obtain ⟨f, hf, rfl⟩ := Result.map_eq_ok.1 derives
    have own : t.slug = slug := s.listed.slug_eq found
    exact ⟨f, hf, own ▸ he⟩
  let facts (slug : String) : FormulaFacts :=
    ((s.taxons.get? slug).bind fun t =>
      ((Resolver.ofTaxons s.taxons).deriveFacts t).toOption).getD .none
  have determined : ∀ e ∈ fs, e.2 = facts e.1 := by
    intro e he
    obtain ⟨⟨slug, t⟩, hx, derives⟩ := Result.mapM_ok_mem h he
    obtain ⟨f, hf, rfl⟩ := Result.map_eq_ok.1 derives
    have found : s.taxons.get? t.slug = some t := by
      rw [s.listed _ hx]
      exact SortedMap.get?_eq_some_iff.2 hx
    dsimp only [facts]
    rw [found, Option.bind_some, hf]
    rfl
  obtain ⟨us, stored⟩ : ∃ us, Resolver.precalculate s.taxons = .ok us := by
    rw [Resolver.precalculate_eq, SortedMap.mapValuesM, Result.exists_map_ok,
      Result.exists_mapM_iff]
    intro x hx
    obtain ⟨f, hf, _⟩ := known (SortedMap.get?_eq_some_iff.2 hx)
    exact Result.exists_map_ok.2 ⟨_, (Resolver.derive_eq_ok _).2 ⟨f, hf, rfl⟩⟩
  rw [stored, taxons_storeAll determined]
  refine congrArg Except.ok (SortedMap.ext fun slug u => ?_)
  rw [SortedMap.get?_mapValues]
  cases found : s.taxons.get? slug with
  | none =>
    rw [Resolver.get?_precalculate_of_none stored found]
    rfl
  | some t =>
    obtain ⟨f, hf, here⟩ := Resolver.get?_precalculate stored found
    obtain ⟨f', hf', among⟩ := known found
    cases hf.symm.trans hf'
    rw [here, Option.map_some, if_pos (List.mem_map_of_mem among), ← determined _ among]

/-- The taxonomy holds the taxons with their facts, unless these cannot be derived: then it is as
before. -/
theorem run_precalculate_iff {s s' : Taxonomy} :
    (precalculate.run s = (.ok (), s') ↔ Resolver.precalculate s.taxons = .ok s'.taxons) ∧
    ∀ e, precalculate.run s = (.error e, s') ↔
      Resolver.precalculate s.taxons = .error e ∧ s' = s := by
  rw [run_precalculate]
  cases h : s.derived with
  | error e =>
    rw [derived_eq_error h]
    refine ⟨iff_of_false nofun nofun, fun e' => ?_⟩
    constructor
    · rintro ⟨⟩
      exact ⟨rfl, rfl⟩
    · rintro ⟨⟨⟩, rfl⟩
      rfl
  | ok fs =>
    rw [derived_eq_ok h]
    refine ⟨?_, fun e => iff_of_false nofun fun h => nomatch h.1⟩
    constructor
    · rintro ⟨⟩
      rfl
    · intro same
      have final : s.storeAll fs = s' := Taxonomy.ext (Except.ok.inj same)
      exact congrArg (Prod.mk (Except.ok ())) final

/-- Facts are given to all taxons or to none, and the same ones if it is done again.  Those that are
stored already play no part. -/
theorem precalculate_idempotent (s : Taxonomy) :
    (∀ e s', precalculate.run s = (.error e, s') →
      s' = s ∧ Resolver.precalculate s.taxons = .error e) ∧
    (∀ s', precalculate.run s = (.ok (), s') →
      Resolver.precalculate s.taxons = .ok s'.taxons ∧ s'.taxons.keys = s.taxons.keys ∧
      (∀ slug t, s.taxons.get? slug = some t →
        ∃ f, (Resolver.ofTaxons s.taxons).deriveFacts t = .ok f ∧
          s'.taxons.get? slug = some { t with facts? := some f }) ∧
      precalculate.run s' = (.ok (), s')) ∧
    ∀ other : Taxonomy, other.taxons.withoutFacts = s.taxons.withoutFacts →
      (∀ t u : Taxon, t.withoutFacts = u.withoutFacts →
        (Resolver.ofTaxons other.taxons).deriveFacts t =
          (Resolver.ofTaxons s.taxons).deriveFacts u) ∧
      (∀ e s', precalculate.run s = (.error e, s') → precalculate.run other = (.error e, other)) ∧
      ∀ s', precalculate.run s = (.ok (), s') → precalculate.run other = (.ok (), s') := by
  refine ⟨fun e s' fails => ((run_precalculate_iff.2 e).1 fails).symm, fun s' gives => ?succeeds,
    fun other same => ⟨fun t u alike => ?facts, fun e s' fails => ?fails, fun s' gives => ?gives⟩⟩
  case succeeds =>
    have stored := run_precalculate_iff.1.1 gives
    refine ⟨stored, (SortedMap.mapValuesM_eq_ok stored).1,
      fun slug t found => Resolver.get?_precalculate stored found, ?_⟩
    exact run_precalculate_iff.1.2 (Resolver.precalculate_precalculate stored)
  case facts =>
    have resolver : (Resolver.ofTaxons other.taxons).withoutFacts =
        (Resolver.ofTaxons s.taxons).withoutFacts := by
      unfold Resolver.withoutFacts Resolver.ofTaxons
      rw [same]
    rw [← Resolver.deriveFacts_withoutFacts, alike, resolver, Resolver.deriveFacts_withoutFacts]
  case fails =>
    refine (run_precalculate_iff.2 e).2 ⟨?_, rfl⟩
    rw [← Resolver.precalculate_withoutFacts, same, Resolver.precalculate_withoutFacts]
    exact ((run_precalculate_iff.2 e).1 fails).1
  case gives =>
    refine run_precalculate_iff.1.2 ?_
    rw [← Resolver.precalculate_withoutFacts, same, Resolver.precalculate_withoutFacts]
    exact run_precalculate_iff.1.1 gives

/-! ### A total with facts of another time -/

/-- A total of a cost, with some facts. -/
def withTotal (calculation : String) (facts? : Option FormulaFacts) : Taxonomy :=
  .of [⟨"cost", "cost", none, .metric, .raw .sum, .numeric, "shop", none, none, none⟩,
    { Taxon.ofFormula "total" calculation .metric "shop" with facts? }]

theorem precalculate_idempotent_total :
    let s := withTotal "cost + cost" none
    let stale := withTotal "cost + cost" (some .none)
    let lacking := withTotal "cost + fee" none
    (∃ s' t, precalculate.run s = (.ok (), s') ∧ s'.taxons.get? "total" = some t ∧
      t.facts?.isSome = true ∧ precalculate.run s' = (.ok (), s') ∧
      precalculate.run stale = (.ok (), s')) ∧
    ∃ e, precalculate.run lacking = (.error e, lacking) := by
  intro s stale lacking
  obtain ⟨⟨⟩, done, _⟩ : ∃ u, (precalculate.run s).1 = .ok u ∧ _ :=
    Result.ok_of_any (f := fun _ => true) (by decide +kernel)
  obtain ⟨_, succeeds, independent⟩ := precalculate_idempotent s
  have gives : precalculate.run s = (.ok (), (precalculate.run s).2) := Prod.ext done rfl
  obtain ⟨_, _, stored, again⟩ := succeeds _ gives
  obtain ⟨f, _, total⟩ := stored "total" (.ofFormula "total" "cost + cost" .metric "shop")
    (by decide +kernel)
  have same : stale.taxons.withoutFacts = s.taxons.withoutFacts := by decide +kernel
  refine ⟨⟨_, _, gives, total, rfl, again, (independent _ same).2.2 _ gives⟩, ?_⟩
  cases failed : (precalculate.run lacking).1 with
  | ok u =>
    have fails : (precalculate.run lacking).1.toOption.isNone = true := by decide +kernel
    rw [failed] at fails
    cases fails
  | error e =>
    have run : precalculate.run lacking = (.error e, (precalculate.run lacking).2) :=
      Prod.ext failed rfl
    have unchanged := ((precalculate_idempotent lacking).1 e _ run).1
    exact ⟨e, run.trans (congrArg (Prod.mk _) unchanged)⟩

end Taxonomy

end SemanticLayer
