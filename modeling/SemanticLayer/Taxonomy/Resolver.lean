import SemanticLayer.Taxonomy.Facts

/-!
# Resolution of taxons

A request names taxons, whose calculations name further ones.  Resolution collects all of them
and keeps apart those that are reached through required references only.  A request can also hold
formulas; each becomes a temporary taxon.
-/

namespace SemanticLayer

structure Resolver where
  taxons : TaxonMap
  /-- The data sources into which references are followed; none follows all. -/
  dataSources? : Option NameSet
  /-- Whether the taxons that aggregations name are collected too. -/
  withAggregationTaxons : Bool
  /-- Taxons made for the formulas of requests. -/
  temporary : TaxonMap

/-- The taxons of a map under some slugs. -/
def TaxonMap.restrict (ts : TaxonMap) (slugs : NameSet) : TaxonMap :=
  ts.filter fun slug _ => slugs.contains slug

namespace Resolver

def ofTaxons (taxons : TaxonMap) : Resolver := ⟨taxons, none, false, .empty⟩

/-- The taxons under some slugs.  Where all must be there, missing ones are an error; a formula
is taken from the temporary taxons, if it is one of them. -/
def load (r : Resolver) (slugs : NameSet) (mustLoadAll : Bool) : Result TaxonMap :=
  let found := r.taxons.restrict (slugs.filter fun s => !Slug.isFormula s)
  let missing := slugs.filter fun s => !Slug.isFormula s && !found.contains s
  if mustLoadAll && !missing.isEmpty then .error (.taxonsNotFound missing)
  else .ok (found.merge (r.temporary.restrict (slugs.filter Slug.isFormula)))

/-- The taxons that the aggregations of others name. -/
def loadAggregationTaxons (r : Resolver) (ts : TaxonMap) (mustLoadAll : Bool) : Result TaxonMap :=
  let slugs : NameSet :=
    .unions ((ts.values.filterMap Taxon.knownAggregation?).map Aggregation.usedSlugs)
  if slugs.isEmpty then .ok .empty else r.load slugs mustLoadAll

/-- Loads one round of taxons, those that their aggregations name included where wanted. -/
def loadRound (r : Resolver) (withAggregations : Bool) (slugs : NameSet) (mustLoadAll : Bool) :
    Result TaxonMap := do
  if slugs.isEmpty then return .empty
  let ts ← r.load slugs mustLoadAll
  if withAggregations then return (← r.loadAggregationTaxons ts mustLoadAll).merge ts
  else return ts

/-- The slugs that the calculations of some taxons name. -/
def references (dataSources? : Option NameSet) (ts : TaxonMap) : Result (List Formula.UsedSlugs) :=
  (ts.values.filterMap Taxon.calculation?).mapM fun c => Formula.usedSlugs c dataSources?

/-- The slugs to load next: those that the loaded taxons name and that have not been seen.  Below
an optional taxon every reference is optional. -/
def nextSlugs (dataSources? : Option NameSet) (loaded : UsedTaxons) (seen : Formula.UsedSlugs) :
    Result Formula.UsedSlugs := do
  let byRequired ← references dataSources? loaded.required
  let byOptional ← references dataSources? loaded.optional
  return ⟨(SortedSet.unions (byRequired.map (·.required))).diff seen.required,
    ((SortedSet.unions (byRequired.map (·.optional))).diff seen.optional) ∪
      (SortedSet.unions (byOptional.map (·.all))).diff seen.all⟩

/-- Loads slugs round by round until a round names no new ones. -/
def resolveRounds (r : Resolver) (dataSources? : Option NameSet) (withAggregations : Bool) :
    Nat → UsedTaxons → Formula.UsedSlugs → Formula.UsedSlugs → Result UsedTaxons
  | 0, used, _, _ => .ok used
  | rounds + 1, used, seen, slugs =>
    if slugs.isEmpty then .ok used
    else do
      let loaded : UsedTaxons :=
        ⟨← r.loadRound withAggregations slugs.required true,
         ← r.loadRound withAggregations slugs.optional false⟩
      let next ← nextSlugs dataSources? loaded seen
      resolveRounds r dataSources? withAggregations rounds (used.merge loaded) (seen.merge next)
        next

/-- The characters of all calculations. -/
def calculationLength (ts : TaxonMap) : Nat :=
  (ts.values.filterMap Taxon.calculation?).foldl (fun n c => n + c.length) 0

/-- Enough rounds: each but the first loads a slug that is new as a required or as an optional
one, and the calculations name at most as many slugs as they have characters. -/
def roundLimit (r : Resolver) : Nat :=
  2 * (calculationLength r.taxons + calculationLength r.temporary) + 2

/-- Collects taxons and all that they use. -/
def resolveWith (r : Resolver) (dataSources? : Option NameSet) (withAggregations : Bool)
    (slugs : NameSet) : Result UsedTaxons :=
  r.resolveRounds dataSources? withAggregations r.roundLimit .empty .empty ⟨slugs, .empty⟩

/-- Collects the requested taxons and all that they use. -/
def resolve (r : Resolver) (slugs : NameSet) : Result UsedTaxons :=
  r.resolveWith r.dataSources? r.withAggregationTaxons slugs

/-- The taxons that a definition uses.  All below an optional reference are optional. -/
def usedInDefinition (r : Resolver) (t : Taxon) : Result UsedTaxons := do
  match t.definition with
  | .computed calculation =>
    let named ← Formula.usedSlugs calculation none
    let required ← r.resolveWith none false named.required
    let optional ← r.resolveWith none false named.optional
    return required.withOptional (optional.required.merge optional.optional)
  | .raw aggregation =>
    if aggregation.usedSlugs.isEmpty then return .empty
    else return ⟨← r.load aggregation.usedSlugs true, .empty⟩

def deriveFacts (r : Resolver) (t : Taxon) : Result FormulaFacts := do
  t.deriveFacts (← r.usedInDefinition t)

/-- A taxon's facts, with a fallback for an aggregation that is not set. -/
def withFallback (t : Taxon) (f : FormulaFacts) : FormulaFacts :=
  if f.aggregation? = some .notSet then
    { f with aggregation? := some (Aggregation.fallback t.type) }
  else f

/-- Gives facts to the taxons that have none. -/
def completeFacts (r : Resolver) (useFallback : Bool) (ts : TaxonMap) : Result TaxonMap :=
  ts.mapValuesM fun _ t => do
    let facts ←
      match t.facts? with
      | some f => pure f
      | none => r.deriveFacts t
    return { t with facts? := some (if useFallback then withFallback t facts else facts) }

/-- The taxons with the facts of each. -/
def precalculate (ts : TaxonMap) : Result TaxonMap :=
  ts.mapValuesM fun _ t => do
    return { t with facts? := some (← (ofTaxons ts).deriveFacts t) }

/-! ### Requests with formulas -/

/-- A resolution that may fail; temporary taxons stay also then. -/
abbrev Session := ExceptT Error (StateM Resolver)

/-- The calculation and the type of a formula in a request. -/
def formulaOf (slug : String) : Result (String × TaxonType) :=
  match Slug.metricFormula? slug, Slug.dimensionFormula? slug with
  | some c, _ => .ok (c, .metric)
  | none, some c => .ok (c, .dimension)
  | none, none => .error (.invalidRequest (.unknownFormula slug))

/-- Makes a temporary taxon for a formula; gives it and the slugs it names. -/
def addFormula (company slug : String) : Session (Taxon × NameSet) := do
  let (calculation, type) ← formulaOf slug
  let named ← Formula.usedSlugs calculation (← get).dataSources?
  let t := Taxon.ofFormula (Slug.withoutQuotes slug) calculation type company
  modify fun r => { r with temporary := r.temporary.insert t.slug t }
  return (t, named.all)

/-- Gives a formula's taxon its facts, among the temporary taxons too. -/
def completeFormula (ts : TaxonMap) (slug : String) : Session TaxonMap := do
  match ts.get? slug with
  | none => return ts
  | some t =>
    let facts ← (← get).deriveFacts t
    let t := { t with facts? := some facts }
    modify fun r => { r with temporary := r.temporary.insert slug t }
    return ts.insert slug t

/-- The taxons of a request, in which slugs and formulas may stand, and all that they use. -/
def resolveRequest (company : String) (request : List String) : Session TaxonMap := do
  let (formulas, slugs) := request.partition Slug.isFormula
  let found ← (← get).resolve (.ofList slugs)
  if formulas.isEmpty then return found.all
  let made ← formulas.mapM (addFormula company)
  let withFormulas := found.all.insertAll (made.map fun (t, _) => (t.slug, t))
  let r ← get
  let used ← r.resolveWith r.dataSources? false (.unions (made.map (·.2)))
  (made.map fun (t, _) => t.slug).foldlM completeFormula (withFormulas.merge used.all)

end Resolver

end SemanticLayer
