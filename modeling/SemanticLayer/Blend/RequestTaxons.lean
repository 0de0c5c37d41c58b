import SemanticLayer.Blend.Request
import SemanticLayer.Taxonomy.Resolver

/-!
# Taxons of a request

Every taxon that a request names, and all that they use, with the questions that the stages of a
query ask of them.
-/

namespace SemanticLayer

structure RequestTaxons where
  request : BlendRequest
  taxons : TaxonMap
  /-- The data sources of the parts. -/
  dataSources : NameSet
  /-- For each taxon asked for, the data sources of the parts that ask for it. -/
  askedOf : SortedMap String NameSet

namespace BlendRequest

def filterSlugs (filter? : Option FilterClause) : List String :=
  (filter?.map FilterClause.taxonList).getD []

/-- The taxons that one part names. -/
def partSlugs (p : SourceRequest) : List String :=
  p.taxons ++ filterSlugs p.scope.preaggregationFilter? ++ filterSlugs p.preaggregationFilter?

/-- All taxons that the request names.  A comparison also reads the company. -/
def slugs (r : BlendRequest) : NameSet :=
  .ofList (r.groupingTaxons.toList ++ filterSlugs r.filter? ++ r.comparisonTaxons ++
    (if r.comparison?.isSome then ["company_id"] else []) ++ r.order.map (·.taxon) ++
    r.parts.flatMap partSlugs)

def dataSources (r : BlendRequest) : Result NameSet :=
  (r.parts.mapM SourceRequest.dataSource).map SortedSet.ofList

/-- The company that asks, by the first part. -/
def company (r : BlendRequest) : Result String :=
  match r.parts with
  | p :: _ => .ok p.scope.company
  | [] => .error (.invalidRequest .noSubrequest)

/-- The data sources of which each taxon is asked. -/
def askedOf (r : BlendRequest) : Result (SortedMap String NameSet) :=
  r.parts.foldlM (fun asked p => do
    let dataSource ← p.dataSource
    return (p.taxons ++ p.order.map (·.taxon)).foldl (fun asked slug =>
      asked.alter (Slug.withoutQuotes slug) fun sources? =>
        (sources?.getD .empty).insert dataSource) asked) .empty

end BlendRequest

namespace RequestTaxons

def taxon (ts : RequestTaxons) (slug : String) : Result Taxon :=
  match ts.taxons.get? (Slug.withoutQuotes slug) with
  | some t => .ok t
  | none => .error (.defect (.taxonNotLoaded slug))

/-- The taxons under some slugs. -/
def named (ts : RequestTaxons) (slugs : List String) : Result TaxonMap :=
  (slugs.mapM fun slug => (ts.taxon slug).map (Slug.withoutQuotes slug, ·)).map SortedMap.ofList

/-- Grouping sets hold dimensions only. -/
def validateGroupingSets (ts : RequestTaxons) : Result Unit := do
  let members ← ts.named ts.request.groupingTaxons.toList
  match members.values.filter Taxon.isMetric with
  | [] => return
  | metrics => throw (.invalidRequest (.metricGroupingSets (metrics.map (·.slug))))

/-- Loads all taxons of a request, with their facts. -/
def load (taxonomy : TaxonMap) (useFallback : Bool) (r : BlendRequest) : Result RequestTaxons := do
  let dataSources ← r.dataSources
  let askedOf ← r.askedOf
  let company ← r.company
  let resolver : Resolver := ⟨taxonomy, some dataSources, true, .empty⟩
  let (found, resolver) := (Resolver.resolveRequest company r.slugs.toList).run resolver
  let taxons ← resolver.completeFacts useFallback (← found)
  let ts : RequestTaxons := ⟨r, taxons, dataSources, askedOf⟩
  ts.validateGroupingSets
  return ts

/-- Adds to slugs those that their calculations name, for so many rounds. -/
def closure (ts : RequestTaxons) : Nat → NameSet → NameSet → Result NameSet
  | 0, seen, _ => .ok seen
  | rounds + 1, seen, new =>
    if new.isEmpty then .ok seen
    else do
      let calculations := (new.toList.filterMap ts.taxons.get?).filterMap Taxon.calculation?
      let used ← calculations.mapM fun c => Formula.usedSlugs c (some ts.dataSources)
      let seen := seen ∪ new
      closure ts rounds seen ((SortedSet.unions (used.map (·.all))).diff seen)

/-- The raw taxons behind some slugs that a data source has.  Each round but the first meets a new
computed taxon. -/
def rawSlugs (ts : RequestTaxons) (slugs : NameSet) (dataSource : String) : Result NameSet := do
  let reached ← ts.closure (ts.taxons.toList.length + 1) .empty (slugs.image Slug.withoutQuotes)
  let raw := (reached.toList.filterMap ts.taxons.get?).filter fun t => !t.isComputed
  return (SortedSet.ofList (raw.map (·.slug))).filter fun slug =>
    (Slug.dataSource? slug).all (· = dataSource)

/-- A taxon computed over the data of a comparison. -/
def comparisonOf (t : Taxon) : Taxon :=
  { t with slug := Slug.comparison t.slug, comparisonOrigin? := some t.slug }

/-- The taxons that one part answers, with those of the comparison. -/
def answeredBy (ts : RequestTaxons) (p : SourceRequest) : Result TaxonMap := do
  let asked ← ts.named p.taxons
  if ts.request.comparison?.isSome then
    return (Taxon.mapOf ((asked.values.filter Taxon.canCompare).map comparisonOf)).merge asked
  else return asked

/-- The taxons of the answer.  With grouping sets, their members are its only dimensions. -/
def answered (ts : RequestTaxons) : Result TaxonMap := do
  let answered := (← ts.request.parts.mapM ts.answeredBy).foldl SortedMap.merge .empty
  if ts.request.groupingSets?.isSome then
    return (answered.filter fun _ t => !t.isDimension).merge
      (← ts.named ts.request.groupingTaxons.toList)
  else return answered

/-- The taxons to compute: those of the answer, and those that filter and order it. -/
def computed (ts : RequestTaxons) : Result TaxonMap := do
  let r := ts.request
  let slugs : NameSet := .ofList (r.order.map (·.taxon) ++ BlendRequest.filterSlugs r.filter?)
  return (← ts.named slugs.toList).merge (← ts.answered)

end RequestTaxons

end SemanticLayer
