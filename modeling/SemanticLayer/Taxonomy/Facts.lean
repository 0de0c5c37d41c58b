import SemanticLayer.Formula.Resolution
import SemanticLayer.Formula.Typing

/-!
# Facts of taxons

What is derived from a taxon's calculation: the raw taxons and data sources it comes from, its
phase and its aggregation.
-/

namespace SemanticLayer

/-- Taxons by whether they can be done without. -/
structure UsedTaxons where
  required : TaxonMap
  optional : TaxonMap

namespace UsedTaxons

def empty : UsedTaxons := ⟨.empty, .empty⟩

def merge (u v : UsedTaxons) : UsedTaxons :=
  ⟨u.required.merge v.required, u.optional.merge v.optional⟩

def withRequired (u : UsedTaxons) (ts : TaxonMap) : UsedTaxons :=
  { u with required := u.required.merge ts }

def withOptional (u : UsedTaxons) (ts : TaxonMap) : UsedTaxons :=
  { u with optional := u.optional.merge ts }

def erase (u : UsedTaxons) (slug : String) : UsedTaxons :=
  ⟨u.required.erase slug, u.optional.erase slug⟩

/-- All taxons; a required one stands before an optional one. -/
def all (u : UsedTaxons) : TaxonMap := u.optional.merge u.required

def slugs (u : UsedTaxons) : Formula.UsedSlugs := ⟨u.required.keySet, u.optional.keySet⟩

end UsedTaxons

namespace Taxon

/-- The taxons that are read from models. -/
def rawSlugs (ts : TaxonMap) : NameSet :=
  .ofList ((ts.values.filter fun t => !t.isComputed).map (·.slug))

/-- The facts of a taxon, given every taxon its definition uses. -/
def deriveFacts (t : Taxon) (used : UsedTaxons) : Result FormulaFacts := do
  let used := used.erase t.slug
  let required := rawSlugs used.required
  let optional := rawSlugs used.optional
  let sources : NameSet := .ofList ((required ∪ optional).toList.filterMap Slug.dataSource?)
  let facts : FormulaFacts :=
    { usedDataSources := sources.toList.map some
      requiredRawTaxons := required.toList
      optionalRawTaxons := optional.toList
      usedTaxons := used.all.keys
      phase := .any
      canCompare := false
      aggregation? := t.aggregation? }
  match t.calculation? with
  | none => return facts
  | some calculation =>
    let ctx := Formula.Context.ofTaxons used.all
    let n ← Formula.Node.ofFormula ctx none calculation
    return { facts with
      phase := n.phase ctx, canCompare := n.canCompare, aggregation? := n.aggregation? ctx }

end Taxon

end SemanticLayer
