import SemanticLayer.Formula.Node
import SemanticLayer.Formula.Parser

/-!
# What a node reads

Whether the value of a node is missing, since an optional taxon is out of scope, and which taxons
and data sources it comes from.
-/

namespace SemanticLayer.Formula

/-- The data sources of a value; none stands for taxons that belong to no data source. -/
abbrev DataSources := SortedSet (Option String)

/-- The data sources with a name. -/
def DataSources.named (ds : DataSources) : NameSet := .ofList (ds.toList.filterMap id)

namespace UsedSlugs

def ofTaxon (slug : String) (optional : Bool) : UsedSlugs := empty.add slug optional

def mergeAll (us : List UsedSlugs) : UsedSlugs := us.foldl merge empty

end UsedSlugs

namespace Node

mutual

/-- Whether the value is missing.  A sum is there as long as one side is, and a difference as long
as its left side is. -/
def isMissing (ctx : Context) : Node → Bool
  | .integer .. => false
  | .decimal .. => false
  | .text .. => false
  | .bool .. => false
  | .column .. => false
  | .paren n _ => n.isMissing ctx
  | .taxon u _ => u.taxon?.isNone || u.isOptional && !u.isAllowed ctx
  | .attribute .. => false
  | .computed u n _ => n.isMissing ctx || u.isOptional && !u.isAllowed ctx
  | .binary .add l r _ => l.isMissing ctx && r.isMissing ctx
  | .binary .sub l _ _ => l.isMissing ctx
  | .binary _ l r _ => l.isMissing ctx || r.isMissing ctx
  | .not n _ => n.isMissing ctx
  | .isNull n _ _ => n.isMissing ctx
  | .call f args _ _ => f.isMissing (eachIsMissing ctx args)
  | .transition _ n _ _ _ => n.isMissing ctx
  | .root n _ => n.isMissing ctx

def eachIsMissing (ctx : Context) : List Node → List Bool
  | [] => []
  | n :: ns => n.isMissing ctx :: eachIsMissing ctx ns

end

mutual

/-- The taxons the value is computed from; those of a missing operand do not count. -/
def used (ctx : Context) : Node → UsedSlugs
  | .integer .. => .empty
  | .decimal .. => .empty
  | .text .. => .empty
  | .bool .. => .empty
  | .column .. => .empty
  | .paren n _ => n.used ctx
  | .taxon u _ => if u.taxon?.isSome then .ofTaxon u.slug u.isOptional else .empty
  | .attribute .. => .empty
  | .computed u n _ => (n.used ctx).merge (.ofTaxon u.slug u.isOptional)
  | .binary _ l r _ =>
    (if l.isMissing ctx then .empty else l.used ctx).merge
      (if r.isMissing ctx then .empty else r.used ctx)
  | .not n _ => n.used ctx
  | .isNull n _ _ => n.used ctx
  | .call _ args _ _ => .mergeAll (usedEach ctx args)
  | .transition _ n _ _ _ => n.used ctx
  | .root n _ => n.used ctx

def usedEach (ctx : Context) : List Node → List UsedSlugs
  | [] => []
  | n :: ns => n.used ctx :: usedEach ctx ns

end

/-- The data source of a taxon, or of what it is computed from. -/
def useSources (u : TaxonUse) (inner : DataSources) : DataSources :=
  match u.dataSource? with
  | some ds => inner.insert (some ds)
  | none => inner

/-- The data source of a taxon without a calculation. -/
def unresolvedSources (u : TaxonUse) : DataSources :=
  useSources u (if u.taxon?.isSome && u.dataSource?.isNone then .singleton none else .empty)

mutual

/-- The data sources the value comes from. -/
def dataSources : Node → DataSources
  | .integer .. => .empty
  | .decimal .. => .empty
  | .text .. => .empty
  | .bool .. => .empty
  | .column .. => .empty
  | .paren n _ => n.dataSources
  | .taxon u _ => unresolvedSources u
  | .attribute u _ _ => unresolvedSources u
  | .computed u n _ => useSources u n.dataSources
  | .binary _ l r _ => l.dataSources ∪ r.dataSources
  | .not n _ => n.dataSources
  | .isNull n _ _ => n.dataSources
  | .call .merge _ _ _ => .singleton none
  | .call _ args _ _ => SortedSet.unions (dataSourcesEach args)
  | .transition _ n _ _ _ => n.dataSources
  | .root n _ => n.dataSources

def dataSourcesEach : List Node → List DataSources
  | [] => []
  | n :: ns => n.dataSources :: dataSourcesEach ns

end

/-- The placeholder that a dimension of one data source stands for. -/
def usePlaceholders (u : TaxonUse) : NameSet :=
  if u.taxon?.isSome && !u.isMetric && u.dataSource?.isSome then .singleton u.slug else .empty

mutual

/-- The taxons that stand in the SQL as placeholders. -/
def placeholders : Node → NameSet
  | .integer .. => .empty
  | .decimal .. => .empty
  | .text .. => .empty
  | .bool .. => .empty
  | .column .. => .empty
  | .paren n _ => n.placeholders
  | .taxon u _ => usePlaceholders u
  | .attribute u _ _ => usePlaceholders u
  | .computed _ n _ => n.placeholders
  | .binary _ l r _ => l.placeholders ∪ r.placeholders
  | .not n _ => n.placeholders
  | .isNull n _ _ => n.placeholders
  | .call _ args _ _ => SortedSet.unions (placeholdersEach args)
  | .transition _ n _ _ _ => n.placeholders
  | .root n _ => n.placeholders

def placeholdersEach : List Node → List NameSet
  | [] => []
  | n :: ns => n.placeholders :: placeholdersEach ns

end

end Node

end SemanticLayer.Formula
