import SemanticLayer.Collections.SortedSet
import SemanticLayer.Identifier

/-!
# Slugs

A taxon is named by its slug: a name, or the name of a data source and a name with a bar
between them.  A request may hold a formula in place of a slug; it starts with an equals sign.
-/

namespace SemanticLayer

/-- A set of slugs, names or labels. -/
abbrev NameSet := SortedSet String

namespace Slug

def delimiter : Char := '|'

/-- Splits at the first occurrence of a character. -/
def splitAt? (c : Char) : List Char → Option (List Char × List Char)
  | [] => none
  | x :: xs => if x = c then some ([], xs) else (splitAt? c xs).map fun (a, b) => (x :: a, b)

def dataSource? (slug : String) : Option String :=
  (splitAt? delimiter slug.toList).map fun (ns, _) => String.ofList ns

/-- The slug without its data source. -/
def localName (slug : String) : String :=
  match splitAt? delimiter slug.toList with
  | some (_, name) => String.ofList name
  | none => slug

def inDataSource (ns slug : String) : String := ns ++ "|" ++ slug

def comparisonLead : String := "comparison@"

/-- The slug of the same measure in a comparison. -/
def comparison (slug : String) : String := comparisonLead ++ slug

/-- The column that says which data source a row comes from. -/
def dataSourceColumn : String := "__data_source"

def isFormula (slug : String) : Bool := slug.toList.head? == some '='

/-- The text after a leading part, if the slug starts with it. -/
def after? (lead slug : String) : Option String :=
  if lead.toList.isPrefixOf slug.toList then some (String.ofList (slug.toList.drop lead.length))
  else none

def isComparison (slug : String) : Bool := (after? comparisonLead slug).isSome

/-- The calculation of a formula that is asked for as a metric. -/
def metricFormula? (slug : String) : Option String := after? "=m:" slug

/-- The calculation of a formula that is asked for as a dimension. -/
def dimensionFormula? (slug : String) : Option String := after? "=d:" slug

/-- The slug under which a formula is kept: every double quote is two stars. -/
def withoutQuotes (slug : String) : String :=
  String.ofList (slug.toList.flatMap fun c => if c = '"' then ['*', '*'] else [c])

end Slug

end SemanticLayer
