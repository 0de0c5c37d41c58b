import SemanticLayer.Filter.Clause
import SemanticLayer.Model.Augmentation

/-!
# Scopes

A scope says who asks and which models may be used.
-/

namespace SemanticLayer

structure Scope where
  company : String
  project? : Option String
  visibility : Visibility
  /-- Holds for the rows of models before any aggregation. -/
  preaggregationFilter? : Option FilterClause

namespace Scope

/-- Whether the scope may use a model.  Models of no project belong to the whole company. -/
def canUse (s : Scope) (m : Model) : Bool :=
  s.visibility.canSee m.visibility && m.company = s.company &&
    match m.project? with
    | none => true
    | some project => s.project? = some project

end Scope

/-- Which models are looked for: one by its name, or those that serve all data sources. -/
structure ModelQuery where
  dataSources : NameSet
  name? : Option String
  /-- The connections that the tables may be in; none allows all. -/
  physicalSources? : Option NameSet

def ModelQuery.matches (q : ModelQuery) (m : Model) : Bool :=
  (match q.name? with
    | some name => m.name = name
    | none => q.dataSources.toList.all m.dataSources.contains) &&
  q.physicalSources?.all fun allowed => allowed.contains m.physicalSource

namespace Model

/-- Validates and augments models for use. -/
def prepareAll (ms : List Model) : Result (List Model) :=
  ms.mapM fun m => do
    m.validate
    return m.augmented

/-- The models of a scope that are looked for; there must be one. -/
def load (ms : List Model) (s : Scope) (q : ModelQuery) : Result (List Model) :=
  match ms.filter fun m => s.canUse m && q.matches m with
  | [] => .error (.modelNotFound q.dataSources)
  | found => .ok found

end Model

end SemanticLayer
