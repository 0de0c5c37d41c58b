import SemanticLayer.Model.Definition

/-!
# Join graphs

The models of one data source, and between them an edge for each direction in which a declared
join can be followed.  Between two models there is at most one edge a direction: a later
declaration takes the place of an earlier one.
-/

namespace SemanticLayer

/-- A way from one model to another. -/
structure JoinEdge where
  source : String
  target : String
  /-- The taxons that both models are joined on. -/
  taxons : NameSet
  relationship : Relationship
  kind : Sql.JoinKind
  deriving DecidableEq

structure JoinGraph where
  dataSource : String
  models : List Model
  /-- The edge added last comes first. -/
  edges : List JoinEdge

/-- The edges that a declared join of a model stands for.  One that can be followed both ways keeps
its relationship on the way back. -/
def ModelJoin.edges (j : ModelJoin) (m : Model) : List JoinEdge :=
  let taxons : NameSet := .ofList j.taxons
  let out : JoinEdge := ⟨m.name, j.target, taxons, j.relationship, j.kind⟩
  match j.direction with
  | .both => [out, ⟨j.target, m.name, taxons, j.relationship, j.kind.reverse⟩]
  | .outgoing => [out]
  | .incoming => [⟨j.target, m.name, taxons, j.relationship.reverse, j.kind.reverse⟩]

namespace JoinGraph

def model? (g : JoinGraph) (name : String) : Option Model :=
  g.models.find? fun m => m.name = name

def edge? (g : JoinGraph) (source target : String) : Option JoinEdge :=
  g.edges.find? fun e => e.source = source ∧ e.target = target

def edgesFrom (g : JoinGraph) (source : String) : List JoinEdge :=
  g.edges.filter fun e => e.source = source

/-- Adds an edge in front, or at the place of the one between the same models. -/
def addEdge (g : JoinGraph) (e : JoinEdge) : JoinGraph :=
  let sameEnds (f : JoinEdge) : Bool := f.source = e.source ∧ f.target = e.target
  if g.edges.any sameEnds then
    { g with edges := g.edges.map fun f => if sameEnds f then e else f }
  else { g with edges := e :: g.edges }

/-- Adds the edges of a declared join; one with a model outside the graph has none. -/
def addJoin (g : JoinGraph) (m : Model) (j : ModelJoin) : Result JoinGraph :=
  if (g.model? j.target).isNone then .ok g
  else if j.taxons.isEmpty then .error (.missingJoinTaxons m.name j.target)
  else .ok ((j.edges m).foldl addEdge g)

def addJoins (g : JoinGraph) (m : Model) : Result JoinGraph :=
  m.joins.foldlM (fun g j => g.addJoin m j) g

/-- The first member of a list that also stands before. -/
def firstRepeated? (seen : List String) : List String → Option String
  | [] => none
  | n :: ns => if n ∈ seen then some n else firstRepeated? (n :: seen) ns

/-- The graph over models of one data source, whose names differ. -/
def build (dataSources : NameSet) (models : List Model) : Result JoinGraph :=
  match dataSources.toList with
  | [dataSource] =>
    match firstRepeated? [] (models.map (·.name)) with
    | some name => .error (.duplicateModel name dataSource)
    | none => models.foldlM addJoins ⟨dataSource, models, []⟩
  | _ => .error (.multipleDataSources dataSources)

end JoinGraph

end SemanticLayer
