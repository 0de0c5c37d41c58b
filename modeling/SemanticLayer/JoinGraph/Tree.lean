import SemanticLayer.JoinGraph.Definition

/-!
# Join trees

A join tree says which models are read together and how they hang on each other.  A taxon that
several models have is read from the one nearest to the root.
-/

namespace SemanticLayer

structure JoinTree where
  model : Model
  /-- The wanted taxons that the model has. -/
  taxons : NameSet
  /-- The trees of the models joined to this one. -/
  children : List JoinTree

instance : Inhabited Model :=
  ⟨⟨"", .empty, [], [], none, .hidden, "", none, [], none⟩⟩

instance : Inhabited JoinTree := ⟨⟨default, .empty, []⟩⟩

namespace JoinTree

mutual

/-- The taxons of all models in the tree. -/
def selectable : JoinTree → NameSet
  | ⟨_, taxons, children⟩ => taxons.union (selectableOf children)

def selectableOf : List JoinTree → NameSet
  | [] => .empty
  | t :: ts => t.selectable.union (selectableOf ts)

end

/-- Joins lists of levels, level by level. -/
def zipLevels {α : Type} : List (List α) → List (List α) → List (List α)
  | [], yss => yss
  | xss, [] => xss
  | xs :: xss, ys :: yss => (xs ++ ys) :: zipLevels xss yss

mutual

/-- The subtrees by their distance from the root. -/
def levels : JoinTree → List (List JoinTree)
  | ⟨model, taxons, children⟩ => [⟨model, taxons, children⟩] :: levelsOf children

def levelsOf : List JoinTree → List (List JoinTree)
  | [] => []
  | t :: ts => zipLevels t.levels (levelsOf ts)

end

/-- All subtrees, those nearer to the root first. -/
def breadthFirst (t : JoinTree) : List JoinTree := t.levels.flatten

def models (t : JoinTree) : List Model := t.breadthFirst.map (·.model)

/-- The model that each taxon is read from. -/
def taxonModels (t : JoinTree) : SortedMap String Model :=
  t.breadthFirst.foldl (fun ms s => s.taxons.toList.foldl (·.insertIfNew · s.model) ms) .empty

/-- The condition that two models agree on each taxon of their edge. -/
def joinCondition (parent child : Model) : List String → Result (Option Sql.Expr)
  | taxons => do
    let conditions ← taxons.mapM fun t => do
      let left ← parent.taxonSql t false
      let right ← child.taxonSql t false
      return left.eq right
    return match conditions with
      | [] => none
      | c :: cs => some (cs.foldl .and c)

def join (g : JoinGraph) (parent child : Model) : Result Sql.Join := do
  match g.edge? parent.name child.name with
  | none => throw (.defect (.noJoin parent.name child.name))
  | some e =>
    match ← joinCondition parent child e.taxons.toList with
    | none => throw (.missingJoinTaxons parent.name child.name)
    | some condition => return ⟨e.kind, child.tableRef, condition⟩

/-- The pairs of models that are joined, a parent's before its children's. -/
def links (t : JoinTree) : List (Model × Model) :=
  t.breadthFirst.flatMap fun s => s.children.map fun c => (s.model, c.model)

def joins (t : JoinTree) (g : JoinGraph) : Result (List Sql.Join) :=
  t.links.mapM fun (parent, child) => join g parent child

/-- A query that reads the models of the tree. -/
def source (t : JoinTree) (g : JoinGraph) (q : Sql.Query) : Result Sql.Query := do
  let joins ← t.joins g
  return { q with source? := some t.model.tableRef, joins := q.joins ++ joins }

end JoinTree

end SemanticLayer
