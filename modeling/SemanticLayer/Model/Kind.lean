import SemanticLayer.Sql.Query

/-!
# Kinds of models and joins
-/

namespace SemanticLayer

/-- How many rows of one model match how many of another. -/
inductive Relationship where
  | oneToOne
  | oneToMany
  | manyToOne
  | manyToMany
  deriving DecidableEq

namespace Relationship

def all : List Relationship := [.oneToOne, .oneToMany, .manyToOne, .manyToMany]

def name : Relationship → String
  | .oneToOne => "one_to_one"
  | .oneToMany => "one_to_many"
  | .manyToOne => "many_to_one"
  | .manyToMany => "many_to_many"

/-- The relationship seen from the other model. -/
def reverse : Relationship → Relationship
  | .oneToMany => .manyToOne
  | .manyToOne => .oneToMany
  | r => r

/-- Whether a join can multiply the rows of the model it starts from. -/
def causesFanout : Relationship → Bool
  | .oneToMany => true
  | .manyToMany => true
  | _ => false

end Relationship

/-- From which side a join can be followed: from both models, from the one that declares it, or
from the other one. -/
inductive JoinDirection where
  | both
  | outgoing
  | incoming
  deriving DecidableEq

namespace JoinDirection

def all : List JoinDirection := [.both, .outgoing, .incoming]

def name : JoinDirection → String
  | .both => "both"
  | .outgoing => "outgoing"
  | .incoming => "incoming"

/-- The direction of a join that declares none. -/
def defaultFor : Relationship → JoinDirection
  | .oneToOne => .both
  | .manyToMany => .both
  | .manyToOne => .outgoing
  | .oneToMany => .incoming

end JoinDirection

def Sql.JoinKind.name : Sql.JoinKind → String
  | .inner => "inner"
  | .left => "left"
  | .right => "right"

/-- The join seen from the other table. -/
def Sql.JoinKind.reverse : Sql.JoinKind → Sql.JoinKind
  | .inner => .inner
  | .left => .right
  | .right => .left

inductive TimeGranularity where
  | hour
  | day
  deriving DecidableEq

/-- Coarser times rank higher, and models without times highest. -/
def TimeGranularity.rank : Option TimeGranularity → Nat
  | some .hour => 0
  | some .day => 1
  | none => 2

inductive Visibility where
  | hidden
  | available
  | experimental
  deriving DecidableEq

namespace Visibility

def all : List Visibility := [.hidden, .available, .experimental]

def name : Visibility → String
  | .hidden => "hidden"
  | .available => "available"
  | .experimental => "experimental"

/-- Whether a scope sees models of a visibility.  A hidden scope sees none, and an experimental
one also the available models. -/
def canSee (scope model : Visibility) : Bool :=
  match scope with
  | .hidden => false
  | .available => model = .available
  | .experimental => model = .available || model = .experimental

end Visibility

/-- Whether an attribute holds one value or an array of values. -/
inductive QuantityType where
  | scalar
  | array
  deriving DecidableEq

def QuantityType.name : QuantityType → String
  | .scalar => "scalar"
  | .array => "array"

inductive ModelType where
  | entity
  | metric
  deriving DecidableEq

def ModelType.name : ModelType → String
  | .entity => "entity"
  | .metric => "metric"

end SemanticLayer
