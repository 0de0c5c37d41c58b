import SemanticLayer.Number.Double
import SemanticLayer.Collections.SortedMap

/-!
# JSON values

Whole numbers and decimals are kept apart: `1` is an integer and `1.0` a double.  The fields of
an object are listed by increasing key.
-/

namespace SemanticLayer

inductive Json where
  | null
  | bool (b : Bool)
  | int (n : Int)
  | real (x : Double)
  | str (s : String)
  | arr (items : List Json)
  | obj (fields : List (String × Json))
  deriving Inhabited

namespace Json

/-- An object from fields in any order; a later field of the same name wins. -/
def ofFields (fields : List (String × Json)) : Json :=
  .obj (fields.foldl (fun fs f => storeIncreasing f.1 f.2 fs) [])

def ofOption {α : Type} (f : α → Json) : Option α → Json
  | none => .null
  | some a => f a

def ofStrings (ss : List String) : Json := .arr (ss.map .str)

/-- The value of a field, if the value is an object that has it. -/
def field? (j : Json) (name : String) : Option Json :=
  match j with
  | .obj fields => (fields.find? fun f => f.1 = name).map (·.2)
  | _ => none

end Json

end SemanticLayer
