import SemanticLayer.Json.Value

/-!
# TOML values

Tables list their entries by increasing key.
-/

namespace SemanticLayer

inductive Toml where
  | string (s : String)
  | integer (n : Int64)
  | float (x : Double)
  | bool (b : Bool)
  /-- A date, a time or both, as they are written. -/
  | datetime (written : String)
  | array (items : List Toml)
  | table (entries : List (String × Toml))
  deriving Inhabited

namespace Toml

/-- The only key of a date's form in JSON. -/
def datetimeKey : String := "$__toml_private_datetime"

mutual

/-- The value in JSON, where a date is an object with one key. -/
def toJson : Toml → Json
  | .string s => .str s
  | .integer n => .int n.toInt
  | .float x => .real x
  | .bool b => .bool b
  | .datetime s => .obj [(datetimeKey, .str s)]
  | .array items => .arr (toJsonEach items)
  | .table entries => .obj (toJsonFields entries)

def toJsonEach : List Toml → List Json
  | [] => []
  | t :: ts => t.toJson :: toJsonEach ts

def toJsonFields : List (String × Toml) → List (String × Json)
  | [] => []
  | (k, t) :: es => (k, t.toJson) :: toJsonFields es

end

mutual

/-- Replaces every text in the value; the first failure by increasing key counts. -/
def mapTextsM {ε : Type} (f : String → Except ε String) : Toml → Except ε Toml
  | .string s => (f s).map .string
  | .array items => (mapTextsEachM f items).map .array
  | .table entries => (mapTextsFieldsM f entries).map .table
  | t => .ok t

def mapTextsEachM {ε : Type} (f : String → Except ε String) : List Toml → Except ε (List Toml)
  | [] => return []
  | t :: ts => return (← mapTextsM f t) :: (← mapTextsEachM f ts)

def mapTextsFieldsM {ε : Type} (f : String → Except ε String) :
    List (String × Toml) → Except ε (List (String × Toml))
  | [] => return []
  | (k, t) :: es => return (k, ← mapTextsM f t) :: (← mapTextsFieldsM f es)

end

end Toml

end SemanticLayer
