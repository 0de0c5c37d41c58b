import SemanticLayer.Blend.Answer
import SemanticLayer.Collections.SortedMap
import SemanticLayer.Model.Codec
import SemanticLayer.Text.Numeric
import SemanticLayer.Toml.Parser

/-!
# Settings

The defaults that requests are compiled with, read from TOML.  Environment variables in its texts
are replaced before the settings are read.
-/

namespace SemanticLayer

/-!
## Environment variables in texts

A dollar sign and a name stand for the value of a variable; the name may stand in braces.  A
dollar sign without a name stands for itself, and a value is not expanded again.
-/

/-- Why settings cannot be used. -/
inductive SettingsError where
  /-- The text is no TOML, or a setting has no valid value. -/
  | unreadable
  | missingVariable (name : String)
  /-- No override mapping would be allowed. -/
  | noOverrideMappings
  deriving DecidableEq

def SettingsError.message : SettingsError → String
  | .unreadable => "Failed to parse config file"
  | .missingVariable name => "Missing environment variable: " ++ name
  | .noOverrideMappings =>
    "Invalid configuration: compiler.max_override_mappings must be at least 1"

/-- The variables that are set. -/
abbrev Environment := SortedMap String String

namespace Environment

def value (env : Environment) (name : List Char) : Except SettingsError (List Char) :=
  match env.get? (String.ofList name) with
  | some v => .ok v.toList
  | none => .error (.missingVariable (String.ofList name))

def isNameChar (c : Char) : Bool := Text.isAlphanumeric c || c == '_'

def isInBraces (c : Char) : Bool := c != '\x7d'

/-- The characters with variables replaced.  A brace that is not closed takes in all that is
left. -/
def expandChars (env : Environment) : List Char → Except SettingsError (List Char)
  | [] => return []
  | c :: cs =>
    if c = '$' then
      match cs with
      | '\x7b' :: cs => do
        let value ← env.value (cs.takeWhile isInBraces)
        return value ++ (← env.expandChars ((cs.dropWhile isInBraces).drop 1))
      | cs =>
        if (cs.takeWhile isNameChar).isEmpty then do
          return c :: (← env.expandChars cs)
        else do
          let value ← env.value (cs.takeWhile isNameChar)
          return value ++ (← env.expandChars (cs.dropWhile isNameChar))
    else do return c :: (← env.expandChars cs)
termination_by cs => cs.length
decreasing_by
  · have := (List.dropWhile_sublist isInBraces (l := cs)).length_le
    simp only [List.length_cons, List.length_drop]
    omega
  · simp
  · have := (List.dropWhile_sublist isNameChar (l := cs)).length_le
    simp only [List.length_cons]
    omega
  · simp

def expand (env : Environment) (s : String) : Except SettingsError String :=
  (env.expandChars s.toList).map String.ofList

end Environment

/-! ## Settings -/

structure Settings where
  options : Options
  /-- Whether answers are printed over several lines. -/
  isPretty : Bool

def Settings.default : Settings := ⟨.default, false⟩

open Decode

def Sql.Dialect.ofJson : Decoder Sql.Dialect := fun j => do
  present (Sql.Dialect.ofName? (← string j))

/-- A visibility, alone or as the only key of a table with an empty value. -/
def Settings.visibilityOfJson : Decoder Visibility
  | .obj [(name, .obj [])] => Visibility.ofJson (.str name)
  | .obj [(name, .arr [])] => Visibility.ofJson (.str name)
  | j => Visibility.ofJson j

def Options.ofJson : Decoder Options := fun j => do
  let fs ← record
    ["dialect", "use_fallback_aggregations", "max_override_mappings", "model_visibility"] j
  let o := Options.default
  let dialect ← fs.getD "dialect" Sql.Dialect.ofJson o.dialect
  let maxMappings ← fs.getD "max_override_mappings" (fun j => (unsigned j).map UInt64.toNat)
    o.maxMappings
  let visibility ← fs.getD "model_visibility" Settings.visibilityOfJson o.visibility
  let useFallback ← fs.getD "use_fallback_aggregations" bool o.useFallback
  return { dialect, useFallback, maxMappings, visibility }

def Options.toJson (o : Options) : Json :=
  .ofFields
    [("dialect", .str o.dialect.name), ("use_fallback_aggregations", .bool o.useFallback),
     ("max_override_mappings", .int o.maxMappings), ("model_visibility", .str o.visibility.name)]

namespace Settings

def prettyOfJson : Decoder Bool := fun j => do
  (← record ["pretty"] j).getD "pretty" bool Settings.default.isPretty

def ofJson : Decoder Settings := fun j => do
  let fs ← record ["compiler", "output"] j
  let options ← fs.getD "compiler" Options.ofJson Options.default
  let isPretty ← fs.getD "output" prettyOfJson Settings.default.isPretty
  return { options, isPretty }

def toJson (s : Settings) : Json :=
  .ofFields
    [("compiler", s.options.toJson), ("output", .ofFields [("pretty", .bool s.isPretty)])]

/-- Requests may use at least one override mapping. -/
def validate (s : Settings) : Except SettingsError Unit :=
  if s.options.maxMappings = 0 then .error .noOverrideMappings else .ok ()

/-- Reads settings in which variables of an environment may stand. -/
def ofToml (env : Environment) (text : String) : Except SettingsError Settings := do
  let some document := Toml.parse? text | throw .unreadable
  let settings ← (ofJson (← document.mapTextsM env.expand).toJson).mapError fun _ => .unreadable
  settings.validate
  return settings

end Settings

end SemanticLayer
