import SemanticLayer.Json.Value
import SemanticLayer.Number.Layout

/-!
# Writing JSON text

Everything but quotes, backslashes and control characters is written raw.
-/

namespace SemanticLayer.Json

def hexDigitOf (n : Nat) : Char := Nat.digitChar n

/-- A character inside a JSON string. -/
def writeChar (c : Char) : List Char :=
  if c = '"' then ['\\', '"']
  else if c = '\\' then ['\\', '\\']
  else if c = '\n' then ['\\', 'n']
  else if c = '\r' then ['\\', 'r']
  else if c = '\t' then ['\\', 't']
  else if c = '\x08' then ['\\', 'b']
  else if c = '\x0c' then ['\\', 'f']
  else if c.toNat < 0x20 then
    ['\\', 'u', '0', '0', hexDigitOf (c.toNat / 16), hexDigitOf (c.toNat % 16)]
  else [c]

def writeString (s : String) : String :=
  "\"" ++ String.ofList (s.toList.flatMap writeChar) ++ "\""

/-- A finite double; JSON has no text for the others. -/
def writeReal (x : Double) : String := if x.isFinite then Layout.sql.write x else "null"

mutual

/-- The compact text of a value. -/
def write : Json → String
  | .null => "null"
  | .bool b => if b then "true" else "false"
  | .int n => toString n
  | .real x => writeReal x
  | .str s => writeString s
  | .arr items => "[" ++ ",".intercalate (writeItems items) ++ "]"
  | .obj fields => "\x7b" ++ ",".intercalate (writeFields fields) ++ "\x7d"

def writeItems : List Json → List String
  | [] => []
  | j :: js => write j :: writeItems js

def writeFields : List (String × Json) → List String
  | [] => []
  | (name, j) :: fs => (writeString name ++ ":" ++ write j) :: writeFields fs

end

/-- Two spaces per level, for the text a person reads. -/
def indentation (level : Nat) : String := String.ofList (List.replicate (2 * level) ' ')

mutual

/-- The text of a value with one item or field per line. -/
def writePretty (level : Nat) : Json → String
  | .arr (j :: js) =>
    "[\n" ++ ",\n".intercalate (writePrettyItems (level + 1) (j :: js)) ++ "\n" ++
      indentation level ++ "]"
  | .obj (f :: fs) =>
    "\x7b\n" ++ ",\n".intercalate (writePrettyFields (level + 1) (f :: fs)) ++ "\n" ++
      indentation level ++ "\x7d"
  | .arr [] => "[]"
  | .obj [] => "\x7b\x7d"
  | .null => "null"
  | .bool b => if b then "true" else "false"
  | .int n => toString n
  | .real x => writeReal x
  | .str s => writeString s

def writePrettyItems (level : Nat) : List Json → List String
  | [] => []
  | j :: js => (indentation level ++ writePretty level j) :: writePrettyItems level js

def writePrettyFields (level : Nat) : List (String × Json) → List String
  | [] => []
  | (name, j) :: fs =>
    (indentation level ++ writeString name ++ ": " ++ writePretty level j) ::
      writePrettyFields level fs

end

end SemanticLayer.Json
