import SemanticLayer.Json.Value

/-!
# Reading typed values from JSON

A decoder takes a JSON value or says what is wrong with it.  The fields of a record are read in
the order of their names, and missing fields are reported after all present ones are read, so of
several faults the first in that order is the answer.  A record may also be given as the list of
its fields in their declared order.
-/

namespace SemanticLayer

/-- Why a JSON value is not what it should be. -/
inductive DecodeError where
  /-- A missing field, a value of the wrong type, an unknown name. -/
  | malformed
  /-- A well-formed value that breaks a rule of its type. -/
  | rejected (reason : String)
  deriving DecidableEq, Inhabited

abbrev Decoder (α : Type) := Json → Except DecodeError α

namespace Decode

variable {α β : Type}

def string : Decoder String
  | .str s => .ok s
  | _ => .error .malformed

def bool : Decoder Bool
  | .bool b => .ok b
  | _ => .error .malformed

/-- A whole number of 64 bits without sign. -/
def unsigned : Decoder UInt64
  | .int n => if 0 ≤ n ∧ n < UInt64.size then .ok (UInt64.ofNat n.toNat) else .error .malformed
  | _ => .error .malformed

def any : Decoder Json := .ok

/-- Null stands for no value. -/
def nullable (d : Decoder α) : Decoder (Option α)
  | .null => .ok none
  | j => (d j).map some

def list (d : Decoder α) : Decoder (List α)
  | .arr items => items.mapM d
  | _ => .error .malformed

def pair (d : Decoder α) (e : Decoder β) : Decoder (α × β)
  | .arr [a, b] => do return (← d a, ← e b)
  | _ => .error .malformed

/-- One of a fixed set of names, alone or as the only key of an object whose value is null. -/
def oneOf (names : List (String × α)) : Decoder α := fun j =>
  let find (name : String) : Except DecodeError α :=
    match names.find? fun n => n.1 = name with
    | some n => .ok n.2
    | none => .error .malformed
  match j with
  | .str name => find name
  | .obj [(name, .null)] => find name
  | _ => .error .malformed

/-- An object as a list of entries by increasing key. -/
def entries (d : Decoder α) : Decoder (List (String × α))
  | .obj fields => fields.mapM fun f => (d f.2).map fun a => (f.1, a)
  | _ => .error .malformed

/-- The fields of a record. -/
abbrev Fields := List (String × Json)

/-- A record with the given field names. -/
def record (names : List String) : Decoder Fields
  | .obj fields => .ok fields
  | .arr items => if items.length ≤ names.length then .ok (names.zip items) else .error .malformed
  | _ => .error .malformed

/-- A field's value; none where the field is missing. -/
def Fields.get? (fs : Fields) (name : String) (d : Decoder α) : Except DecodeError (Option α) :=
  match fs.find? fun f => f.1 = name with
  | none => .ok none
  | some f => (d f.2).map some

/-- A field that may be missing or null. -/
def Fields.getNullable (fs : Fields) (name : String) (d : Decoder α) :
    Except DecodeError (Option α) :=
  (fs.get? name (nullable d)).map Option.join

/-- A field with a default; null is not a value of it. -/
def Fields.getD (fs : Fields) (name : String) (d : Decoder α) (default : α) :
    Except DecodeError α :=
  (fs.get? name d).map (·.getD default)

/-- Demands that a field was there. -/
def present : Option α → Except DecodeError α
  | some a => .ok a
  | none => .error .malformed

/-- A value whose own rule has failed or held; a failure carries its text. -/
def checked {ε : Type} (message : ε → String) : Except ε α → Except DecodeError α
  | .ok a => .ok a
  | .error e => .error (.rejected (message e))

end Decode

end SemanticLayer
