import SemanticLayer.Toml.Value

/-!
# TOML documents

A document is a sequence of headers and pairs.  A table may be mentioned in the headers of its
subtables before its own header, which then stands at most once; a table made by dotted keys
takes no header; and a value is never extended.
-/

namespace SemanticLayer.Toml

/-- A line of a document. -/
inductive Statement where
  /-- The pairs that follow belong to this table. -/
  | table (path : List String)
  /-- The pairs that follow belong to a new last table of this array. -/
  | tableInArray (path : List String)
  | pair (path : List String) (value : Toml)

/-- A document under construction. -/
inductive Node where
  | leaf (value : Toml)
  /-- A table, with whether only other tables' headers mention it, and whether dotted keys made
  it. -/
  | table (isImplicit isDotted : Bool) (entries : List (String × Node))
  | array (tables : List (List (String × Node)))

namespace Node

abbrev Entries := List (String × Node)

def find? (es : Entries) (key : String) : Option Node := (es.find? fun e => e.1 = key).map (·.2)

/-- Changes the table under a path and makes tables on the way.  Of an array of tables the last
one is meant.  Dotted keys do not lead into tables with a header of their own. -/
def within (dotted : Bool) (change : Bool → Entries → Option Entries) :
    List String → Bool → Entries → Option Entries
  | [], isDotted, es => change isDotted es
  | key :: path, _, es =>
    match find? es key with
    | none => do
      let inner ← within dotted change path dotted []
      return storeIncreasing key (.table true dotted inner) es
    | some (.leaf _) => none
    | some (.table isImplicit isDotted inner) =>
      if dotted && !isImplicit then none
      else (within dotted change path isDotted inner).map fun inner =>
        storeIncreasing key (.table isImplicit isDotted inner) es
    | some (.array tables) =>
      match tables.getLast? with
      | none => none
      | some inner => (within dotted change path false inner).map fun inner =>
        storeIncreasing key (.array (tables.dropLast ++ [inner])) es

/-- Adds a new value.  A dotted key ends in a table that dotted keys made. -/
def addPair (path : List String) (value : Toml) : Entries → Option Entries :=
  let change (isDotted : Bool) (es : Entries) : Option Entries :=
    match path.getLast? with
    | none => none
    | some key =>
      if isDotted == path.dropLast.isEmpty || (find? es key).isSome then none
      else some (storeIncreasing key (.leaf value) es)
  within true change path.dropLast false

/-- Opens a table for the pairs after its header. -/
def openTable (key : String) (es : Entries) : Option Entries :=
  match find? es key with
  | none => some (storeIncreasing key (.table false false []) es)
  | some (.table true false inner) => some (storeIncreasing key (.table false false inner) es)
  | some _ => none

/-- Opens a new last table of an array. -/
def openTableInArray (key : String) (es : Entries) : Option Entries :=
  match find? es key with
  | none => some (storeIncreasing key (.array [[]]) es)
  | some (.array tables) => some (storeIncreasing key (.array (tables ++ [[]])) es)
  | some _ => none

/-- Opens what a header names, in the table that the header's path leads to. -/
def openPath (open_ : String → Entries → Option Entries) (path : List String) (es : Entries) :
    Option Entries := do
  let key ← path.getLast?
  within false (fun _ => open_ key) path.dropLast false es

mutual

def toToml : Node → Toml
  | .leaf v => v
  | .table _ _ es => .table (entriesToToml es)
  | .array ts => .array (tablesToToml ts)

def entriesToToml : List (String × Node) → List (String × Toml)
  | [] => []
  | (k, n) :: es => (k, n.toToml) :: entriesToToml es

def tablesToToml : List (List (String × Node)) → List Toml
  | [] => []
  | es :: ts => .table (entriesToToml es) :: tablesToToml ts

end

/-- The table of an inline table's pairs. -/
def inlineTable? (pairs : List (List String × Toml)) : Option Toml :=
  (pairs.foldlM (fun es (path, v) => addPair path v es) []).map fun es => .table (entriesToToml es)

/-- Adds a statement to a document whose last header has a path. -/
def addStatement (state : List String × Entries) : Statement → Option (List String × Entries)
  | .table path => (openPath openTable path state.2).map (path, ·)
  | .tableInArray path => (openPath openTableInArray path state.2).map (path, ·)
  | .pair path v =>
    (within false (fun _ => addPair path v) state.1 false state.2).map (state.1, ·)

end Node

/-- The table that a document stands for, if its statements go together. -/
def ofStatements? (statements : List Statement) : Option Toml :=
  (statements.foldlM Node.addStatement ([], [])).map fun (_, es) => .table (Node.entriesToToml es)

end SemanticLayer.Toml
