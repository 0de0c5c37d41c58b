import SemanticLayer.Blend.Compilation
import SemanticLayer.Json.Parser
import SemanticLayer.Json.Printer
import SemanticLayer.Settings.Definition

/-!
# Command line

Compiles a request to SQL, checks a formula, or lists the taxons of a catalog.
-/

namespace SemanticLayer.CommandLine

def usage : String :=
  "usage: compile --request FILE --fixtures FILE [--dialect NAME] [--settings FILE]\n" ++
  "       check FORMULA [--fixtures FILE]\n" ++
  "       taxons --fixtures FILE [--settings FILE]"

/-- The value after a flag. -/
def flag? (names : List String) : List String → Option String
  | flag :: value :: rest => if flag ∈ names then some value else flag? names (value :: rest)
  | _ => none

def requestFlag : List String := ["--request", "-r"]

def fixturesFlag : List String := ["--fixtures", "-f"]

def dialectFlag : List String := ["--dialect", "-d"]

def settingsFlag : List String := ["--settings", "-s"]

/-- Why a command fails. -/
abbrev Command (α : Type) := ExceptT String IO α

def fail {α : Type} (message : String) : Command α := throw message

def ofResult {α : Type} (r : Result α) : Command α :=
  match r with
  | .ok a => pure a
  | .error e => fail ("Error: " ++ e.message)

/-- The value of a flag that has to be given. -/
def demand (names : List String) (args : List String) : Command String :=
  match flag? names args with
  | some v => pure v
  | none => fail usage

def readJson (path : String) : Command Json := do
  match Json.parse? (← IO.FS.readFile path) with
  | some j => return j
  | none => fail ("Error: " ++ (Error.unreadable .malformed).message)

def readCatalog (args : List String) : Command Catalog := do
  ofResult (Catalog.ofJson (← readJson (← demand fixturesFlag args)))

/-- Reads settings, looking up each variable that their text turns out to need. -/
partial def settingsOf (env : Environment) (text : String) : Command Settings := do
  match Settings.ofToml env text with
  | .ok s => return s
  | .error (.missingVariable name) =>
    match ← IO.getEnv name with
    | some value => settingsOf (env.insert name value) text
    | none => fail ("Configuration error: " ++ (SettingsError.missingVariable name).message)
  | .error e => fail ("Configuration error: " ++ e.message)

/-- The settings of the given file, or else the defaults. -/
def settings (args : List String) : Command Settings := do
  match flag? settingsFlag args with
  | some path => settingsOf .empty (← IO.FS.readFile path)
  | none => return .default

def dialectOr (args : List String) (default : Sql.Dialect) : Command Sql.Dialect :=
  match flag? dialectFlag args with
  | none => pure default
  | some name =>
    match Sql.Dialect.ofName? name with
    | some d => pure d
    | none => fail ("Error: " ++ (Error.unsupportedDialect name).message)

def compile (args : List String) : Command String := do
  let options := (← settings args).options
  let catalog ← readCatalog args
  let request ← ofResult
    ((BlendRequest.ofJson (← readJson (← demand requestFlag args))).mapError Error.unreadable)
  let dialect ← dialectOr args options.dialect
  return (← ofResult (catalog.compile { options with dialect } request)).text

def check (formula : String) (args : List String) : Command String := do
  let _ ← ofResult (Formula.parse formula)
  if (flag? fixturesFlag args).isNone then return "OK: syntax is valid"
  let taxons := (← readCatalog args).taxons
  let ctx : Formula.Context := { Formula.Context.ofTaxons taxons with slug := "check" }
  let outcome ← ofResult (Formula.renderTaxon ctx formula)
  return "OK: valid, evaluated in phase " ++ outcome.phase.name

def taxons (args : List String) : Command String := do
  let settings ← settings args
  let taxons := (← readCatalog args).taxons
  let done ← ofResult
    ((Resolver.ofTaxons taxons).completeFacts settings.options.useFallback taxons)
  let json := Json.arr (done.values.map Taxon.toJson)
  return if settings.isPretty then json.writePretty 0 else json.write

def run : List String → Command String
  | "compile" :: args => compile args
  | "check" :: formula :: args => check formula args
  | "taxons" :: args => taxons args
  | _ => fail usage

end SemanticLayer.CommandLine

/-- Answers on standard output; failures go to standard error. -/
def main (args : List String) : IO UInt32 := do
  match ← (SemanticLayer.CommandLine.run args).run with
  | .ok text =>
    IO.println text
    return 0
  | .error message =>
    IO.eprintln message
    return 1
