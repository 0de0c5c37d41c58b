import SemanticLayer.Formula.Evaluation
import SemanticLayer.Model.Kind

/-!
# Models

A model is a physical table of one data source.  Its attributes say how taxons are computed from
its columns, and from each other; its joins say which models can be read together with it.
-/

namespace SemanticLayer

/-- A taxon of a model and the formula that computes it. -/
structure ModelAttribute where
  taxon : String
  isIdentifier : Bool
  formula : String
  quantity : QuantityType
  deriving DecidableEq

def ModelAttribute.of (taxon formula : String) : ModelAttribute := ⟨taxon, false, formula, .scalar⟩

/-- A join that a model declares with another one. -/
structure ModelJoin where
  kind : Sql.JoinKind
  relationship : Relationship
  direction? : Option JoinDirection
  target : String
  /-- The taxons that both models are joined on. -/
  taxons : List String
  deriving DecidableEq

def ModelJoin.direction (j : ModelJoin) : JoinDirection :=
  j.direction?.getD (.defaultFor j.relationship)

structure Model where
  name : String
  /-- Attributes by name; they are looked up by taxon. -/
  attributes : SortedMap String ModelAttribute
  joins : List ModelJoin
  /-- The data source of the model; exactly one in a valid model. -/
  dataSources : List String
  type? : Option ModelType
  visibility : Visibility
  company : String
  project? : Option String
  /-- The parts of the table's name. -/
  table : List String
  physicalSource? : Option String
  deriving DecidableEq

namespace Model

/-- The shortest name of a model. -/
def minNameLength : Nat := 3

def validate (m : Model) : Result Unit :=
  if m.name.length < minNameLength then .error (.invalidRequest (.shortModelName m.name))
  else if m.dataSources.length ≠ 1 then .error (.invalidRequest (.modelDataSources m.name))
  else .ok ()

def dataSource (m : Model) : String := m.dataSources.headD ""

/-- The connection that holds the table. -/
def physicalSource (m : Model) : String := m.physicalSource?.getD m.dataSource

def attribute? (m : Model) (taxon : String) : Option ModelAttribute :=
  m.attributes.values.find? fun a => a.taxon = taxon

def hasTaxon (m : Model) (taxon : String) : Bool := (m.attribute? taxon).isSome

def taxons (m : Model) : NameSet := .ofList (m.attributes.values.map (·.taxon))

/-- Adds an attribute under its taxon's name, in place of all for the same taxon. -/
def addAttribute (m : Model) (a : ModelAttribute) : Model :=
  { m with attributes := (m.attributes.filter fun _ b => b.taxon ≠ a.taxon).insert a.taxon a }

/-- The attributes that identify a row. -/
def identifiers (m : Model) : List ModelAttribute :=
  m.attributes.values.filter (·.isIdentifier)

/-- The slug of a time in the model's data source. -/
def ownSlug (m : Model) (name : String) : String := Slug.inDataSource m.dataSource name

/-- Hours or days, by the times that the model has. -/
def granularity? (m : Model) : Option TimeGranularity :=
  if m.hasTaxon (m.ownSlug "date_hour") then some .hour
  else if m.hasTaxon (m.ownSlug "date") then some .day
  else none

/-- The name of the table within a query. -/
def tableAlias (m : Model) : String := Identifier.safe m.name

def tableRef (m : Model) : Sql.TableRef :=
  (Sql.TableRef.qualified (if m.table.isEmpty then [m.name] else m.table)).withAlias m.tableAlias

/-- The taxon that a reference within the model means: one of the data source that the model
lacks may be a taxon of no data source. -/
def referenced (m : Model) (slug : String) : String :=
  if !m.hasTaxon slug && Slug.dataSource? slug = some m.dataSource &&
      m.hasTaxon (Slug.localName slug) then
    Slug.localName slug
  else slug

def context (m : Model) : Formula.Context :=
  { Formula.Context.ofTaxons .empty with modelTable? := some m.name }

/-- The SQL of the attribute for a taxon, with so many levels of references. -/
def attributeSql (m : Model) : Nat → String → Result Sql.Expr
  | 0, _ => .error (.referenceDepth Formula.referenceLimit)
  | depth + 1, taxon =>
    match m.attribute? taxon with
    | none => .error (.invalidRequest (.attributeNotFound taxon m.name))
    | some a => do
      let scope : Formula.ModelScope :=
        ⟨m.dataSource, fun slug => attributeSql m depth (m.referenced slug)⟩
      return (← Formula.renderAttribute m.context scope a.formula).sql

/-- The model as a formula that stands in none of its attributes sees it. -/
def scope (m : Model) : Formula.ModelScope :=
  ⟨m.dataSource, fun slug => m.attributeSql (Formula.referenceLimit - 1) (m.referenced slug)⟩

/-- The SQL that reads a taxon, arrays as text where asked for. -/
def taxonSql (m : Model) (taxon : String) (arraysAsText : Bool) : Result Sql.Expr := do
  let sql ← m.attributeSql Formula.referenceLimit taxon
  let isArray := (m.attribute? taxon).any fun a => a.quantity = .array
  return if arraysAsText && isArray then .cast sql .text else sql

end Model

end SemanticLayer
