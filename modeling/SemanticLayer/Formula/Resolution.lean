import SemanticLayer.Formula.Scope

/-!
# From trees to nodes

A tree becomes a node by looking up its functions and taxons.  A computed taxon is expanded into
its own calculation, to a limited depth and never inside itself; an attribute of a model is
looked up in the model.
-/

namespace SemanticLayer.Formula

/-- References deeper than this are refused. -/
def referenceLimit : Nat := 10

/-- The model whose attribute a formula defines. -/
structure ModelScope where
  dataSource : String
  /-- The SQL of the attribute for a taxon. -/
  sqlOf : String → Result Sql.Expr

/-- The place of a byte in a formula's text. -/
def Location.at (text : String) (offset : Nat) : Location :=
  ⟨(charsBefore offset text.toList).length + 1, lineAt text offset, text⟩

def TaxonRef.toUse (r : TaxonRef) (ctx : Context) (optional : Bool) : TaxonUse :=
  ⟨r.slug, r.dataSource?, ctx.taxons.get? r.slug, r.optional || optional⟩

/-- The attribute's taxon; one without a data source is of the model's own. -/
def ModelScope.slugOf (m : ModelScope) (slug : String) : String :=
  match Slug.dataSource? slug with
  | some _ => slug
  | none => Slug.inDataSource m.dataSource slug

namespace Node

/-- A call; some functions leave out missing arguments. -/
def ofCall (ctx : Context) (f : Function) (args : List Node) (place : Location) : Node :=
  .call f (if f.dropsMissing then args.filter fun n => !n.isMissing ctx else args)
    (f = .merge && ctx.isSingleSource) place

mutual

/-- The node of a tree, with `lookup` for its taxons. -/
def ofTree (ctx : Context) (text : String) (lookup : TaxonRef → Location → Result Node) :
    Tree → Result Node
  | .integer n s => return .integer n (.at text s.start)
  | .float x s => return .decimal x (.at text s.start)
  | .bool b s => return .bool b (.at text s.start)
  | .singleQuoted t s => return .text t (.at text s.start)
  | .doubleQuoted t s =>
    return match ctx.setting with
      | .taxon => .text t (.at text s.start)
      | .model => .column t (.at text s.start)
  | .taxon r s => lookup r (.at text s.start)
  | .call name args s =>
    match Function.ofName? name with
    | none => throw (.invalidFormula [⟨.unknownFunction name, .at text s.start⟩])
    | some f => return ofCall ctx f (← ofTrees ctx text lookup args) (.at text s.start)
  | .paren t s => return .paren (← ofTree ctx text lookup t) (.at text s.start)
  | .binary op l r s =>
    return .binary op (← ofTree ctx text lookup l) (← ofTree ctx text lookup r) (.at text s.start)
  | .not t s => return .not (← ofTree ctx text lookup t) (.at text s.start)
  | .isNull t negated s => return .isNull (← ofTree ctx text lookup t) negated (.at text s.start)

def ofTrees (ctx : Context) (text : String) (lookup : TaxonRef → Location → Result Node) :
    List Tree → Result (List Node)
  | [] => return []
  | t :: ts => return (← ofTree ctx text lookup t) :: (← ofTrees ctx text lookup ts)

end

/-- Looks a taxon up in the taxonomy.  The calculation of a computed one is read by `expand`,
unless it is being read already. -/
def lookupTaxon (ctx : Context) (optional : Bool) (expanding : List String)
    (expand : Bool → List String → String → Result Node) (r : TaxonRef) (place : Location) :
    Result Node :=
  let use := r.toUse ctx optional
  match use.taxon?.bind Taxon.calculation? with
  | none => .ok (.taxon use place)
  | some calculation =>
    if use.slug = ctx.slug || expanding.contains use.slug then .error (.cyclicReference use.slug)
    else (expand use.isOptional (expanding ++ [use.slug]) calculation).map (.computed use · place)

/-- Reads a calculation from which so many levels of references may still be followed.  Within an
optional reference every reference is optional. -/
def ofCalculation (ctx : Context) : Nat → Bool → List String → String → Result Node
  | 0, _, _, formula => do
    let _ ← parse formula
    throw (.referenceDepth referenceLimit)
  | depth + 1, optional, expanding, formula => do
    let tree ← parse formula
    ofTree ctx formula (lookupTaxon ctx optional expanding (ofCalculation ctx depth)) tree

def lookupAttribute (ctx : Context) (m : ModelScope) (r : TaxonRef) (place : Location) :
    Result Node :=
  (m.sqlOf (m.slugOf r.slug)).map fun sql => .attribute (r.toUse ctx false) sql place

/-- The node of a formula in its setting. -/
def ofFormula (ctx : Context) (model? : Option ModelScope) (text : String) : Result Node :=
  match model? with
  | none => ofCalculation ctx (referenceLimit - 1) false [] text
  | some m => do
    let tree ← parse text
    ofTree ctx text (lookupAttribute ctx m) tree

/-- The node of a whole formula. -/
def rootOfFormula (ctx : Context) (model? : Option ModelScope) (text : String) : Result Node :=
  (ofFormula ctx model? text).map fun n => .root n n.place

end Node

end SemanticLayer.Formula
