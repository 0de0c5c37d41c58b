import SemanticLayer.Formula.Typing

/-!
# Validation of formulas

A formula is valid if walking over it adds no fault.  The walk carries the faults found so far,
as some rules are held against a node only while there are none.
-/

namespace SemanticLayer.Formula

/-- The faults found so far, in order. -/
abbrev Faults := List LocatedFault

namespace Faults

def add (fs : Faults) (fault : Fault) (place : Location) : Faults := fs ++ [⟨fault, place⟩]

def addIf (fs : Faults) (broken : Bool) (fault : Fault) (place : Location) : Faults :=
  if broken then fs.add fault place else fs

end Faults

/-! ### Names of time zones -/

namespace Timezone

def isNameChar (c : Char) : Bool := c.isAlphanum

def isSeparator (c : Char) : Bool := c = '/' || c = '_' || c = '+' || c = '-'

/-- Words with one separator between each two. -/
def isName : Bool → List Char → Bool
  | inWord, [] => inWord
  | inWord, c :: cs =>
    if isNameChar c then isName true cs
    else inWord && isSeparator c && isName false cs

/-- Letters and digits, in words joined by separators, with a letter at the start. -/
def isValid (s : String) : Bool :=
  match s.toList with
  | [] => false
  | c :: cs => c.isAlpha && isName true cs

end Timezone

/-- The units a moment can be cut down to. -/
def truncationUnits : List String := ["HOUR", "DAY", "WEEK", "MONTH"]

/-- What the rules on an argument look at. -/
structure Argument where
  phase : Phase
  type : ValueType
  isMissing : Bool
  constant? : Option Constant
  dataSources : DataSources
  /-- Whether it is a plain boolean. -/
  isBool : Bool
  place : Location

def Argument.of (ctx : Context) (n : Node) : Argument :=
  { phase := n.phase ctx, type := n.type ctx, isMissing := n.isMissing ctx,
    constant? := n.constant?, dataSources := n.dataSources, isBool := n.asBool?.isSome,
    place := n.place }

namespace Parameter

/-- Holds the phase of an argument against the parameter. -/
def checkPhase (p : Parameter) (f : String) (position : Nat) (a : Argument) (fs : Faults) :
    Faults :=
  fs.addIf (!p.phases.contains a.phase) (.argumentPhase position f p.phases) a.place

/-- Holds the type, the constancy and the phase of an argument against the parameter. -/
def checkTyped (p : Parameter) (f : String) (position : Nat) (check : TypeCheck) (a : Argument)
    (fs : Faults) : Faults :=
  p.checkPhase f position a
    (if p.isConstant && !a.type.isConstant then
      fs.add (.argumentNotConstant position f check) a.place
    else fs.addIf (!check.accepts a.type) (.argumentType position f check) a.place)

/-- Holds arguments from a position on against the parameter. -/
def checkEach (p : Parameter) (f : String) (check : TypeCheck) (position : Nat) :
    List Argument → Faults → Faults
  | [], fs => fs
  | a :: as, fs => checkEach p f check (position + 1) as (p.checkTyped f position check a fs)

/-- Holds the selected arguments against the parameter.  Of a compatible list the phases matter
only where the types do not go together. -/
def check (p : Parameter) (f : String) (place : Location) (position : Nat) (args : List Argument)
    (fs : Faults) : Faults :=
  match p.kind, args with
  | .typed c, a :: _ => p.checkTyped f position c a fs
  | .any, a :: _ => p.checkPhase f position a fs
  | .typedList c, as => p.checkEach f c position as fs
  | .compatibleList, as =>
    if ValueType.areCompatible (as.map (·.type)) then fs
    else as.foldl (fun fs a => p.checkPhase f position a fs)
      (fs.add (.incompatibleArguments f) place)
  | _, [] => fs

/-- Holds the arguments of a call against its parameters from a position on.  A parameter that
must be there and finds nothing is a fault. -/
def checkAll (f : String) (place : Location) (args : List Argument) (position : Nat) :
    List Parameter → Faults → Faults
  | [], fs => fs
  | p :: ps, fs =>
    let selected := p.select position args
    checkAll f place args (position + 1) ps
      (if selected.isEmpty then fs.addIf (!p.isOptional) (.missingArgument position f) place
      else p.check f place position selected fs)

/-- How many arguments the parameters from a position on take. -/
def taken {α : Type} (args : List α) (position : Nat) : List Parameter → Nat
  | [] => 0
  | p :: ps => (p.select position args).length + taken args (position + 1) ps

end Parameter

namespace Function

/-- Holds the arguments of a call against its parameters, if there are enough of them. -/
def checkParameters (f : Function) (place : Location) (args : List Argument) (fs : Faults) :
    Faults :=
  let ps := f.parameters args.length
  let required := (ps.filter fun p => !p.isOptional).map (·.name)
  let optional := (ps.filter (·.isOptional)).map (·.name)
  if args.length < required.length then
    fs.add (.tooFewArguments f.name required optional args.length) place
  else
    let taken := Parameter.taken args 0 ps
    (Parameter.checkAll f.name place args 0 ps fs).addIf (taken ≠ args.length)
      (.argumentCount f.name args.length taken) place

/-- The data sources named by several arguments, in the order of their first appearance. -/
def repeatedSources (args : List Argument) : List String :=
  let sources := args.flatMap (·.dataSources.toList)
  (sources.eraseDups.filter fun s => 1 < sources.count s).map (·.getD "global")

def checkTimezones (position : Nat) : List Argument → Faults → Faults
  | [], fs => fs
  | a :: as, fs =>
    let name? := a.constant?.bind Constant.text?
    checkTimezones (position + 1) as
      (fs.addIf (!name?.any Timezone.isValid) (.timezoneName position) a.place)

/-- The rules of single functions that come before those on the parameters.  None where the call
is not looked at any further. -/
def checkOwn (f : Function) (place : Location) (args : List Argument) (fs : Faults) :
    Faults × Bool :=
  match f, args with
  | .concat, _ =>
    (fs.addIf (1 < (SortedSet.unions (args.map (·.dataSources))).size) .concatSources place, true)
  | .merge, _ =>
    let repeated := repeatedSources args
    (fs.addIf (!repeated.isEmpty) (.mergedTwice repeated) place, true)
  | .convertTimezone, _ => (checkTimezones 1 (args.drop 1) fs, true)
  | .dateTrunc, _ =>
    let unit? := args[1]?.bind (·.constant?)
    let supported := (unit?.bind Constant.text?).any truncationUnits.contains
    (fs.addIf (!supported)
      (.timeUnit f.name ((unit?.map Constant.description).getD "None") truncationUnits) place, true)
  | .toDate, [a] =>
    if a.type.isNumber then (fs, true) else (fs.add (.dateFormatMissing f.name) a.place, false)
  | .toDate, a :: format :: _ =>
    if a.type.isNumber then (fs.add (.dateFormatOfNumber f.name) format.place, false) else (fs, true)
  | .override, _ :: _ :: flag :: _ => (fs.addIf (!flag.isBool) (.flagNotConstant f.name) flag.place, true)
  | _, _ => (fs, true)

/-- Tests and outcomes of a condition must be computable together, and the outcomes alike. -/
def checkCondition (f : Function) (place : Location) (args : List Argument) (fs : Faults) :
    Faults :=
  let phases (as : List Argument) : List Phase :=
    (as.filter fun a => !a.isMissing).map (·.phase)
  let tests := phases (Condition.tests args)
  let outcomes := phases (Condition.outcomes args)
  let latest := Phase.latestOf outcomes
  ((fs.addIf (outcomes.any (·.isDimension) && outcomes.any (·.isMetric)) (.mixedOutcomes f.name)
        place
    |>.addIf (tests.any (·.isMetric) && latest.isDimension) (.metricCondition f.name) place)
    |>.addIf (tests.any (·.isDimension) && latest = .metricPost) (.dimensionCondition f.name) place)
    |>.addIf ((f.type (args.map (·.type))).data = .unknown) (.incompatibleOutcomes f.name) place

/-- Whether a call compares moments of several data sources. -/
def mixesSources (f : Function) (args : List Argument) : Bool :=
  f = .dateDiff && 1 < (DataSources.named (SortedSet.unions (args.map (·.dataSources)))).size

end Function

namespace Node

def checkUse (ctx : Context) (u : TaxonUse) (place : Location) (fs : Faults) : Faults :=
  if u.isOptional then fs
  else (fs.addIf (!u.isAllowed ctx) (.requiredTaxonOutOfScope u.slug) place).addIf
    u.taxon?.isNone (.taxonNotFound u.slug) place

/-- An operand of a numeric operation must be a number unless it is missing. -/
def checkOperand (ctx : Context) (op : Operator) (position : Nat) (n : Node) (fs : Faults) :
    Faults :=
  fs.addIf (!n.isMissing ctx && !(n.type ctx).isNumber) (.operandNotNumber position op.description)
    n.place

/-- The rules on a whole formula. -/
def checkRoot (ctx : Context) (n : Node) (place : Location) (fs : Faults) : Faults :=
  let phase := n.phase ctx
  let fs :=
    if ctx.subrequestOnly && !(phase ≤ .dimension) then fs.add .notForSubrequest place
    else fs.addIf (phase.isMetric && ctx.type ≠ .metric) (.metricCalculation ctx.type) place
  fs.addIf (n.aggregation? ctx).isNone .unknownAggregation place

mutual

/-- Adds the faults of a node to those found so far. -/
def check (ctx : Context) : Node → Faults → Faults
  | .integer .., fs => fs
  | .decimal .., fs => fs
  | .text .., fs => fs
  | .bool .., fs => fs
  | .column .., fs => fs
  | .paren n _, fs => n.check ctx fs
  | .taxon u place, fs => checkUse ctx u place fs
  | .attribute u _ place, fs => checkUse ctx u place fs
  | .computed u n place, fs => checkUse ctx u place (n.check ctx fs)
  | .binary op l r place, fs =>
    let fs := r.check ctx (l.check ctx fs)
    if op.isNumeric then
      if fs.isEmpty then checkOperand ctx op 2 r (checkOperand ctx op 1 l fs) else fs
    else fs.addIf (!ValueType.areCompatible [l.type ctx, r.type ctx]) .incompatibleOperands place
  | .not n place, fs =>
    (n.check ctx fs).addIf (!(n.type ctx).isBoolean) .negatedOperandNotBoolean place
  | .isNull n _ _, fs => n.check ctx fs
  | .call f args _ place, fs =>
    let as := args.map (Argument.of ctx)
    match f.checkOwn place as fs with
    | (fs, false) => fs
    | (fs, true) =>
      let fs := f.checkParameters place as fs
      let fs := if f.isCondition then f.checkCondition place as fs else fs
      if f.worksIn ctx.setting then
        let fs := checkEach ctx args fs
        fs.addIf (fs.isEmpty && f.mixesSources as) .dateDifferenceSources place
      else fs.add (.unsupportedDialect ctx.setting.name f.name) place
  | .transition _ n _ _ _, fs => n.check ctx fs
  | .root n place, fs =>
    let fs := n.check ctx fs
    if fs.isEmpty then checkRoot ctx n place fs else fs

def checkEach (ctx : Context) : List Node → Faults → Faults
  | [], fs => fs
  | n :: ns, fs => checkEach ctx ns (n.check ctx fs)

end

/-- The faults of a formula. -/
def faults (ctx : Context) (n : Node) : Faults := n.check ctx []

end Node

end SemanticLayer.Formula
