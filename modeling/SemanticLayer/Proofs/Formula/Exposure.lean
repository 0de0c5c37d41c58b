import SemanticLayer.Proofs.Formula.Evaluability
import SemanticLayer.Proofs.Sql.Names

/-!
# Where placeholders show

A dimension of one data source is a placeholder until a move makes it a column of the whole
request.  A plan does not make that move everywhere, so a placeholder may reach a stage that cannot
fill it in.

* `Exposure`: what is seen of a fragment if only the placeholders in its SQL are looked at;
* `exposure_map`, `exposure_combine`: what is seen of a changed fragment, and of several in one;
* `exposure_evaluateCall`: what is seen of a call follows from what is seen of its arguments.
-/

namespace SemanticLayer.Formula

open Sql (Expr)

/-- The placeholders of a fragment, and whether one has escaped to a formula that it carries. -/
structure Exposure where
  names : List String
  template? : Option (List String)
  escapes : Bool
  isLabelled : Bool

namespace Exposure

def ofNames (names : List String) : Exposure := ⟨names, none, false, false⟩

def templateOrNames (e : Exposure) : List String := e.template?.getD e.names

/-- The placeholders of SQL made of some parts, of which some are counted. -/
def join (parts counted : List Exposure) : Exposure :=
  ⟨parts.flatMap names, some (parts.flatMap templateOrNames), counted.any escapes, false⟩

/-- The placeholders stay when the SQL is changed around them. -/
def changed (e : Exposure) : Exposure := { e with template? := some e.templateOrNames }

/-- Whether no placeholder is left at the end but that for the dimensions of the request. -/
def isSealed (e : Exposure) : Bool :=
  !e.escapes && (e.isLabelled || e.names.isEmpty) &&
    e.template?.all fun names => names.all (· = dimensionsPlaceholder)

end Exposure

/-- Whether a formula of a stage over all data sources has a placeholder. -/
def PreFormula.escapes (f : PreFormula) : Bool := !f.formula.placeholders.isEmpty

/-- Whether a template has a placeholder that is not known to be filled in. -/
def SourceTemplate.escapes (t : SourceTemplate) : Bool :=
  !t.template.placeholders.all t.used.contains

namespace Fragment

def escapes (r : Fragment) : Bool :=
  r.aggregations.any PreFormula.escapes || r.dimensionFormulas.any PreFormula.escapes ||
    r.sourceTemplates.any SourceTemplate.escapes

def exposure (r : Fragment) : Exposure :=
  ⟨r.sql.placeholders, r.template?.map Expr.placeholders, r.escapes, r.label?.isSome⟩

@[simp] theorem exposure_names (r : Fragment) : r.exposure.names = r.sql.placeholders := rfl

@[simp] theorem exposure_escapes (r : Fragment) : r.exposure.escapes = r.escapes := rfl

@[simp] theorem exposure_templateOrNames (r : Fragment) :
    r.exposure.templateOrNames = r.templateOrSql.placeholders := by
  unfold Exposure.templateOrNames templateOrSql exposure
  cases r.template? <;> rfl

theorem exposure_ofSql (sql : Expr) : (ofSql sql).exposure = .ofNames sql.placeholders := rfl

theorem exposure_with (r : Fragment) (sql : Expr) (template? : Option Expr) :
    { r with sql, template? }.exposure =
      { r.exposure with names := sql.placeholders, template? := template?.map Expr.placeholders } :=
  rfl

theorem flatMap_names (rs : List Fragment) :
    (rs.map exposure).flatMap Exposure.names = (rs.map (·.sql)).flatMap Expr.placeholders := by
  rw [List.flatMap_map, List.flatMap_map]
  rfl

theorem flatMap_templateOrNames (rs : List Fragment) :
    (rs.map exposure).flatMap Exposure.templateOrNames =
      (rs.map templateOrSql).flatMap Expr.placeholders := by
  rw [List.flatMap_map, List.flatMap_map]
  exact List.flatMap_congr fun r _ => exposure_templateOrNames r

theorem any_escapes (rs : List Fragment) :
    (rs.map exposure).any Exposure.escapes = rs.any escapes := by
  rw [List.any_map]
  rfl

theorem exposure_map {f : Expr → Expr} (hf : ∀ e, (f e).placeholders = e.placeholders)
    (r : Fragment) : (r.map f).exposure = r.exposure.changed := by
  unfold map Exposure.changed
  rw [exposure_templateOrNames]
  simp only [exposure, Option.map_some, hf]
  rfl

theorem escapes_collect (r s : Fragment) : (r.collect s).escapes = (r.escapes || s.escapes) := by
  unfold collect escapes
  simp only [List.any_append]
  ac_rfl

theorem foldl_collect (r : Fragment) (rs : List Fragment) :
    (rs.foldl collect r).exposure =
      { r.exposure with escapes := r.escapes || rs.any escapes } := by
  induction rs generalizing r with
  | nil => simp [exposure]
  | cons s rs ih =>
    rw [List.foldl_cons, ih, escapes_collect, List.any_cons, Bool.or_assoc]
    rfl

/-- New SQL with what the counted fragments need. -/
theorem exposure_gathered (sql template : Expr) (counted : List Fragment) :
    (counted.foldl collect { ofSql sql with template? := some template }).exposure =
      ⟨sql.placeholders, some template.placeholders, counted.any escapes, false⟩ := by
  have start : ({ ofSql sql with template? := some template } : Fragment).escapes = false := rfl
  rw [foldl_collect, start, Bool.false_or]
  rfl

theorem exposure_combine {f : List Expr → Expr} {parts : List Fragment}
    (hf : ∀ es, es.length = parts.length → (f es).placeholders = es.flatMap Expr.placeholders)
    (counted : List Fragment) :
    (combine f parts counted).exposure = .join (parts.map exposure) (counted.map exposure) := by
  unfold combine Exposure.join
  rw [exposure_gathered, flatMap_names, flatMap_templateOrNames, any_escapes,
    hf _ (List.length_map _), hf _ (List.length_map _)]

end Fragment

namespace Condition

variable {α β : Type} {args : List α} (c : α → List β)

theorem flatMap_branches (even : args.length % 2 = 0) :
    (branches args).flatMap (fun b => c b.1 ++ c b.2) = args.flatMap c := by
  induction args using branches.induct with
  | case1 a b rest ih =>
    simp only [List.length_cons] at even
    rw [branches, List.flatMap_cons, ih (by omega), List.flatMap_cons, List.flatMap_cons,
      List.append_assoc]
  | case2 args hne =>
    match args with
    | [] => rfl
    | [a] => cases even
    | a :: b :: rest => exact absurd rfl (hne a b rest)

/-- The branches of a condition and its outcome where no test holds are all its arguments; only a
lone test is no branch. -/
theorem flatMap_branches_paired :
    ((branches (paired args)).flatMap fun b => c b.1 ++ c b.2) ++
        (otherwise? args).toList.flatMap c =
      if args.length = 1 then [] else args.flatMap c := by
  unfold paired otherwise?
  cases otherwise : hasOtherwise args.length with
  | true =>
    obtain ⟨several, odd⟩ : 2 < args.length ∧ args.length % 2 = 1 := by
      simpa [hasOtherwise] using otherwise
    have nonempty : args ≠ [] := by
      rintro rfl
      cases several
    rw [if_pos rfl, if_pos rfl, if_neg (by omega),
      flatMap_branches c (by rw [List.length_dropLast]; omega),
      List.getLast?_eq_some_getLast nonempty, Option.toList_some, ← List.flatMap_append,
      List.dropLast_append_getLast nonempty]
  | false =>
    rw [if_neg Bool.false_ne_true, if_neg Bool.false_ne_true, Option.toList_none,
      List.flatMap_nil, List.append_nil]
    have few : args.length ≤ 2 ∨ args.length % 2 = 0 := by
      unfold hasOtherwise at otherwise
      by_contra h
      rw [decide_eq_true (by omega), decide_eq_true (by omega)] at otherwise
      cases otherwise
    match args with
    | [] => rfl
    | [a] => rfl
    | a :: b :: rest =>
      rw [if_neg (by simp), flatMap_branches c]
      simp only [List.length_cons] at few ⊢
      omega

end Condition

namespace Node

variable {ctx : Context}

/-! ## SQL -/

@[simp] theorem placeholders_operationSql (op : Operator) (l r : Expr) :
    (operationSql op [l, r]).placeholders = l.placeholders ++ r.placeholders := by
  unfold operationSql numericSql
  cases op <;> simp [Operator.isNumeric]

theorem placeholders_containsSql (texts : List String) (e : Expr) :
    (containsSql texts e).placeholders = texts.flatMap fun _ => e.placeholders := by
  have tests (es : List Expr) (c : Expr) : (es.foldl Expr.or c).placeholders =
      c.placeholders ++ es.flatMap Expr.placeholders := by
    induction es generalizing c with
    | nil => simp
    | cons d es ih => simp [ih]
  unfold containsSql
  cases texts with
  | nil => simp
  | cons t ts => simp [tests, List.flatMap_map]

theorem placeholders_conditionSql (phase : Phase) (form : Fragment → Expr)
    (args : List (Fragment × Bool)) :
    (conditionSql phase form args).placeholders =
      if args.length = 1 then []
      else (args.filter fun a => !a.2).flatMap fun a => (form a.1).placeholders := by
  let shown (a : Fragment × Bool) : List String := if a.2 then [] else (form a.1).placeholders
  have hidden : (missingOutcome phase).placeholders = [] := by
    unfold missingOutcome
    split <;> simp
  have outcome (a : Fragment × Bool) : (outcomeSql phase form a).placeholders = shown a := by
    unfold outcomeSql shown
    split
    · exact hidden
    · rfl
  have test (a : Fragment × Bool) :
      (if a.2 then Expr.bool false else form a.1).placeholders = shown a := by
    unfold shown
    split
    · simp
    · rfl
  have present : args.flatMap shown =
      (args.filter fun a => !a.2).flatMap fun a => (form a.1).placeholders := by
    clear outcome test
    induction args with
    | nil => rfl
    | cons a args ih =>
      rw [List.flatMap_cons, ih]
      cases missing : a.2 <;> simp [shown, missing]
  rw [← present, ← Condition.flatMap_branches_paired shown]
  unfold conditionSql
  rw [Expr.placeholders, Sql.Expr.collect_caseWhen, List.flatMap_map]
  congr 1
  · exact List.flatMap_congr fun b _ => congrArg₂ (· ++ ·) (test b.1) (outcome b.2)
  · rw [Option.toList_some, List.flatMap_singleton]
    cases Condition.otherwise? args with
    | none => exact hidden
    | some a => rw [Option.toList_some, List.flatMap_singleton]; exact outcome a

/-! ## Calls -/

/-- The placeholders of a condition: those of the arguments that are there.  A lone test is left
out. -/
def conditionExposure (args : List (Exposure × Bool)) : Exposure :=
  let present := (args.filter fun e => !e.2).map (·.1)
  .join (if args.length = 1 then [] else present) present

/-- The placeholders of a call, from those of its arguments. -/
def callExposure (ctx : Context) (f : Function) (args : List Node) (es : List Exposure) :
    Exposure :=
  let first := es.headD (.ofNames [])
  match f with
  | .iff => conditionExposure (es.zip (eachIsMissing ctx args))
  | .ifs => conditionExposure (es.zip (eachIsMissing ctx args))
  | .coalesce => .join es es
  | .concat => .join es es
  | .merge => .join es es
  | .parse => .join es es
  | .convertTimezone =>
    { first with
      names := es.flatMap Exposure.names
      template? := some (es.flatMap Exposure.templateOrNames) }
  | .toDate =>
    let shown := es.take 2
    { first with
      names := shown.flatMap Exposure.names
      template? := some (shown.flatMap Exposure.templateOrNames) }
  | .contains =>
    let texts := (args.drop 1).filterMap fun n => n.constant?.bind Constant.text?
    { first with
      names := texts.flatMap fun _ => first.names
      template? := some (texts.flatMap fun _ => first.templateOrNames) }
  | .toBool => if args.head?.any fun n => (n.type ctx).isBoolean then first else first.changed
  | .dateDiff =>
    match es with
    | _ :: start :: stop :: _ => .join [start, stop] [start, stop]
    | _ => .ofNames []
  | .override => { first with names := [], template? := some [] }
  | .cumulative =>
    match es, args with
    | metric :: time :: _, _ :: _ :: _ =>
      { Exposure.join [metric, time] [metric, time] with
        template? := some (metric.names ++ [dimensionsPlaceholder] ++ time.names) }
    | _, _ => .ofNames []
  | .overall => .join [first] [first]
  | .now => (Exposure.ofNames []).changed
  | _ => first.changed

theorem exposure_evaluateCondition (phase : Phase) (args : List (Fragment × Bool)) :
    (evaluateCondition phase args).exposure =
      conditionExposure (args.map fun a => (a.1.exposure, a.2)) := by
  have present : ((args.map fun a => (a.1.exposure, a.2)).filter fun e => !e.2).map (·.1) =
      ((args.filter fun a => !a.2).map (·.1)).map Fragment.exposure := by
    rw [List.filter_map, List.map_map, List.map_map]
    rfl
  unfold evaluateCondition conditionExposure Exposure.join
  dsimp only
  rw [Fragment.exposure_gathered, present, List.length_map, Fragment.any_escapes,
    placeholders_conditionSql, placeholders_conditionSql]
  split
  · rfl
  · rw [Fragment.flatMap_names, Fragment.flatMap_templateOrNames, List.map_map, List.map_map,
      List.flatMap_map, List.flatMap_map]
    rfl

theorem exposure_evaluateOverride (mapping : String) (keeps : Bool) (r : Fragment) :
    (evaluateOverride mapping keeps r).exposure =
      { r.exposure with names := [], template? := some [] } := by
  unfold evaluateOverride
  cases keeps <;> simp [Fragment.exposure, Fragment.map, Fragment.escapes]

theorem exposure_evaluateCumulative (metric time : Fragment) (timeTaxons : NameSet) :
    (evaluateCumulative metric time timeTaxons).exposure =
      { Exposure.join [metric.exposure, time.exposure] [metric.exposure, time.exposure] with
        template? := some
          (metric.exposure.names ++ [dimensionsPlaceholder] ++ time.exposure.names) } := by
  have excluding (r : Fragment) (names : NameSet) :
      { r with excluded := names }.exposure = r.exposure := rfl
  have gathered (total grouped : Expr) :=
    Fragment.exposure_gathered total grouped [metric, time]
  unfold evaluateCumulative
  dsimp only
  rw [excluding]
  refine (gathered _ _).trans ?_
  simp [Exposure.join]

theorem exposure_changeFirst {f : Function} {change : Expr → Expr} {results : List Fragment}
    {r : Fragment} (hf : ∀ e, (change e).placeholders = e.placeholders)
    (h : changeFirst f change results = .ok r) :
    r.exposure = ((results.map Fragment.exposure).headD (.ofNames [])).changed := by
  cases results with
  | nil => cases h
  | cons first rest =>
    cases h
    exact Fragment.exposure_map hf first

theorem exposure_evaluateCall {f : Function} {phase : Phase} {args : List Node}
    {results : List Fragment} {r : Fragment}
    (h : evaluateCall ctx f phase args results = .ok r) :
    r.exposure = callExposure ctx f args (results.map Fragment.exposure) := by
  unfold evaluateCall at h
  cases f with
  | iff | ifs =>
    cases h
    rw [exposure_evaluateCondition, callExposure, List.zip_map_left]
    rfl
  | coalesce | concat | parse =>
    cases h
    exact Fragment.exposure_combine (fun es _ => by simp) _
  | merge =>
    cases h
    refine Fragment.exposure_combine ?_ _
    intro es _
    split <;> simp
  | convertTimezone =>
    cases results with
    | nil => cases h
    | cons first rest =>
      cases h
      rw [Fragment.exposure_with, callExposure, Fragment.flatMap_names,
        Fragment.flatMap_templateOrNames, Option.map_some, Expr.placeholders,
        Expr.collect_dialectCall, Expr.placeholders, Expr.collect_dialectCall]
      rfl
  | toDate =>
    cases results with
    | nil => cases h
    | cons first rest =>
      cases h
      rw [Fragment.exposure_with, callExposure, ← List.map_take, Fragment.flatMap_names,
        Fragment.flatMap_templateOrNames, Option.map_some, Expr.placeholders,
        Expr.collect_dialectCall, Expr.placeholders, Expr.collect_dialectCall]
      rfl
  | contains =>
    cases results with
    | nil => cases h
    | cons first rest =>
      cases h
      unfold Fragment.map
      rw [Fragment.exposure_with, placeholders_containsSql, Option.map_some,
        placeholders_containsSql, callExposure, List.map_cons, List.headD_cons,
        Fragment.exposure_templateOrNames]
      rfl
  | toBool =>
    cases results with
    | nil => cases h
    | cons first rest =>
      cases h
      rw [callExposure]
      split
      · rfl
      · exact Fragment.exposure_map (by simp) first
  | dateDiff =>
    cases h
    match results with
    | [] => rfl
    | [_] => rfl
    | [_, _] => rfl
    | _ :: start :: stop :: _ => exact Fragment.exposure_combine (fun es _ => by simp) _
  | override =>
    cases results with
    | nil => cases h
    | cons first rest =>
      cases h
      exact exposure_evaluateOverride _ _ first
  | cumulative =>
    cases h
    match results, args with
    | [], _ => rfl
    | [_], _ => rfl
    | _ :: _ :: _, [] => rfl
    | _ :: _ :: _, [_] => rfl
    | metric :: time :: _, _ :: _ :: _ => exact exposure_evaluateCumulative metric time _
  | overall =>
    cases results with
    | nil => cases h
    | cons first rest =>
      cases h
      exact Fragment.exposure_combine (fun es _ => by simp) _
  | now =>
    cases h
    rfl
  | _ => exact exposure_changeFirst (by simp) h

end Node

end SemanticLayer.Formula
