import SemanticLayer.Proofs.Formula.GroupedTotals

/-!
# Filling in placeholders pass by pass

The columns of a data source and the dimensions of a request are filled into a formula by passes of
their own.  Each pass leaves the placeholders it does not know to the others.

* `Sql.Expr.inTurn`: what two passes, one after the other, put in place of a placeholder;
* `Sql.Expr.substitute_substitute`: two passes are one pass that fills in what they do in turn;
* `Sql.Expr.at?`, `Sql.Expr.at?_substitute`: what stands at a position within an expression, before
  a pass and after it;
* `Formula.passes_compose`: both for any two passes, and for the two of a formula in either order.
-/

namespace SemanticLayer

namespace Sql.Expr

/-- What is filled in by a pass and then by another: what the first knows, with its own placeholders
filled in by the second, and else what the second knows. -/
def inTurn (first second : String → Option Expr) (name : String) : Option Expr :=
  match first name with
  | some e => some (e.substitute second)
  | none => second name

variable (first second : String → Option Expr)

theorem inTurn_of_none {name : String} (h : first name = none) :
    inTurn first second name = second name := by rw [inTurn, h]

/-! ## Two passes -/

theorem getD_inTurn (name : String) :
    ((first name).getD (.placeholder name)).substitute second =
      (inTurn first second name).getD (.placeholder name) := by
  unfold inTurn
  cases first name with
  | none => rw [Option.getD_none, substitute]
  | some e => rfl

mutual

/-- Two passes over an expression are one. -/
theorem substitute_substitute : ∀ e : Expr,
    (e.substitute first).substitute second = e.substitute (inTurn first second)
  | .column .. => rfl
  | .literal _ => rfl
  | .raw _ => rfl
  | .placeholder n => by
    rw [substitute, substitute, getD_inTurn]
  | .binary l op r => by
    rw [substitute, substitute, substitute, substitute_substitute l, substitute_substitute r]
  | .unary op e => by rw [substitute, substitute, substitute, substitute_substitute e]
  | .call n args d => by rw [substitute, substitute, substitute, substituteAll_substituteAll args]
  | .dialectCall f args => by
    rw [substitute, substitute, substitute, substituteAll_substituteAll args]
  | .case operand? branches otherwise? => by
    rw [substitute, substitute, substitute, substitute?_substitute? operand?,
      substituteBranches_substituteBranches branches, substitute?_substitute? otherwise?]
  | .cast e t => by rw [substitute, substitute, substitute, substitute_substitute e]
  | .extract f e => by rw [substitute, substitute, substitute, substitute_substitute e]
  | .inList e vs n => by
    rw [substitute, substitute, substitute, substitute_substitute e,
      substituteAll_substituteAll vs]
  | .isNull e n => by rw [substitute, substitute, substitute, substitute_substitute e]
  | .like e p c n i => by
    rw [substitute, substitute, substitute, substitute_substitute e, substitute_substitute p]
  | .paren e => by rw [substitute, substitute, substitute, substitute_substitute e]
  | .window f ps os frame? => by
    rw [substitute, substitute, substitute, substitute_substitute f,
      substituteAll_substituteAll ps, substituteOrder_substituteOrder os]
  | .list es => by rw [substitute, substitute, substitute, substituteAll_substituteAll es]

theorem substituteAll_substituteAll : ∀ es : List Expr,
    substituteAll second (substituteAll first es) = substituteAll (inTurn first second) es
  | [] => rfl
  | e :: es => by
    rw [substituteAll, substituteAll, substituteAll, substitute_substitute e,
      substituteAll_substituteAll es]

theorem substitute?_substitute? : ∀ e? : Option Expr,
    substitute? second (substitute? first e?) = substitute? (inTurn first second) e?
  | none => rfl
  | some e => by rw [substitute?, substitute?, substitute?, substitute_substitute e]

theorem substituteBranches_substituteBranches : ∀ bs : List (Expr × Expr),
    substituteBranches second (substituteBranches first bs) =
      substituteBranches (inTurn first second) bs
  | [] => rfl
  | (w, t) :: bs => by
    rw [substituteBranches, substituteBranches, substituteBranches, substitute_substitute w,
      substitute_substitute t, substituteBranches_substituteBranches bs]

theorem substituteOrder_substituteOrder : ∀ os : List (Ordered Expr),
    substituteOrder second (substituteOrder first os) = substituteOrder (inTurn first second) os
  | [] => rfl
  | ⟨e, d, n⟩ :: os => by
    rw [substituteOrder, substituteOrder, substituteOrder, substitute_substitute e,
      substituteOrder_substituteOrder os]

end

/-! ## Positions -/

/-- The expression at a position, which says from the outside in which of the parts to take. -/
def at? : List Nat → Expr → Option Expr
  | [], e => some e
  | i :: path, e => e.parts[i]?.bind (at? path)

/-- A pass reaches every position. -/
theorem at?_substitute (lookup : String → Option Expr) {path : List Nat} {e x : Expr}
    (h : e.at? path = some x) : (e.substitute lookup).at? path = some (x.substitute lookup) := by
  induction path generalizing e with
  | nil =>
    cases h
    rfl
  | cons i path ih =>
    obtain ⟨part, within, h⟩ := Option.bind_eq_some_iff.1 h
    have inner : e.isPlaceholder = false := by
      cases e with
      | placeholder => cases within
      | _ => rfl
    rw [at?, parts_substitute lookup inner, List.getElem?_map, within]
    exact ih h

end Sql.Expr

namespace Formula

open Sql (Expr)

theorem PostFormula.fill_of_template {p : PostFormula} {e : Expr} {groups : NameSet}
    (template : p.template? = some e) (grouped : p.partition groups ≠ []) :
    p.fill groups = e.substitute (p.filling groups) := by
  have some : ¬(p.partition groups).isEmpty = true := fun h => grouped (List.isEmpty_iff.1 h)
  rw [fill_eq, template]
  exact if_neg some

/-- Passes over an expression compose.  Two of them fill in at every position what they know in turn,
and a placeholder that neither knows stays where it is.  So the columns of a data source and the
dimensions of a request can be filled in one after the other, in either order, or together. -/
theorem passes_compose (e : Expr) (first second : String → Option Expr) :
    (e.substitute first).substitute second = e.substitute (Expr.inTurn first second) ∧
    (∀ path x, e.at? path = some x →
      ((e.substitute first).substitute second).at? path =
        some (x.substitute (Expr.inTurn first second))) ∧
    (∀ path name, e.at? path = some (.placeholder name) → first name = none → second name = none →
      ((e.substitute first).substitute second).at? path = some (.placeholder name)) ∧
    ∀ (t : SourceTemplate) (p : PostFormula) (columns : SortedMap String Expr) (groups : NameSet),
      p.partition groups ≠ [] →
      (t.template = e → p.template? = some (t.fill columns) →
        p.fill groups = e.substitute (Expr.inTurn columns.get? (p.filling groups))) ∧
      (p.template? = some e → t.template = p.fill groups →
        t.fill columns = e.substitute (Expr.inTurn (p.filling groups) columns.get?)) := by
  have compose := Expr.substitute_substitute first second e
  refine ⟨compose, fun path x h => ?_, fun path name h unknown unknown' => ?_,
    fun t p columns groups grouped => ⟨fun source post => ?_, fun post source => ?_⟩⟩
  · rw [compose]
    exact Expr.at?_substitute _ h
  · rw [compose, Expr.at?_substitute _ h, Expr.substitute, Expr.inTurn_of_none _ _ unknown, unknown',
      Option.getD_none]
  · rw [PostFormula.fill_of_template post grouped, SourceTemplate.fill, source]
    exact Expr.substitute_substitute _ _ e
  · rw [SourceTemplate.fill, source, PostFormula.fill_of_template post grouped]
    exact Expr.substitute_substitute _ _ e

/-! ### A running total over the weeks with a holiday -/

def weeklyTotal : Expr :=
  .window (Expr.col "spend").sum [.placeholder dimensionsPlaceholder]
    [⟨.caseWhen [(.inList (.placeholder "fb|day") [.string "12-25", .placeholder "fb|holiday"] false,
      .placeholder "fb|week")] none, some .asc, none⟩] none

/-- The columns of a source that has no holidays. -/
def dayColumns : SortedMap String Expr :=
  .ofList [("fb|day", .tableCol "ads" "DAY"), ("fb|week", .tableCol "ads" "WEEK")]

theorem passes_compose_weekly :
    let t : SourceTemplate := .of weeklyTotal "weekly" "fb" (.ofList ["fb|day", "fb|week"])
    let p : PostFormula := ⟨.null, some (t.fill dayColumns), .empty⟩
    let groups : NameSet := .singleton "country"
    weeklyTotal.at? [2, 0, 2] = some (.placeholder "fb|holiday") ∧
    ((weeklyTotal.substitute dayColumns.get?).substitute (p.filling groups)).at? [2, 0, 2] =
      some (.placeholder "fb|holiday") ∧
    p.fill groups = weeklyTotal.substitute (Expr.inTurn dayColumns.get? (p.filling groups)) ∧
    (p.fill groups).at? [1] = some (.list [.col "country"]) ∧
    (p.fill groups).at? [2, 0, 0] = some (.tableCol "ads" "DAY") := by
  intro t p groups
  obtain ⟨_, _, kept, composed⟩ :=
    passes_compose weeklyTotal dayColumns.get? (p.filling groups)
  have both := (composed t p dayColumns groups nofun).1 rfl rfl
  have position (path : List Nat) {x : Expr} (h : weeklyTotal.at? path = some x) :
      (p.fill groups).at? path =
        some (x.substitute (Expr.inTurn dayColumns.get? (p.filling groups))) := by
    rw [both]
    exact Expr.at?_substitute _ h
  exact ⟨rfl, kept [2, 0, 2] "fb|holiday" rfl rfl rfl, both, position [1] rfl,
    position [2, 0, 0] rfl⟩

end Formula

end SemanticLayer
