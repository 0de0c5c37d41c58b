import SemanticLayer.Model.Definition
import SemanticLayer.Proofs.Formula.Evaluability

/-!
# How formulas of models fail

The SQL of a model's attribute can fail for three reasons only: a formula cannot be read, it
names what is not there, or it cannot be evaluated.

* `Error.isOfFormula`: the errors that tell of a formula;
* `FailsOfFormula`: what fails by no others, one step after the other;
* `failsOfFormula_evaluate`: neither does the evaluation of a node,
* `failsOfFormula_taxonSql`: nor the SQL of a taxon in a model.
-/

namespace SemanticLayer

/-- Whether an error tells of a formula: that it cannot be read, that it names what is not there,
or that it cannot be evaluated. -/
def Error.isOfFormula : Error → Bool
  | .unexpectedSymbol .. => true
  | .invalidFormula _ => true
  | .referenceDepth _ => true
  | .invalidRequest (.attributeNotFound ..) => true
  | .defect (.noTransition ..) => true
  | .defect (.ambiguousDataSource _) => true
  | .defect (.noArguments _) => true
  | _ => false

/-- Whether a computation fails by errors of formulas only. -/
def FailsOfFormula {α : Type} (x : Result α) : Prop := ∀ e, x = .error e → e.isOfFormula = true

namespace FailsOfFormula

variable {α β : Type}

theorem ok (a : α) : FailsOfFormula (.ok a) := by
  intro e h
  cases h

theorem error {e : Error} (he : e.isOfFormula = true) : FailsOfFormula (.error e : Result α) := by
  intro e' h
  cases h
  exact he

theorem bind {x : Result α} {f : α → Result β} (hx : FailsOfFormula x)
    (hf : ∀ a, FailsOfFormula (f a)) : FailsOfFormula (x >>= f) := by
  cases x with
  | error e => exact error (hx e rfl)
  | ok a => exact hf a

theorem map {x : Result α} (hx : FailsOfFormula x) (f : α → β) : FailsOfFormula (x.map f) := by
  intro e h
  exact hx e (Result.map_eq_error.1 h)

/-- One step of an evaluation after another. -/
theorem run_bind {x : Formula.Evaluation α} {f : α → Formula.Evaluation β}
    (hx : ∀ s, FailsOfFormula (x.run s)) (hf : ∀ a s, FailsOfFormula ((f a).run s)) (s : Nat) :
    FailsOfFormula ((x >>= f).run s) := by
  rw [StateT.run_bind]
  exact (hx s).bind fun r => hf r.1 r.2

theorem run_bind_pure {x : Formula.Evaluation α} (hx : ∀ s, FailsOfFormula (x.run s)) (f : α → β)
    (s : Nat) : FailsOfFormula ((x >>= fun a => pure (f a)).run s) :=
  run_bind hx (fun _ _ => ok _) s

/-- A result within an evaluation. -/
theorem run_lift {x : Result α} (hx : FailsOfFormula x) (s : Nat) :
    FailsOfFormula ((x : Formula.Evaluation α).run s) := by
  cases x with
  | error e => exact error (hx e rfl)
  | ok a => exact ok _

end FailsOfFormula

namespace Formula

variable {ctx : Context}

theorem failsOfFormula_parse (text : String) : FailsOfFormula (parse text) := by
  unfold parse
  cases Tree.read text with
  | error u => exact .error rfl
  | ok t => exact .ok t

namespace Node

/-! ## Evaluation -/

theorem failsOfFormula_evaluateCall (f : Function) (phase : Phase) (args : List Node)
    (results : List Fragment) : FailsOfFormula (evaluateCall ctx f phase args results) := by
  cases results with
  | nil => cases f <;> first | exact .ok _ | exact .error rfl
  | cons r rs => cases f <;> exact .ok _

theorem failsOfFormula_addFormula (t : Target) (n : Node) (aggregation : Aggregation)
    (label : String) (sql : Sql.Expr) (r : Fragment) :
    FailsOfFormula (addFormula t n aggregation label sql r) := by
  cases t with
  | dimension =>
    refine .bind ?_ fun _ => .ok _
    rcases singleSource_cases label n.dataSources with ⟨_, source, h⟩ | ⟨_, h⟩
    · exact h ▸ .ok source
    · exact h ▸ .error rfl
  | aggregation => exact .ok _
  | postAggregation => exact .ok _

theorem failsOfFormula_evaluateTransition (t : Target) (n : Node) (aggregation : Aggregation)
    (label? : Option String) (r : Fragment) (s : Nat) :
    FailsOfFormula ((evaluateTransition ctx t n aggregation label? r).run s) := by
  unfold evaluateTransition
  dsimp only
  by_cases same : n.phase ctx = t.phase
  · rw [if_pos same]
    exact .ok _
  rw [if_neg same]
  cases t.accepts (n.phase ctx) with
  | false => exact .error rfl
  | true =>
    cases (n.used ctx).isEmpty with
    | true => exact .ok _
    | false =>
      cases label? with
      | some label => exact FailsOfFormula.run_lift (failsOfFormula_addFormula _ _ _ _ _ _) s
      | none =>
        exact FailsOfFormula.run_bind (x := newLabel ctx.slug) (fun _ => .ok _)
          (fun _ => FailsOfFormula.run_lift (failsOfFormula_addFormula _ _ _ _ _ _)) s

theorem failsOfFormula_evaluateEach {ns : List Node}
    (h : ∀ n ∈ ns, ∀ s, FailsOfFormula ((n.evaluate ctx).run s)) (s : Nat) :
    FailsOfFormula ((evaluateEach ctx ns).run s) := by
  induction ns generalizing s with
  | nil => exact .ok _
  | cons n ns ih =>
    obtain ⟨hn, hns⟩ := List.forall_mem_cons.1 h
    rw [evaluateEach]
    exact FailsOfFormula.run_bind hn (fun r => FailsOfFormula.run_bind_pure (ih hns) (r :: ·)) s

theorem failsOfFormula_evaluate (n : Node) (s : Nat) :
    FailsOfFormula ((n.evaluate ctx).run s) := by
  induction n generalizing s with
  | integer | decimal | text | bool | column | taxon | modelAttribute =>
    rw [evaluate]
    exact .ok _
  | paren n _ ih | not n _ ih | isNull n negated _ ih =>
    rw [evaluate]
    exact FailsOfFormula.run_bind_pure ih _ s
  | computed u n _ ih =>
    rw [evaluate]
    exact ih s
  | binary op l r _ hl hr =>
    rw [evaluate]
    exact FailsOfFormula.run_bind hl (fun _ => FailsOfFormula.run_bind_pure hr _) s
  | call f args single place ih =>
    rw [evaluate]
    exact FailsOfFormula.run_bind (failsOfFormula_evaluateEach ih)
      (fun rs => FailsOfFormula.run_lift (failsOfFormula_evaluateCall f _ args rs)) s
  | transition t n aggregation label? _ ih =>
    rw [evaluate]
    exact FailsOfFormula.run_bind ih
      (fun r => failsOfFormula_evaluateTransition t n aggregation label? r) s
  | root n _ ih =>
    rw [evaluate]
    cases n.isMissing ctx with
    | true => exact .ok _
    | false => exact ih s

theorem failsOfFormula_outcome (n : Node) : FailsOfFormula (n.outcome ctx) :=
  (failsOfFormula_evaluate n 0).bind fun _ => .ok _

/-! ## Reading -/

mutual

theorem failsOfFormula_ofTree {text : String} {lookup : TaxonRef → Location → Result Node}
    (hlookup : ∀ r place, FailsOfFormula (lookup r place)) :
    ∀ t : Tree, FailsOfFormula (ofTree ctx text lookup t)
  | .integer .. => by
    rw [ofTree]
    exact .ok _
  | .float .. => by
    rw [ofTree]
    exact .ok _
  | .bool .. => by
    rw [ofTree]
    exact .ok _
  | .singleQuoted .. => by
    rw [ofTree]
    exact .ok _
  | .doubleQuoted .. => by
    rw [ofTree]
    exact .ok _
  | .taxon r s => by
    rw [ofTree]
    exact hlookup r _
  | .call name args s => by
    rw [ofTree]
    cases Function.ofName? name with
    | none => exact .error rfl
    | some f => exact .bind (failsOfFormula_ofTrees hlookup args) fun _ => .ok _
  | .paren t s => by
    rw [ofTree]
    exact .bind (failsOfFormula_ofTree hlookup t) fun _ => .ok _
  | .binary op l r s => by
    rw [ofTree]
    exact .bind (failsOfFormula_ofTree hlookup l) fun _ =>
      .bind (failsOfFormula_ofTree hlookup r) fun _ => .ok _
  | .not t s => by
    rw [ofTree]
    exact .bind (failsOfFormula_ofTree hlookup t) fun _ => .ok _
  | .isNull t negated s => by
    rw [ofTree]
    exact .bind (failsOfFormula_ofTree hlookup t) fun _ => .ok _

theorem failsOfFormula_ofTrees {text : String} {lookup : TaxonRef → Location → Result Node}
    (hlookup : ∀ r place, FailsOfFormula (lookup r place)) :
    ∀ ts : List Tree, FailsOfFormula (ofTrees ctx text lookup ts)
  | [] => by
    rw [ofTrees]
    exact .ok _
  | t :: ts => by
    rw [ofTrees]
    exact .bind (failsOfFormula_ofTree hlookup t) fun _ =>
      .bind (failsOfFormula_ofTrees hlookup ts) fun _ => .ok _

end

end Node

theorem failsOfFormula_renderAttribute {model : ModelScope}
    (h : ∀ slug, FailsOfFormula (model.sqlOf slug)) (formula : String) :
    FailsOfFormula (renderAttribute ctx model formula) := by
  refine .bind (.map (.bind (failsOfFormula_parse formula) ?_) _) ?_
  · intro tree
    exact Node.failsOfFormula_ofTree (fun r _ => (h (model.slugOf r.slug)).map _) tree
  · intro n
    exact Node.failsOfFormula_outcome _

end Formula

namespace Model

theorem failsOfFormula_attributeSql (m : Model) (depth : Nat) (taxon : String) :
    FailsOfFormula (m.attributeSql depth taxon) := by
  induction depth generalizing taxon with
  | zero => exact .error rfl
  | succ depth ih =>
    rw [attributeSql]
    cases m.attribute? taxon with
    | none => exact .error rfl
    | some a =>
      refine .bind (Formula.failsOfFormula_renderAttribute ?_ a.formula) fun _ => .ok _
      exact fun slug => ih (m.referenced slug)

/-- The SQL that reads a taxon of a model fails by errors of formulas only. -/
theorem failsOfFormula_taxonSql (m : Model) (taxon : String) (arraysAsText : Bool) :
    FailsOfFormula (m.taxonSql taxon arraysAsText) :=
  (m.failsOfFormula_attributeSql _ taxon).bind fun _ => .ok _

end Model

end SemanticLayer
