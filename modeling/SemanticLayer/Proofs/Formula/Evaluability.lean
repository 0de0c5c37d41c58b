import Mathlib.Data.List.Basic
import SemanticLayer.Formula.Evaluation
import SemanticLayer.Proofs.Result

/-!
# Which planned nodes can be evaluated

Evaluation fails at two places: a transition that does not take the value it stands over, and a
call without the argument whose value it changes.

* `Node.induction`: what holds of a node if it holds of its parts, holds of every node;
* `Settles`: a computation succeeds exactly under a condition, and else fails by a defect;
* `settles_evaluate`: evaluation settles `evaluable`, which looks at transitions and calls only;
* `outcome_cases`: so does the outcome of a node;
* `renderTaxon_eq_outcome`: the outcome of a formula is that of its planned node.
-/

namespace SemanticLayer.Formula

/-! ## Induction over nodes -/

namespace Node

/-- Induction over a node, with the property for every argument of a call. -/
@[induction_eliminator]
theorem induction {p : Node → Prop}
    (integer : ∀ n place, p (.integer n place))
    (decimal : ∀ x place, p (.decimal x place))
    (text : ∀ s place, p (.text s place))
    (bool : ∀ b place, p (.bool b place))
    (column : ∀ name place, p (.column name place))
    (paren : ∀ n place, p n → p (.paren n place))
    (taxon : ∀ u place, p (.taxon u place))
    (modelAttribute : ∀ u sql place, p (.attribute u sql place))
    (computed : ∀ u n place, p n → p (.computed u n place))
    (binary : ∀ op l r place, p l → p r → p (.binary op l r place))
    (not : ∀ n place, p n → p (.not n place))
    (isNull : ∀ n negated place, p n → p (.isNull n negated place))
    (call : ∀ f args single place, (∀ n ∈ args, p n) → p (.call f args single place))
    (transition : ∀ t n a label? place, p n → p (.transition t n a label? place))
    (root : ∀ n place, p n → p (.root n place)) : ∀ n, p n :=
  @Node.rec p (fun ns => ∀ n ∈ ns, p n) integer decimal text bool column
    (fun n place h => paren n place h) taxon modelAttribute
    (fun u n place h => computed u n place h)
    (fun op l r place hl hr => binary op l r place hl hr) (fun n place h => not n place h)
    (fun n negated place h => isNull n negated place h)
    (fun f args single place h => call f args single place h)
    (fun t n a label? place h => transition t n a label? place h)
    (fun n place h => root n place h)
    (fun _ h => (List.not_mem_nil h).elim)
    (fun _ _ hn hns => List.forall_mem_cons.2 ⟨hn, hns⟩)

variable (ctx : Context)

theorem eachIsMissing_eq (ns : List Node) : eachIsMissing ctx ns = ns.map (isMissing ctx) := by
  induction ns with
  | nil => rw [eachIsMissing, List.map_nil]
  | cons n ns ih => rw [eachIsMissing, ih, List.map_cons]

theorem planEach_eq (parent : Parent) (ns : List Node) :
    planEach ctx parent ns = ns.map (plan ctx parent) := by
  induction ns with
  | nil => rw [planEach, List.map_nil]
  | cons n ns ih => rw [planEach, ih, List.map_cons]

end Node

/-! ## Evaluation -/

/-- Whether a computation succeeds from every state if a condition holds, and fails by a defect if
it does not. -/
def Settles {α : Type} (condition : Bool) (x : Evaluation α) : Prop :=
  ∀ s, match x.run s with
    | .ok _ => condition = true
    | .error e => condition = false ∧ ∃ d, e = .defect d

namespace Settles

variable {α β : Type} {b c : Bool}

theorem pure (a : α) : Settles true (Pure.pure a : Evaluation α) := fun _ => rfl

theorem throw (d : Defect) : Settles false (MonadExcept.throw (.defect d) : Evaluation α) :=
  fun _ => ⟨rfl, d, rfl⟩

theorem bind {x : Evaluation α} {f : α → Evaluation β} (hx : Settles b x)
    (hf : ∀ s a s', x.run s = .ok (a, s') → Settles c (f a)) : Settles (b && c) (x >>= f) := by
  intro s
  have hs := hx s
  rw [StateT.run_bind]
  cases hr : x.run s with
  | error e =>
    rw [hr] at hs
    obtain ⟨rfl, d, rfl⟩ := hs
    exact ⟨rfl, d, rfl⟩
  | ok r =>
    rw [hr] at hs
    subst hs
    exact hf s r.1 r.2 hr r.2

theorem bind_pure {x : Evaluation α} (hx : Settles b x) (f : α → β) :
    Settles b (x >>= fun a => Pure.pure (f a)) := by
  rw [← Bool.and_true b]
  exact hx.bind fun _ a _ _ => pure (f a)

theorem ofOk {x : Result α} {a : α} (h : x = .ok a) : Settles true (x : Evaluation α) := by
  subst h
  exact fun _ => rfl

theorem ofDefect {x : Result α} {d : Defect} (h : x = .error (.defect d)) :
    Settles false (x : Evaluation α) := by
  subst h
  exact fun _ => ⟨rfl, d, rfl⟩

end Settles

/-- Whether the value of a call is its first argument's, changed. -/
def Function.changesFirst : Function → Bool
  | .coalesce => false
  | .iff => false
  | .ifs => false
  | .concat => false
  | .merge => false
  | .parse => false
  | .dateDiff => false
  | .cumulative => false
  | .now => false
  | _ => true

/-- Whether a transition takes a value: it accepts the value's phase, and a dimension comes from
one data source. -/
def Target.takes (ctx : Context) (t : Target) (n : Node) : Bool :=
  n.phase ctx = t.phase ||
    t.accepts (n.phase ctx) &&
      (t ≠ .dimension || (n.used ctx).isEmpty || n.dataSources.named.size = 1)

namespace Node

variable {ctx : Context}

mutual

/-- Whether all transitions and calls that are evaluated can be. -/
def evaluable (ctx : Context) : Node → Bool
  | .integer .. => true
  | .decimal .. => true
  | .text .. => true
  | .bool .. => true
  | .column .. => true
  | .paren n _ => n.evaluable ctx
  | .taxon .. => true
  | .attribute .. => true
  | .computed _ n _ => n.evaluable ctx
  | .binary _ l r _ => l.evaluable ctx && r.evaluable ctx
  | .not n _ => n.evaluable ctx
  | .isNull n _ _ => n.evaluable ctx
  | .call f args _ _ => allEvaluable ctx args && (!f.changesFirst || !args.isEmpty)
  | .transition t n _ _ _ => n.evaluable ctx && t.takes ctx n
  | .root n _ => n.isMissing ctx || n.evaluable ctx

def allEvaluable (ctx : Context) : List Node → Bool
  | [] => true
  | n :: ns => n.evaluable ctx && allEvaluable ctx ns

end

theorem allEvaluable_eq (ns : List Node) : allEvaluable ctx ns = ns.all (evaluable ctx) := by
  induction ns with
  | nil => rw [allEvaluable, List.all_nil]
  | cons n ns ih => rw [allEvaluable, ih, List.all_cons]

theorem settles_evaluateCall (f : Function) (phase : Phase) (args : List Node)
    (results : List Fragment) :
    Settles (!f.changesFirst || !results.isEmpty)
      (evaluateCall ctx f phase args results : Evaluation Fragment) := by
  cases results with
  | nil => cases f <;> first | exact .ofOk rfl | exact .ofDefect rfl
  | cons r rs => 
    rw [List.isEmpty_cons, Bool.not_false, Bool.or_true]
    cases f <;> exact .ofOk rfl

/-- The one data source is found exactly if there is one. -/
theorem singleSource_cases (label : String) (ds : DataSources) :
    (ds.named.size = 1 ∧ ∃ source, singleSource label ds = .ok source) ∨
      (ds.named.size ≠ 1 ∧
        singleSource label ds = .error (.defect (.ambiguousDataSource label))) := by
  unfold singleSource SortedSet.size
  split
  · rename_i source h
    exact .inl ⟨by rw [h, List.length_singleton], source, rfl⟩
  · rename_i several
    refine .inr ⟨?_, rfl⟩
    intro h
    obtain ⟨source, h⟩ := List.length_eq_one_iff.1 h
    exact several source h

theorem settles_addFormula (t : Target) (n : Node) (aggregation : Aggregation) (label : String)
    (sql : Sql.Expr) (r : Fragment) :
    Settles (t ≠ .dimension || n.dataSources.named.size = 1)
      (addFormula t n aggregation label sql r : Evaluation Fragment) := by
  cases t with
  | dimension =>
    rcases singleSource_cases label n.dataSources with ⟨one, source, h⟩ | ⟨several, h⟩
    · rw [decide_eq_true one, addFormula, h]
      exact .ofOk rfl
    · rw [decide_eq_false several, addFormula, h]
      exact .ofDefect rfl
  | aggregation => exact .ofOk rfl
  | postAggregation => exact .ofOk rfl

theorem settles_evaluateTransition (t : Target) (n : Node) (aggregation : Aggregation)
    (label? : Option String) (r : Fragment) :
    Settles (t.takes ctx n) (evaluateTransition ctx t n aggregation label? r) := by
  unfold evaluateTransition Target.takes
  dsimp only
  by_cases same : n.phase ctx = t.phase
  · rw [if_pos same, decide_eq_true same, Bool.true_or]
    exact .pure r
  rw [if_neg same, decide_eq_false same, Bool.false_or]
  cases accepts : t.accepts (n.phase ctx) with
  | false => exact .throw _
  | true =>
    rw [Bool.true_and]
    cases constant : (n.used ctx).isEmpty with
    | true =>
      rw [Bool.or_true, Bool.true_or]
      exact .pure _
    | false =>
      rw [Bool.or_false]
      cases label? with
      | some label => exact settles_addFormula t n aggregation label r.sql _
      | none =>
        rw [← Bool.true_and (_ || _)]
        exact Settles.bind (x := newLabel ctx.slug) (fun _ => rfl) fun _ label _ _ =>
          settles_addFormula t n aggregation label r.sql _

theorem settles_evaluateEach {ns : List Node}
    (h : ∀ n ∈ ns, Settles (n.evaluable ctx) (n.evaluate ctx)) :
    Settles (allEvaluable ctx ns) (evaluateEach ctx ns) := by
  induction ns with
  | nil =>
    rw [allEvaluable, evaluateEach]
    exact .pure []
  | cons n ns ih =>
    obtain ⟨hn, hns⟩ := List.forall_mem_cons.1 h
    rw [allEvaluable, evaluateEach]
    exact hn.bind fun _ r _ _ => (ih hns).bind_pure (r :: ·)

theorem length_evaluateEach {ns : List Node} {s s' : Nat} {rs : List Fragment}
    (h : (evaluateEach ctx ns).run s = .ok (rs, s')) : rs.length = ns.length := by
  induction ns generalizing s rs with
  | nil =>
    rw [evaluateEach] at h
    cases h
    rfl
  | cons n ns ih =>
    rw [evaluateEach, StateT.run_bind] at h
    obtain ⟨⟨r, t⟩, _, h⟩ := Result.bind_eq_ok.1 h
    rw [StateT.run_bind] at h
    obtain ⟨⟨rs', t'⟩, hrs, h⟩ := Result.bind_eq_ok.1 h
    cases h
    rw [List.length_cons, List.length_cons, ih hrs]

/-- Evaluation succeeds exactly if all transitions and calls that it meets can be evaluated. -/
theorem settles_evaluate (n : Node) : Settles (n.evaluable ctx) (n.evaluate ctx) := by
  induction n with
  | integer | decimal | text | bool | column | taxon | modelAttribute =>
    rw [evaluable, evaluate]
    exact .pure _
  | paren n _ ih =>
    rw [evaluable, evaluate]
    exact ih.bind_pure _
  | computed u n _ ih =>
    rw [evaluable, evaluate]
    exact ih
  | binary op l r _ hl hr =>
    rw [evaluable, evaluate]
    exact hl.bind fun _ left _ _ => hr.bind_pure _
  | not n _ ih =>
    rw [evaluable, evaluate]
    exact ih.bind_pure _
  | isNull n negated _ ih =>
    rw [evaluable, evaluate]
    exact ih.bind_pure _
  | call f args single place ih =>
    rw [evaluable, evaluate]
    refine (settles_evaluateEach ih).bind ?_
    intro s results s' h
    have empty : args.isEmpty = results.isEmpty := by
      rw [Bool.eq_iff_iff, List.isEmpty_iff_length_eq_zero, List.isEmpty_iff_length_eq_zero,
        length_evaluateEach h]
    rw [empty]
    exact settles_evaluateCall f _ args results
  | transition t n aggregation label? _ ih =>
    rw [evaluable, evaluate]
    exact ih.bind fun _ r _ _ => settles_evaluateTransition t n aggregation label? r
  | root n _ ih =>
    rw [evaluable, evaluate]
    cases n.isMissing ctx with
    | true => exact .pure _
    | false => exact ih

/-- A node has an outcome exactly if it is evaluable; all it can fail by is a defect. -/
theorem outcome_cases (n : Node) :
    (n.evaluable ctx = true ∧ ∃ o, n.outcome ctx = .ok o) ∨
      (n.evaluable ctx = false ∧ ∃ d, n.outcome ctx = .error (.defect d)) := by
  have settles := @settles_evaluate ctx n 0
  unfold outcome
  cases h : (n.evaluate ctx).run 0 with
  | ok r =>
    rw [h] at settles
    exact .inl ⟨settles, _, rfl⟩
  | error e =>
    rw [h] at settles
    obtain ⟨hn, d, rfl⟩ := settles
    exact .inr ⟨hn, d, rfl⟩

end Node

/-- The outcome of a formula without faults is that of its plan. -/
theorem renderTaxon_eq_outcome {ctx : Context} {formula : String} {n : Node}
    (hn : Node.rootOfFormula ctx none formula = .ok n) (hf : n.faults ctx = []) :
    renderTaxon ctx formula = ((n.simplify ctx).plan ctx .none).outcome ctx := by
  unfold renderTaxon
  rw [hn]
  dsimp only [Bind.bind, Except.bind]
  rw [hf]

end SemanticLayer.Formula
