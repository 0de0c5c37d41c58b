import SemanticLayer.Proofs.Formula.Labels
import SemanticLayer.Proofs.Formula.Simplified

/-!
# Numbers of labels

A plan gives no label to the moves inside a formula, so they draw numbers, and the slug to the last
moves of a whole one.

* `isNumbered_plan`: the moves of a plan inside a formula draw numbers;
* `numbered_evaluate`: the labels of each stage have numbers that evaluation draws, none twice;
* `labels_renderTaxon`: no two columns of a rendered formula for one stage go by the same name.
-/

namespace SemanticLayer.Formula

namespace Node

variable {ctx : Context}

open Fragment (labels labels_combine)

/-! ## Planned nodes -/

mutual

/-- Whether each move in a node draws a number for its label, and no whole formula stands in it. -/
def isNumbered : Node → Bool
  | .integer .. => true
  | .decimal .. => true
  | .text .. => true
  | .bool .. => true
  | .column .. => true
  | .paren n _ => n.isNumbered
  | .taxon .. => true
  | .attribute .. => true
  | .computed _ n _ => n.isNumbered
  | .binary _ l r _ => l.isNumbered && r.isNumbered
  | .not n _ => n.isNumbered
  | .isNull n _ _ => n.isNumbered
  | .call _ args _ _ => allAreNumbered args
  | .transition _ n _ label? _ => n.isNumbered && label?.isNone
  | .root .. => false

def allAreNumbered : List Node → Bool
  | [] => true
  | n :: ns => n.isNumbered && allAreNumbered ns

end

theorem allAreNumbered_iff {ns : List Node} :
    allAreNumbered ns = true ↔ ∀ n ∈ ns, n.isNumbered = true := by
  induction ns with
  | nil => exact ⟨fun _ => List.forall_mem_nil _, fun _ => rfl⟩
  | cons n ns ih => rw [allAreNumbered, Bool.and_eq_true, ih, List.forall_mem_cons]

theorem hereditary_isNumbered : Hereditary fun n => n.isNumbered = true where
  integer _ _ := rfl
  decimal _ _ := rfl
  text _ _ := rfl
  bool _ _ := rfl
  column _ _ := rfl
  taxon _ _ := rfl
  modelAttribute _ _ _ := rfl
  paren := Iff.rfl
  computed := Iff.rfl
  binary := Bool.and_eq_true_iff
  not := Iff.rfl
  isNull := Iff.rfl
  call := by
    intro f n ns _ _
    rw [isNumbered, allAreNumbered, Bool.and_eq_true, allAreNumbered_iff]

@[simp] theorem isNumbered_toDimension (n : Node) : n.toDimension.isNumbered = n.isNumbered := by
  rw [toDimension, isNumbered, Option.isNone_none, Bool.and_true]

@[simp] theorem isNumbered_toAggregation (n : Node) (a? : Option Aggregation) :
    (n.toAggregation a? none).isNumbered = n.isNumbered := by
  rw [toAggregation, isNumbered, Option.isNone_none, Bool.and_true]

@[simp] theorem isNumbered_toPostAggregation (n : Node) (a? : Option Aggregation) :
    (n.toPostAggregation a? none).isNumbered = n.isNumbered := by
  rw [toPostAggregation, isNumbered, Option.isNone_none, Bool.and_true]

@[simp] theorem isNumbered_aggregated (n : Node) (a? : Option Aggregation) :
    (n.aggregated ctx a? none).isNumbered = n.isNumbered := by
  unfold aggregated
  split <;> simp

@[simp] theorem isNumbered_planNumericOperand (post : Bool) (n planned : Node) :
    (planNumericOperand ctx post n planned).isNumbered = planned.isNumbered := by
  unfold planNumericOperand
  split <;> simp

@[simp] theorem isNumbered_planLogicalOperand (parent : Parent) (n planned : Node) :
    (planLogicalOperand ctx parent n planned).isNumbered = planned.isNumbered := by
  unfold planLogicalOperand
  dsimp only
  split <;> split <;> simp

@[simp] theorem isNumbered_planBranch (phase : Phase) (n planned : Node) :
    (planBranch ctx phase n planned).isNumbered = planned.isNumbered := by
  unfold planBranch
  split <;> simp

@[simp] theorem isNumbered_planTime (planned : Node) :
    (planTime ctx planned).isNumbered = planned.isNumbered := by
  simp [planTime]

/-- Moving planned arguments, one by one, keeps what the moves keep. -/
theorem forall_mem_zipWith {p : Node → Prop} {f : Node → Node → Node} {args planned : List Node}
    (h : ∀ n ∈ planned, p n) (hf : ∀ n m, p m → p (f n m)) : ∀ n ∈ args.zipWith f planned, p n := by
  induction args generalizing planned with
  | nil => exact List.forall_mem_nil _
  | cons n args ih =>
    cases planned with
    | nil => exact List.forall_mem_nil _
    | cons m planned =>
      obtain ⟨hm, hms⟩ := List.forall_mem_cons.1 h
      exact List.forall_mem_cons.2 ⟨hf n m hm, ih hms⟩

theorem isNumbered_planArguments {parent : Parent} {f : Function} {phase : Phase}
    {a? : Option Aggregation} {args planned : List Node} (ha : ∀ n ∈ args, n.isNumbered = true)
    (hp : ∀ n ∈ planned, n.isNumbered = true) :
    ∀ n ∈ planArguments ctx parent f phase a? args planned, n.isNumbered = true := by
  unfold planArguments
  split
  · refine forall_mem_zipWith hp ?_
    intro n m hm
    split <;> simpa using hm
  · simpa using hp
  · split
    · split
      · simpa using hp
      · exact hp
    · exact hp
  · split
    · simpa using hp
    · exact hp
  · obtain ⟨_, rest⟩ := List.forall_mem_cons.1 ha
    obtain ⟨first, _⟩ := List.forall_mem_cons.1 hp
    exact List.forall_mem_cons.2 ⟨(isNumbered_toDimension _).trans first, rest⟩
  · simpa using hp
  · simpa using hp
  · exact forall_mem_zipWith hp fun n m hm => (isNumbered_planBranch phase n m).trans hm
  · exact forall_mem_zipWith hp fun n m hm => (isNumbered_planBranch phase n m).trans hm
  · exact hp

/-- The moves of a plan draw numbers. -/
theorem isNumbered_plan {n : Node} (h : n.isNumbered = true) (parent : Parent) :
    (n.plan ctx parent).isNumbered = true := by
  induction n generalizing parent with
  | integer | decimal | text | bool | column | taxon | modelAttribute => rw [plan]; rfl
  | paren n _ ih | not n _ ih | isNull n _ _ ih =>
    rw [plan, isNumbered]
    exact ih h _
  | computed u n _ ih =>
    rw [plan, isNumbered]
    split
    · exact h
    · exact ih h _
  | binary op l r _ hl hr =>
    obtain ⟨left, right⟩ := Bool.and_eq_true_iff.1 h
    rw [plan]
    dsimp only
    split <;> simp [isNumbered, hl left, hr right]
  | call f args single _ ih =>
    have each := allAreNumbered_iff.1 h
    rw [plan, isNumbered, allAreNumbered_iff, planEach_eq]
    refine isNumbered_planArguments each ?_
    intro m hm
    obtain ⟨n, hn, rfl⟩ := List.mem_map.1 hm
    exact ih n hn (each n hn) _
  | transition t n a l _ _ =>
    obtain ⟨value, unlabelled⟩ := Bool.and_eq_true_iff.1 h
    rw [plan]
    split
    · rw [Option.isNone_iff_eq_none.1 unlabelled]
      simpa using value
    · exact h
  | root => cases h

/-! ## Evaluation -/

theorem labels_addFormula {t : Target} {n : Node} {aggregation : Aggregation} {label : String}
    {sql : Sql.Expr} {r r' : Fragment} (h : addFormula t n aggregation label sql r = .ok r')
    (u : Target) :
    r'.labels u = if u = t then Identifier.safe label :: r.labels u else r.labels u := by
  cases t with
  | dimension =>
    obtain ⟨source, _, h⟩ := Result.bind_eq_ok.1 h
    cases h
    cases u <;> rfl
  | aggregation | postAggregation =>
    cases h
    cases u <;> rfl

/-- A move either makes no column, or one with the label it is given or the next that is drawn. -/
theorem labels_evaluateTransition {t : Target} {n : Node} {aggregation : Aggregation}
    {label? : Option String} {r r' : Fragment} {s s' : Nat}
    (h : (evaluateTransition ctx t n aggregation label? r).run s = .ok (r', s')) :
    (s' = s ∧ ∀ u, (r'.labels u).Sublist (r.labels u)) ∨
      ∃ label, (label? = some label ∧ s' = s ∨
          label? = none ∧ label = columnName ctx.slug (some (s + 1)) ∧ s' = s + 1) ∧
        ∀ u, (r'.labels u).Sublist
          (if u = t then Identifier.safe label :: r.labels u else r.labels u) := by
  unfold evaluateTransition at h
  dsimp only at h
  by_cases same : n.phase ctx = t.phase
  · rw [if_pos same] at h
    cases h
    exact .inl ⟨rfl, fun _ => .refl _⟩
  rw [if_neg same] at h
  cases accepts : t.accepts (n.phase ctx) with
  | false =>
    rw [accepts] at h
    cases h
  | true =>
    rw [accepts] at h
    have carried (u : Target) :
        ((if n.isMissing ctx then Fragment.ofSql r.sql else r).labels u).Sublist (r.labels u) := by
      split
      · rw [Fragment.labels_ofSql]
        exact List.nil_sublist _
      · exact .refl _
    cases constant : (n.used ctx).isEmpty with
    | true =>
      rw [constant] at h
      cases h
      exact .inl ⟨rfl, fun u => .trans (by cases u <;> exact .refl _) (carried u)⟩
    | false =>
      rw [constant] at h
      have added {label : String} {v : Nat}
          (h : (addFormula t n aggregation label r.sql
            { (if n.isMissing ctx then Fragment.ofSql r.sql else r) with
              sql := .col (Identifier.safe label)
              template? := if n.isMissing ctx then none else some (.col (Identifier.safe label))
              label? := some label } : Evaluation Fragment).run v = .ok (r', s')) :
          s' = v ∧ ∀ u, (r'.labels u).Sublist
            (if u = t then Identifier.safe label :: r.labels u else r.labels u) := by
        obtain ⟨_, ha, h⟩ := Result.bind_eq_ok.1 h
        cases h
        refine ⟨rfl, fun u => ?_⟩
        have inner := carried u
        rw [labels_addFormula ha]
        split
        · refine .cons_cons _ ?_
          cases u <;> exact inner
        · cases u <;> exact inner
      cases label? with
      | some label =>
        obtain ⟨rfl, sublist⟩ := added h
        exact .inr ⟨label, .inl ⟨rfl, rfl⟩, sublist⟩
      | none =>
        obtain ⟨rfl, sublist⟩ := added h
        exact .inr ⟨_, .inr ⟨rfl, rfl, rfl⟩, sublist⟩

theorem numbered_evaluateEach {ns : List Node} {s s' : Nat} {rs : List Fragment}
    (each : ∀ n ∈ ns, ∀ {s s' : Nat} {r : Fragment}, (n.evaluate ctx).run s = .ok (r, s') →
      DrawsLabels ctx.slug s s' r.labels)
    (h : (evaluateEach ctx ns).run s = .ok (rs, s')) :
    DrawsLabels ctx.slug s s' fun t => rs.flatMap (labels t) := by
  induction ns generalizing s rs with
  | nil =>
    rw [evaluateEach] at h
    cases h
    exact .none _ fun _ => rfl
  | cons n ns ih =>
    rw [evaluateEach] at h
    obtain ⟨r, t, hr, h⟩ := Result.run_bind_eq_ok.1 h
    obtain ⟨rs', t', hrs, h⟩ := Result.run_bind_eq_ok.1 h
    cases h
    exact (each n (List.mem_cons_self ..) hr).append
      (ih (fun m hm => each m (List.mem_cons_of_mem _ hm)) hrs)

/-- The labels of each stage have numbers that the evaluation draws, none twice. -/
theorem numbered_evaluate {n : Node} (hn : n.isNumbered = true) {s s' : Nat} {r : Fragment}
    (h : (n.evaluate ctx).run s = .ok (r, s')) : DrawsLabels ctx.slug s s' r.labels := by
  have changed {n : Node} {f : Sql.Expr → Sql.Expr} {s s' : Nat} {r : Fragment}
      (ih : ∀ {s s' : Nat} {r : Fragment}, (n.evaluate ctx).run s = .ok (r, s') →
        DrawsLabels ctx.slug s s' r.labels)
      (h : (do return (← n.evaluate ctx).map f : Evaluation Fragment).run s = .ok (r, s')) :
      DrawsLabels ctx.slug s s' r.labels := by
    obtain ⟨a, t, ha, h⟩ := Result.run_bind_eq_ok.1 h
    cases h
    exact (ih ha).sublist fun t => by rw [Fragment.labels_map]
  induction n generalizing s s' r with
  | integer | decimal | text | bool | column | taxon | modelAttribute =>
    rw [evaluate] at h
    cases h
    exact .none _ fun _ => Fragment.labels_ofSql _
  | paren n _ ih | not n _ ih | isNull n _ _ ih =>
    rw [evaluate] at h
    exact changed (ih hn) h
  | computed u n _ ih =>
    rw [evaluate] at h
    exact ih hn h
  | binary op l r _ hl hr =>
    obtain ⟨left, right⟩ := Bool.and_eq_true_iff.1 hn
    rw [evaluate] at h
    obtain ⟨a, t, ha, h⟩ := Result.run_bind_eq_ok.1 h
    obtain ⟨b, u, hb, h⟩ := Result.run_bind_eq_ok.1 h
    cases h
    refine ((hl left ha).append (hr right hb)).sublist fun v => ?_
    rw [labels_combine, List.flatMap_append]
    refine .append ?_ ?_
    · split <;> simp
    · split <;> simp
  | call f args single _ ih =>
    have each := allAreNumbered_iff.1 hn
    rw [evaluate] at h
    obtain ⟨results, t, hresults, h⟩ := Result.run_bind_eq_ok.1 h
    obtain ⟨_, ha, h⟩ := Result.bind_eq_ok.1 h
    cases h
    exact (numbered_evaluateEach (fun n hn => ih n hn (each n hn)) hresults).sublist
      (labels_evaluateCall ha)
  | transition t n a label? _ ih =>
    obtain ⟨value, unlabelled⟩ := Bool.and_eq_true_iff.1 hn
    rw [evaluate] at h
    obtain ⟨r, u, hr, h⟩ := Result.run_bind_eq_ok.1 h
    have inner := ih value hr
    rcases labels_evaluateTransition h with ⟨rfl, sublist⟩ | ⟨label, given, sublist⟩
    · exact inner.sublist sublist
    · rcases given with ⟨rfl, _⟩ | ⟨_, rfl, rfl⟩
      · cases unlabelled
      · exact inner.next.sublist sublist
  | root => cases hn

/-! ## Whole formulas -/

/-- A move with the slug for its label makes at most one more column by it. -/
theorem labels_lastMove {t : Target} {n : Node} {a : Aggregation} {r r' : Fragment} {s s' : Nat}
    {p : Target → Option Nat → Prop}
    (h : (evaluateTransition ctx t n a (some ctx.slug) r).run s = .ok (r', s'))
    (hr : ∀ u, AreLabels ctx.slug (p u) (r.labels u)) (new : ¬ p t none) (u : Target) :
    AreLabels ctx.slug (fun n => u = t ∧ n = none ∨ p u n) (r'.labels u) := by
  have kept := (hr u).mono (q := fun n => u = t ∧ n = none ∨ p u n) fun _ => .inr
  rcases labels_evaluateTransition h with ⟨_, sublist⟩ | ⟨label, given, sublist⟩
  · exact kept.sublist (sublist u)
  · rcases given with ⟨given, _⟩ | ⟨given, _⟩
    · cases given
      refine .sublist ?_ (sublist u)
      split
      · rename_i same
        subst same
        exact ((hr u).cons new).mono fun n => Or.imp_left fun e => ⟨rfl, e⟩
      · exact kept
    · cases given

/-- A whole formula ends with at most one column by the slug in each stage. -/
theorem labels_planRoot {n : Node} (hn : n.isNumbered = true) {s' : Nat} {r : Fragment}
    (h : ((planRoot ctx n).evaluate ctx).run 0 = .ok (r, s')) (t : Target) :
    AreLabels ctx.slug (fun _ => True) (r.labels t) := by
  have numbered {m : Node} (hm : m.isNumbered = true)
      (h : (m.evaluate ctx).run 0 = .ok (r, s')) :
      AreLabels ctx.slug (fun _ => True) (r.labels t) :=
    ((numbered_evaluate hm h).2 t).mono fun _ _ => trivial
  have ended {m : Node} {a? : Option Aggregation} (hm : m.isNumbered = true)
      (h : (((m.toAggregation none (some ctx.slug)).toPostAggregation a?
        (some ctx.slug)).evaluate ctx).run 0 = .ok (r, s')) :
      AreLabels ctx.slug (fun _ => True) (r.labels t) := by
    rw [toPostAggregation, evaluate] at h
    obtain ⟨aggregated, u, ha, h⟩ := Result.run_bind_eq_ok.1 h
    rw [toAggregation, evaluate] at ha
    obtain ⟨value, v, hv, ha⟩ := Result.run_bind_eq_ok.1 ha
    have before := labels_lastMove ha (numbered_evaluate hm hv).2 id
    refine (labels_lastMove h before ?_ t).mono fun _ _ => trivial
    rintro (⟨other, _⟩ | drawn)
    · cases other
    · exact drawn
  unfold planRoot at h
  dsimp only at h
  split at h
  · split at h
    · exact numbered ((isNumbered_toDimension n).trans hn) h
    · exact numbered hn h
  · split at h
    · exact ended ((isNumbered_toDimension n).trans hn) h
    · exact ended hn h
    · exact numbered (by simpa using hn) h
    · rw [toPostAggregation, evaluate] at h
      obtain ⟨value, v, hv, h⟩ := Result.run_bind_eq_ok.1 h
      exact (labels_lastMove h (numbered_evaluate hn hv).2 id t).mono fun _ _ => trivial
    · exact numbered hn h

end Node

/-- The columns of an outcome for one stage have labels of distinct columns of the formula. -/
structure Outcome.IsLabelled (slug : String) (o : Outcome) : Prop where
  preFormulas : AreLabels slug (fun _ => True) (o.preFormulas.map (·.label))
  dimensionFormulas : AreLabels slug (fun _ => True) (o.dimensionFormulas.map (·.label))
  sourceTemplates : AreLabels slug (fun _ => True) (o.sourceTemplates.map (·.label))

/-- No two columns of a rendered formula for one stage go by the same name. -/
theorem labels_renderTaxon {ctx : Context} {formula : String} {o : Outcome}
    (h : renderTaxon ctx formula = .ok o) : o.IsLabelled ctx.slug := by
  obtain ⟨n, hn, h⟩ := Result.bind_eq_ok.1 h
  obtain ⟨m, place, rfl, numbered⟩ :=
    Node.hereditary_isNumbered.rootOfFormula (fun _ _ _ => rfl) hn
  split at h
  · obtain ⟨simplified, hs, numbered⟩ : ∃ s, (Node.root m place).simplify ctx = .root s place ∧
        s.isNumbered = true :=
      Node.hereditary_isNumbered.simplify_root (fun _ _ h => nomatch h) numbered
    rw [hs] at h
    obtain ⟨⟨r, s⟩, hr, h⟩ := Result.bind_eq_ok.1 h
    cases h
    have each (t : Target) : AreLabels ctx.slug (fun _ => True) (r.labels t) := by
      rw [Node.plan, Node.evaluate] at hr
      cases missing : simplified.isMissing ctx with
      | true =>
        rw [missing, if_pos rfl, missing] at hr
        cases hr
        rw [Fragment.labels_ofSql]
        exact .nil
      | false =>
        rw [missing, if_neg Bool.false_ne_true] at hr
        split at hr
        · cases hr
          rw [Fragment.labels_ofSql]
          exact .nil
        · exact Node.labels_planRoot (Node.isNumbered_plan numbered _) hr t
    exact ⟨each .postAggregation, each .aggregation, each .dimension⟩
  · cases h

end SemanticLayer.Formula
