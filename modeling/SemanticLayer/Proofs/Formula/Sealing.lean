import SemanticLayer.Proofs.Formula.Exposure

/-!
# Outcomes that keep their placeholders

Which placeholders show in the outcome of a formula is known from its plan.

* `Node.exposure`: the placeholders that the evaluation of a node leaves, node by node;
* `exposure_evaluate`: evaluation leaves exactly these;
* `renderTaxon_isSealed_iff`: all placeholders of an outcome stay in their stages exactly if no
  exposed value is moved into another stage, or ends the formula.
-/

namespace SemanticLayer.Formula

open Sql (Expr)

namespace Node

variable {ctx : Context}

/-! ## Nodes -/

/-- Whether the stage that computes a move cannot fill in a placeholder of the value: only that of
one data source fills in any. -/
def moveEscapes (t : Target) (n : Node) (names : List String) : Bool :=
  match t with
  | .dimension => !names.all n.placeholders.contains
  | _ => !names.isEmpty

/-- The placeholders of a value after its move.  A value without taxons is not moved, and one that
is missing carries nothing along. -/
def movedExposure (ctx : Context) (t : Target) (n : Node) (label? : Option String) (e : Exposure) :
    Exposure :=
  if n.phase ctx = t.phase then e
  else
    let carried := if n.isMissing ctx then Exposure.ofNames e.names else e
    match (n.used ctx).isEmpty with
    | true => { carried with isLabelled := label?.isSome || e.isLabelled }
    | false =>
      ⟨[], if n.isMissing ctx then none else some [],
        moveEscapes t n e.names || carried.escapes, true⟩

mutual

/-- The placeholders that the evaluation of a node leaves. -/
def exposure (ctx : Context) : Node → Exposure
  | .integer .. => .ofNames []
  | .decimal .. => .ofNames []
  | .text .. => .ofNames []
  | .bool .. => .ofNames []
  | .column .. => .ofNames []
  | .paren n _ => (n.exposure ctx).changed
  | .taxon u _ => .ofNames (if u.isMetric || u.dataSource?.isNone then [] else [u.slug])
  | .attribute _ sql _ => .ofNames sql.placeholders
  | .computed _ n _ => n.exposure ctx
  | .binary op l r _ =>
    let left := l.exposure ctx
    let right := r.exposure ctx
    .join [left, right]
      ((if op.isNumeric && l.isMissing ctx then [] else [left]) ++
        if op.isNumeric && r.isMissing ctx then [] else [right])
  | .not n _ => (n.exposure ctx).changed
  | .isNull n _ _ => (n.exposure ctx).changed
  | .call f args _ _ => callExposure ctx f args (exposureEach ctx args)
  | .transition t n _ label? _ => movedExposure ctx t n label? (n.exposure ctx)
  | .root n _ => if n.isMissing ctx then .ofNames [] else n.exposure ctx

def exposureEach (ctx : Context) : List Node → List Exposure
  | [] => []
  | n :: ns => n.exposure ctx :: exposureEach ctx ns

end

theorem exposure_addFormula {t : Target} {n : Node} {aggregation : Aggregation} {label : String}
    {sql : Expr} {r r' : Fragment} (h : addFormula t n aggregation label sql r = .ok r') :
    r'.exposure =
      { r.exposure with escapes := moveEscapes t n sql.placeholders || r.escapes } := by
  have counted (escapes : Bool) (h : r'.escapes = escapes) (same : { r'.exposure with
      escapes := r.escapes } = r.exposure) : r'.exposure = { r.exposure with escapes } := by
    subst h
    rw [← same]
    rfl
  cases t with
  | dimension =>
    obtain ⟨source, _, h⟩ := Result.bind_eq_ok.1 h
    cases h
    refine counted _ ?_ rfl
    unfold Fragment.escapes
    rw [List.any_cons]
    simp only [SourceTemplate.escapes, SourceTemplate.of, moveEscapes]
    ac_rfl
  | aggregation | postAggregation =>
    cases h
    refine counted _ ?_ rfl
    unfold Fragment.escapes
    rw [List.any_cons]
    simp only [PreFormula.escapes, PreFormula.of, moveEscapes]
    ac_rfl

theorem exposure_evaluateTransition {t : Target} {n : Node} {aggregation : Aggregation}
    {label? : Option String} {r r' : Fragment} {s s' : Nat}
    (h : (evaluateTransition ctx t n aggregation label? r).run s = .ok (r', s')) :
    r'.exposure = movedExposure ctx t n label? r.exposure := by
  unfold evaluateTransition at h
  unfold movedExposure
  dsimp only at h
  by_cases same : n.phase ctx = t.phase
  · rw [if_pos same] at h
    cases h
    rw [if_pos same]
  rw [if_neg same] at h
  rw [if_neg same]
  cases accepts : t.accepts (n.phase ctx) with
  | false =>
    rw [accepts] at h
    cases h
  | true =>
    rw [accepts] at h
    cases constant : (n.used ctx).isEmpty with
    | true =>
      rw [constant] at h
      cases h
      cases missing : n.isMissing ctx <;> cases label? <;> rfl
    | false =>
      rw [constant] at h
      have moved {label : String} {u : Nat}
          (h : (addFormula t n aggregation label r.sql
            { (if n.isMissing ctx then Fragment.ofSql r.sql else r) with
              sql := .col (Identifier.safe label)
              template? := if n.isMissing ctx then none else some (.col (Identifier.safe label))
              label? := some label } : Evaluation Fragment).run u = .ok (r', s')) :
          r'.exposure = ⟨[], if n.isMissing ctx then none else some [],
            moveEscapes t n r.exposure.names ||
              (if n.isMissing ctx then Exposure.ofNames r.exposure.names else r.exposure).escapes,
            true⟩ := by
        obtain ⟨_, ha, h⟩ := Result.bind_eq_ok.1 h
        cases h
        rw [exposure_addFormula ha]
        cases missing : n.isMissing ctx <;> rfl
      cases label? with
      | some label => exact moved h
      | none => exact moved h

theorem exposure_evaluateEach {ns : List Node} {s s' : Nat} {rs : List Fragment}
    (each : ∀ n ∈ ns, ∀ {s s' : Nat} {r : Fragment}, (n.evaluate ctx).run s = .ok (r, s') →
      r.exposure = n.exposure ctx)
    (h : (evaluateEach ctx ns).run s = .ok (rs, s')) :
    rs.map Fragment.exposure = exposureEach ctx ns := by
  induction ns generalizing s rs with
  | nil =>
    rw [evaluateEach] at h
    cases h
    rw [exposureEach, List.map_nil]
  | cons n ns ih =>
    rw [evaluateEach] at h
    obtain ⟨r, t, hr, h⟩ := Result.run_bind_eq_ok.1 h
    obtain ⟨rs', t', hrs, h⟩ := Result.run_bind_eq_ok.1 h
    cases h
    rw [List.map_cons, exposureEach, each n (List.mem_cons_self ..) hr,
      ih (fun m hm => each m (List.mem_cons_of_mem _ hm)) hrs]

/-- What shows after evaluation is known before it. -/
theorem exposure_evaluate {n : Node} {s s' : Nat} {r : Fragment}
    (h : (n.evaluate ctx).run s = .ok (r, s')) : r.exposure = n.exposure ctx := by
  have changed {n : Node} {f : Expr → Expr} (hf : ∀ e, (f e).placeholders = e.placeholders)
      {s s' : Nat} {r : Fragment}
      (ih : ∀ {s s' : Nat} {r : Fragment}, (n.evaluate ctx).run s = .ok (r, s') →
        r.exposure = n.exposure ctx)
      (h : (do return (← n.evaluate ctx).map f : Evaluation Fragment).run s = .ok (r, s')) :
      r.exposure = (n.exposure ctx).changed := by
    obtain ⟨a, t, ha, h⟩ := Result.run_bind_eq_ok.1 h
    cases h
    rw [Fragment.exposure_map hf, ih ha]
  induction n generalizing s s' r with
  | integer | decimal | text | bool | modelAttribute =>
    rw [evaluate] at h
    cases h
    rw [exposure]
    rfl
  | column =>
    rw [evaluate] at h
    cases h
    rw [exposure, Fragment.exposure_ofSql]
    split <;> rfl
  | taxon u _ =>
    rw [evaluate] at h
    cases h
    rw [exposure, Fragment.exposure_ofSql, useSql]
    split <;> rfl
  | paren n _ ih | not n _ ih | isNull n _ _ ih =>
    rw [evaluate] at h
    rw [exposure]
    exact changed (by simp) ih h
  | computed u n _ ih =>
    rw [evaluate] at h
    rw [exposure]
    exact ih h
  | binary op l r _ hl hr =>
    rw [evaluate] at h
    obtain ⟨left, t, hleft, h⟩ := Result.run_bind_eq_ok.1 h
    obtain ⟨right, u, hright, h⟩ := Result.run_bind_eq_ok.1 h
    cases h
    rw [exposure, ← hl hleft, ← hr hright, Fragment.exposure_combine]
    · cases op.isNumeric && l.isMissing ctx <;> cases op.isNumeric && r.isMissing ctx <;> rfl
    · intro es two
      obtain ⟨a, b, rfl⟩ := List.length_eq_two.1 two
      simp
  | call f args single _ ih =>
    rw [evaluate] at h
    obtain ⟨results, t, hresults, h⟩ := Result.run_bind_eq_ok.1 h
    obtain ⟨_, ha, h⟩ := Result.bind_eq_ok.1 h
    cases h
    rw [exposure, ← exposure_evaluateEach (fun n hn => ih n hn) hresults, exposure_evaluateCall ha]
  | transition t n a label? _ ih =>
    rw [evaluate] at h
    obtain ⟨r, u, hr, h⟩ := Result.run_bind_eq_ok.1 h
    rw [exposure, exposure_evaluateTransition h, ih hr]
  | root n _ ih =>
    rw [evaluate] at h
    rw [exposure]
    cases missing : n.isMissing ctx with
    | true =>
      rw [missing] at h
      cases h
      rfl
    | false =>
      rw [missing] at h
      exact ih h

end Node

/-! ## Outcomes -/

/-- Whether each placeholder of an outcome stays where it is filled in: in the template of a
source that uses it, or over the dimensions of the request. -/
structure Outcome.IsSealed (o : Outcome) : Prop where
  preFormulas : ∀ f ∈ o.preFormulas, f.formula.placeholders = []
  dimensionFormulas : ∀ f ∈ o.dimensionFormulas, f.formula.placeholders = []
  sql : o.post.sql.placeholders = []
  template : ∀ t ∈ o.post.template?, ∀ name ∈ t.placeholders, name = dimensionsPlaceholder
  sourceTemplates : ∀ t ∈ o.sourceTemplates, ∀ name ∈ t.template.placeholders, name ∈ t.used

theorem Fragment.escapes_eq_false {r : Fragment} :
    r.escapes = false ↔
      (∀ f ∈ r.aggregations, f.formula.placeholders = []) ∧
      (∀ f ∈ r.dimensionFormulas, f.formula.placeholders = []) ∧
      ∀ t ∈ r.sourceTemplates, ∀ name ∈ t.template.placeholders, name ∈ t.used := by
  simp [escapes, PreFormula.escapes, SourceTemplate.escapes, SortedSet.contains, and_assoc]

/-- A value that ends under a label is read by it, and shows no placeholder. -/
theorem placeholders_labelled (sql : Expr) (label? : Option String) :
    (match label? with
      | some label => Expr.col label
      | none => sql).placeholders = [] ↔ (label?.isSome || sql.placeholders.isEmpty) = true := by
  cases label? <;> simp

/-- All placeholders of an outcome stay where they are filled in exactly if none escapes from the
node, and none is left where it ends. -/
theorem isSealed_outcome {ctx : Context} {n : Node} {o : Outcome} (h : n.outcome ctx = .ok o) :
    o.IsSealed ↔ (n.exposure ctx).isSealed = true := by
  obtain ⟨⟨r, s⟩, hr, h⟩ := Result.bind_eq_ok.1 h
  rw [← Node.exposure_evaluate hr]
  cases h
  have template : (∀ t ∈ r.template?, ∀ name ∈ t.placeholders, name = dimensionsPlaceholder) ↔
      (r.template?.map Expr.placeholders).all (·.all (· = dimensionsPlaceholder)) = true := by
    cases r.template? <;> simp
  unfold Exposure.isSealed
  rw [Bool.and_eq_true, Bool.and_eq_true, Bool.not_eq_true', Fragment.exposure_escapes,
    Fragment.escapes_eq_false]
  constructor
  · rintro ⟨pre, dimension, sql, names, sources⟩
    exact ⟨⟨⟨pre, dimension, sources⟩, (placeholders_labelled ..).1 sql⟩, template.1 names⟩
  · rintro ⟨⟨⟨pre, dimension, sources⟩, sql⟩, names⟩
    exact ⟨pre, dimension, (placeholders_labelled ..).2 sql, template.2 names, sources⟩

/-- The placeholders of a formula's outcome stay where they are filled in exactly if none escapes
from its plan: no move into a stage over all data sources takes a value that still shows one, and
none shows at the end. -/
theorem renderTaxon_isSealed_iff {ctx : Context} {formula : String} {n : Node} {o : Outcome}
    (hn : Node.rootOfFormula ctx none formula = .ok n) (ho : renderTaxon ctx formula = .ok o) :
    o.IsSealed ↔ (((n.simplify ctx).plan ctx .none).exposure ctx).isSealed = true := by
  unfold renderTaxon at ho
  obtain ⟨m, hm, ho⟩ := Result.bind_eq_ok.1 ho
  rw [hn] at hm
  cases hm
  split at ho
  · exact isSealed_outcome ho
  · cases ho

def campaignTaxon (slug : String) (dataSource? : Option String) : String × Taxon :=
  (slug, ⟨slug, slug, dataSource?, .dimension, .raw .groupBy, .text, "shop", none, none, none⟩)

/-- A dimension of no data source and one of a single data source. -/
def campaignContext : Context :=
  { Context.ofTaxons (.ofList [campaignTaxon "country" none, campaignTaxon "fb|camp" (some "fb")])
    with slug := "out", type := .dimension }

/-- The value of a single data source is moved before it is compared. -/
theorem renderTaxon_comparison_isSealed :
    ∃ o, renderTaxon campaignContext "country = fb|camp" = .ok o ∧ o.IsSealed := by
  have exposed :
      (Node.rootOfFormula campaignContext none "country = fb|camp").toOption.any fun n =>
        (((n.simplify campaignContext).plan campaignContext .none).exposure
          campaignContext).isSealed := by
    decide +kernel
  have rendered : (renderTaxon campaignContext "country = fb|camp").toOption.any
      fun _ => true := by
    decide +kernel
  obtain ⟨n, hn, exposed⟩ := Result.ok_of_any exposed
  obtain ⟨o, ho, -⟩ := Result.ok_of_any rendered
  exact ⟨o, ho, (renderTaxon_isSealed_iff hn ho).2 exposed⟩

/-- In parentheses it is not. -/
theorem renderTaxon_parentheses_not_isSealed :
    ∃ o, renderTaxon campaignContext "(country = fb|camp)" = .ok o ∧ ¬ o.IsSealed := by
  have known :
      (Node.rootOfFormula campaignContext none "(country = fb|camp)").toOption.any fun n =>
        let planned := (n.simplify campaignContext).plan campaignContext .none
        n.faults campaignContext = [] ∧ planned.evaluable campaignContext = true ∧
          (planned.exposure campaignContext).isSealed = false := by
    decide +kernel
  obtain ⟨n, hn, known⟩ := Result.ok_of_any known
  obtain ⟨valid, evaluable, exposed⟩ := of_decide_eq_true known
  rw [renderTaxon_eq_outcome hn valid]
  rcases Node.outcome_cases ((n.simplify campaignContext).plan campaignContext .none) with
    ⟨_, o, ho⟩ | ⟨unfit, _⟩
  · refine ⟨o, ho, ?_⟩
    rw [isSealed_outcome ho, exposed]
    exact Bool.false_ne_true
  · rw [evaluable] at unfit
    cases unfit

end SemanticLayer.Formula
