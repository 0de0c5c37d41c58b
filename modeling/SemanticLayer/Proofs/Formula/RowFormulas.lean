import SemanticLayer.Proofs.Formula.Additivity
import SemanticLayer.Proofs.Formula.Steady

/-!
# Formulas that are summed over rows

An arithmetic formula that is computed before aggregation becomes one column, which is summed under
the slug of its taxon.

* `IsArithmetic.exists_simplify?`, `IsArithmetic.simplified`: an arithmetic formula is simplified to
  one in which nothing is missing, computed where it was;
* `IsRowwise.plan_eq`, `IsRowwise.aggregation?_eq`, `IsRowwise.exists_computes`: the plan of a
  rowwise formula, its aggregation, and the SQL with its value;
* `isAdditive_iff_and_preFormulas`: the column of such a formula, and when it is additive.
-/

namespace SemanticLayer.Formula

open Sql (NumericRow)

namespace Node

variable {ctx : Context}

/-! ## Simplification -/

theorem IsArithmetic.exists_simplify? (ctx : Context) {n : Node} (h : n.IsArithmetic)
    (depth : Nat) : ∃ m, n.simplify? ctx depth = some m := by
  induction h with
  | integer | decimal | metric => exact ⟨_, rfl⟩
  | paren _ place ih =>
    obtain ⟨m, hm⟩ := ih
    unfold simplify? at hm ⊢
    exact ⟨.paren m place, by rw [simplifyWith, hm]; rfl⟩
  | @binary op l r _ _ _ place ihl ihr =>
    obtain ⟨a, ha⟩ := ihl
    obtain ⟨b, hb⟩ := ihr
    unfold simplify? at ha hb ⊢
    rw [simplifyWith]
    cases remaining ctx op l r with
    | left => exact ⟨a, ha⟩
    | right => exact ⟨b, hb⟩
    | both =>
      cases (Node.binary op l r place).constant? with
      | some c => exact ⟨_, rfl⟩
      | none => exact ⟨.binary op a b place, by rw [ha, hb]; rfl⟩

/-- What is computed before aggregation is not known to be a constant. -/
theorem IsArithmetic.constant?_eq_none {n : Node} (h : n.IsArithmetic)
    (present : n.isMissing ctx = false) (pre : n.phase ctx = .metricPre) : n.constant? = none := by
  induction h with
  | integer | decimal => cases pre
  | metric => rfl
  | paren _ _ ih => exact ih present pre
  | @binary op l r numeric hl hr place ihl ihr =>
    have ofLeft (h : l.constant? = none) : (Node.binary op l r place).constant? = none := by
      rw [constant?, h]
      rfl
    have ofRight (h : r.constant? = none) : (Node.binary op l r place).constant? = none := by
      rw [constant?, h]
      cases l.constant? <;> rfl
    cases operands numeric present with
    | both left right =>
      cases strict : op.isStrict with
      | true =>
        rcases (phase_strict_eq_metricPre_iff numeric hl hr left right strict).1 pre with
          ⟨_, preRight⟩ | ⟨preLeft, _⟩
        · exact ofRight (ihr right preRight)
        · exact ofLeft (ihl left preLeft)
      | false =>
        obtain ⟨preLeft, _⟩ :=
          (phase_loose_eq_metricPre_iff numeric hl hr left right strict).1 pre
        exact ofLeft (ihl left preLeft)
    | left loose left right =>
      exact ofLeft (ihl left ((phase_left_eq_metricPre_iff numeric hl loose left right).1 pre))
    | right loose left right =>
      exact ofRight (ihr right ((phase_right_eq_metricPre_iff numeric hr loose left right).1 pre))

/-- What an arithmetic formula is simplified to. -/
structure Reduces (ctx : Context) (n m : Node) : Prop where
  arithmetic : m.IsArithmetic
  present : m.All fun p => p.isMissing ctx = false
  anywhere : n.phase ctx = .any → m.phase ctx = .any
  before : n.phase ctx = .metricPre → m.phase ctx = .metricPre

theorem isArithmetic_toNode {op : Operator} (numeric : op.isNumeric = true) {c d e : Constant}
    (h : Constant.operate? op c d = some e) (place : Location) : (e.toNode place).IsArithmetic := by
  rw [Constant.operate?, if_pos numeric, Constant.arithmetic?] at h
  split at h
  · cases h
    exact .integer _ place
  · obtain ⟨x, _, h⟩ := Option.bind_eq_some_iff.1 h
    obtain ⟨y, _, h⟩ := Option.bind_eq_some_iff.1 h
    obtain ⟨z, _, h⟩ := Option.bind_eq_some_iff.1 h
    cases h
    exact .decimal _ place

/-- Simplification drops what is missing and folds constants, and leaves the rest where it is
computed. -/
theorem IsArithmetic.simplified {n m : Node} (h : n.IsArithmetic)
    (present : n.isMissing ctx = false) {depth : Nat} (hm : n.simplify? ctx depth = some m) :
    Reduces ctx n m := by
  induction h generalizing m with
  | integer n place =>
    cases hm
    exact ⟨.integer n place, all_of_children_eq_nil rfl rfl, id, id⟩
  | decimal x place =>
    cases hm
    exact ⟨.decimal x place, all_of_children_eq_nil rfl rfl, id, id⟩
  | metric h place =>
    cases hm
    exact ⟨.metric h place, all_of_children_eq_nil rfl present, id, id⟩
  | paren _ place ih =>
    rw [simplify?, simplifyWith] at hm
    obtain ⟨c, ⟨_, hc, same⟩, rfl⟩ := SimplifiedChild.of_bind hm
    cases same
    have inner := ih present hc
    exact ⟨.paren inner.arithmetic place,
      all_paren.2 ⟨inner.present c (mem_parts_self c), inner.present⟩,
      inner.anywhere, inner.before⟩
  | @binary op l r numeric hl hr place ihl ihr =>
    have never {p : Prop} (anywhere : (Node.binary op l r place).phase ctx = .any) : p :=
      absurd anywhere (phase_binary_ne_any numeric)
    rw [simplify?, simplifyWith] at hm
    cases operands numeric present with
    | left loose left right remains =>
      rw [remains] at hm
      have inner := ihl left hm
      exact ⟨inner.arithmetic, inner.present, never, fun pre =>
        inner.before ((phase_left_eq_metricPre_iff numeric hl loose left right).1 pre)⟩
    | right loose left right remains =>
      rw [remains] at hm
      have inner := ihr right hm
      exact ⟨inner.arithmetic, inner.present, never, fun pre =>
        inner.before ((phase_right_eq_metricPre_iff numeric hr loose left right).1 pre)⟩
    | both left right remains =>
      rw [remains] at hm
      dsimp only at hm
      split at hm
      · rename_i c value
        cases hm
        obtain ⟨a, _, folded⟩ := Option.bind_eq_some_iff.1 value
        obtain ⟨b, _, folded⟩ := Option.bind_eq_some_iff.1 folded
        refine ⟨isArithmetic_toNode numeric folded place, ?_, never, fun pre => ?_⟩
        · have leaf : (c.toNode place).children = [] := by cases c <;> rfl
          exact all_of_children_eq_nil leaf (isMissing_toNode c place)
        · have none := (IsArithmetic.binary numeric hl hr place).constant?_eq_none present pre
          rw [none] at value
          cases value
      · obtain ⟨a, ha, hm⟩ := Option.bind_eq_some_iff.1 hm
        obtain ⟨a', same, hm⟩ := Option.bind_eq_some_iff.1 hm
        cases same
        obtain ⟨b, hb, hm⟩ := Option.bind_eq_some_iff.1 hm
        obtain ⟨b', same, hm⟩ := Option.bind_eq_some_iff.1 hm
        cases same
        cases hm
        have onLeft := ihl left ha
        have onRight := ihr right hb
        have left' := onLeft.present a (mem_parts_self a)
        have right' := onRight.present b (mem_parts_self b)
        refine ⟨.binary numeric onLeft.arithmetic onRight.arithmetic place, ?_, never,
          fun pre => ?_⟩
        · refine all_binary.2 ⟨?_, onLeft.present, onRight.present⟩
          exact (isMissing_binary (left'.trans left.symm) (right'.trans right.symm) place
            place).trans present
        · cases strict : op.isStrict with
          | true =>
            refine (phase_strict_eq_metricPre_iff numeric onLeft.arithmetic onRight.arithmetic
              left' right' strict).2 ?_
            exact ((phase_strict_eq_metricPre_iff numeric hl hr left right strict).1 pre).imp
              (And.imp onLeft.anywhere onRight.before) (And.imp onLeft.before onRight.anywhere)
          | false =>
            refine (phase_loose_eq_metricPre_iff numeric onLeft.arithmetic onRight.arithmetic
              left' right' strict).2 ?_
            exact ((phase_loose_eq_metricPre_iff numeric hl hr left right strict).1 pre).imp
              onLeft.before onRight.before

/-! ## Plan and aggregation -/

theorem IsNumber.plan_eq {n : Node} (h : n.IsNumber) (parent : Parent) :
    n.plan ctx parent = n := by
  induction h generalizing parent with
  | integer | decimal => rfl
  | paren _ _ ih => rw [plan, ih]

/-- The plan of an operation that is computed before aggregation is that of its operands. -/
theorem plan_binary {op : Operator} {l r : Node} {place : Location}
    (numeric : op.isNumeric = true) (pre : (Node.binary op l r place).phase ctx = .metricPre)
    (hl : ∀ parent, l.plan ctx parent = l) (hr : ∀ parent, r.plan ctx parent = r)
    (parent : Parent) : (Node.binary op l r place).plan ctx parent = .binary op l r place := by
  have before : isPost ctx op l r = false := by
    rw [phase_binary_eq numeric] at pre
    refine Bool.eq_false_iff.2 fun post => ?_
    rw [isPost] at post
    rw [if_pos post] at pre
    cases pre
  rw [plan, if_pos numeric, hl, hr]
  dsimp only
  rw [before, planNumericOperand, planNumericOperand, Bool.false_and]
  rfl

/-- A rowwise formula is planned as it stands. -/
theorem IsRowwise.plan_eq {n : Node} (h : n.IsRowwise ctx) (parent : Parent) :
    n.plan ctx parent = n := by
  induction h generalizing parent with
  | metric => rfl
  | paren _ _ ih => rw [plan, ih]
  | sum terms hl hr place ihl ihr =>
    exact plan_binary (Operator.isNumeric_of_term terms)
      (IsRowwise.sum terms hl hr place).phase ihl ihr parent
  | scaled factors hl hr place ih =>
    exact plan_binary (Operator.isNumeric_of_factor factors)
      (IsRowwise.scaled factors hl hr place).phase ih hr.plan_eq parent
  | multiple hl hr place ih =>
    exact plan_binary rfl (IsRowwise.multiple hl hr place).phase hl.plan_eq ih parent
  | reciprocal hl hr place ih =>
    exact plan_binary rfl (IsRowwise.reciprocal hl hr place).phase hl.plan_eq ih parent

theorem IsNumber.aggregation?_eq {n : Node} (h : n.IsNumber) :
    n.aggregation? ctx = some .notSet := by
  induction h with
  | integer | decimal => rfl
  | paren _ _ ih => exact ih

/-- A rowwise formula is summed. -/
theorem IsRowwise.aggregation?_eq {n : Node} (h : n.IsRowwise ctx) :
    n.aggregation? ctx = some .sum := by
  induction h with
  | metric h =>
    obtain ⟨t, known, _, raw⟩ := h
    rw [aggregation?, useAggregation, known]
    dsimp only
    rw [Taxon.aggregation?, raw]
    rfl
  | paren _ _ ih => exact ih
  | sum terms _ _ _ ihl ihr =>
    rcases terms with rfl | rfl <;> rw [aggregation?, ihl, ihr] <;> rfl
  | scaled factors _ hr _ ih =>
    rcases factors with rfl | rfl <;> rw [aggregation?, ih, hr.aggregation?_eq] <;> rfl
  | multiple hl _ _ ih | reciprocal hl _ _ ih =>
    rw [aggregation?, hl.aggregation?_eq, ih]
    rfl

/-! ## SQL -/

theorem value?_numericSql {op : Operator} (numeric : op.isNumeric = true) (row : NumericRow)
    (l r : Sql.Expr) :
    (numericSql op l r).number? row = op.value? (l.number? row) (r.number? row) := by
  cases op with
  | add | sub =>
    unfold numericSql
    rw [Sql.Expr.number?, Sql.Expr.number?_coalesce_zero, Sql.Expr.number?_coalesce_zero]
    rfl
  | mul => rfl
  | div =>
    unfold numericSql
    rw [Sql.Expr.number?, Sql.Expr.number?_nullif_zero]
    by_cases zero : r.number? row = some 0
    · rw [if_pos zero, Operator.value?, if_pos zero]
      exact Option.map₂_none_right _ _
    · rw [if_neg zero]
      rfl
  | _ => cases numeric

/-- Whether a fragment has the value of a formula, and needs no other column. -/
structure Computes (ctx : Context) (n : Node) (f : Fragment) : Prop where
  evaluate : n.evaluate ctx = pure f
  alone : f.aggregations = []
  value : ∀ row, f.sql.number? row = n.value? ctx row

theorem Computes.paren {n : Node} {f : Fragment} (h : Computes ctx n f) (place : Location) :
    Computes ctx (.paren n place) (f.map .paren) where
  evaluate := by
    rw [Node.evaluate, h.evaluate]
    rfl
  alone := h.alone
  value := h.value

theorem Computes.binary {op : Operator} {l r : Node} {f g : Fragment}
    (numeric : op.isNumeric = true) (left : l.isMissing ctx = false)
    (right : r.isMissing ctx = false) (hl : Computes ctx l f) (hr : Computes ctx r g)
    (place : Location) :
    Computes ctx (.binary op l r place) (.combine (operationSql op) [f, g] [f, g]) where
  evaluate := by
    rw [Node.evaluate, hl.evaluate, hr.evaluate, left, right, numeric]
    rfl
  alone := by
    rw [Fragment.combine, List.foldl_cons, List.foldl_cons, List.foldl_nil, Fragment.collect,
      Fragment.collect, hl.alone, hr.alone]
    rfl
  value row := by
    rw [Node.value?, ← hl.value, ← hr.value, ← value?_numericSql numeric]
    rw [Fragment.combine, List.foldl_cons, List.foldl_cons, List.foldl_nil, Fragment.collect,
      Fragment.collect]
    dsimp only [Fragment.ofSql, List.map]
    rw [operationSql, if_pos numeric]

theorem IsNumber.exists_computes (ctx : Context) {n : Node} (h : n.IsNumber) :
    ∃ f, Computes ctx n f := by
  induction h with
  | integer | decimal => exact ⟨_, rfl, rfl, fun _ => rfl⟩
  | paren _ place ih =>
    obtain ⟨f, hf⟩ := ih
    exact ⟨_, hf.paren place⟩

/-- A rowwise formula has SQL with its value. -/
theorem IsRowwise.exists_computes {n : Node} (h : n.IsRowwise ctx) : ∃ f, Computes ctx n f := by
  induction h with
  | metric => exact ⟨_, rfl, rfl, fun _ => rfl⟩
  | paren _ place ih =>
    obtain ⟨f, hf⟩ := ih
    exact ⟨_, hf.paren place⟩
  | sum terms hl hr place ihl ihr =>
    obtain ⟨f, hf⟩ := ihl
    obtain ⟨g, hg⟩ := ihr
    have numeric := Operator.isNumeric_of_term terms
    exact ⟨_, hf.binary numeric hl.isMissing hr.isMissing hg place⟩
  | scaled factors hl hr place ih =>
    obtain ⟨f, hf⟩ := ih
    obtain ⟨g, hg⟩ := hr.exists_computes ctx
    have numeric := Operator.isNumeric_of_factor factors
    exact ⟨_, hf.binary numeric hl.isMissing hr.isMissing hg place⟩
  | multiple hl hr place ih | reciprocal hl hr place ih =>
    obtain ⟨f, hf⟩ := hl.exists_computes ctx
    obtain ⟨g, hg⟩ := ih
    exact ⟨_, hf.binary rfl hl.isMissing hr.isMissing hg place⟩

/-- What uses a taxon is moved past the aggregation as one column. -/
theorem evaluate_toPostAggregation {n : Node} {f : Fragment} (aggregation : Aggregation)
    (label : String) (h : Computes ctx n f) (pre : n.phase ctx = .metricPre)
    (used : (n.used ctx).isEmpty = false) (present : n.isMissing ctx = false) :
    ∃ g, (n.toPostAggregation (some aggregation) (some label)).evaluate ctx = pure g ∧
      g.aggregations = [.of f.sql label aggregation] := by
  rw [toPostAggregation, evaluate, h.evaluate]
  dsimp only [pure_bind, evaluateTransition, Option.getD]
  rw [pre, present, used]
  refine ⟨_, rfl, ?_⟩
  dsimp only
  rw [if_neg Bool.false_ne_true, h.alone]

/-- The plan of a rowwise formula computes it as one column. -/
theorem IsRowwise.exists_outcome {m : Node} (h : m.IsRowwise ctx) (place : Location)
    (whole : ctx.subrequestOnly = false) :
    ∃ o sql, ((Node.root m place).plan ctx .none).outcome ctx = .ok o ∧
      o.preFormulas = [.of sql ctx.slug .sum] ∧ ∀ row, sql.number? row = m.value? ctx row := by
  obtain ⟨f, hf⟩ := h.exists_computes
  have used : (m.used ctx).isEmpty = false := by
    rcases h.isArithmetic.phase_cases h.isMissing with ⟨p, _⟩ | ⟨_, used, _⟩ | p
    · cases h.phase.symm.trans p
    · exact used
    · cases h.phase.symm.trans p
  obtain ⟨g, hg, column⟩ :=
    evaluate_toPostAggregation .sum ctx.slug hf h.phase used h.isMissing
  have planned : (Node.root m place).plan ctx .none =
      .root (m.toPostAggregation (some .sum) (some ctx.slug)) place := by
    rw [plan, h.isMissing, if_neg Bool.false_ne_true, h.plan_eq, planRoot, whole,
      if_neg Bool.false_ne_true, h.phase, h.aggregation?_eq]
  have evaluated :
      (Node.root (m.toPostAggregation (some .sum) (some ctx.slug)) place).evaluate ctx =
        pure g := by
    rw [evaluate, toPostAggregation, Node.isMissing, h.isMissing, if_neg Bool.false_ne_true]
    exact hg
  rw [planned, outcome, evaluated]
  exact ⟨_, f.sql, rfl, column, hf.value⟩

/-- An arithmetic formula without a missing value is simplified to one of which this holds:

* it is computed before aggregation if the formula is;
* everything in it that is computed before aggregation is additive, exactly if every ratio of a
  number to something computed before aggregation vanishes;
* if it is computed before aggregation and only divides by numbers, its value on a sum of rows is
  the sum of its values on them;
* if it is computed before aggregation, the formula is one column that is summed, whose SQL has its
  value. -/
theorem isAdditive_iff_and_preFormulas {formula : String} {n : Node} {place : Location}
    (read : rootOfFormula ctx none formula = .ok (.root n place)) (h : n.IsArithmetic)
    (present : n.isMissing ctx = false) :
    ∃ m, (Node.root n place).simplify ctx = .root m place ∧
      (n.phase ctx = .metricPre → m.phase ctx = .metricPre) ∧
      ((m.All fun p => p.phase ctx = .metricPre → p.IsAdditive ctx) ↔ m.All (Vanishes ctx)) ∧
      (m.phase ctx = .metricPre → m.All (DividesByNumbers ctx) →
        ∀ (x : NumericRow) (xs : List NumericRow), m.DividesOn ctx x →
          m.value? ctx (xs.foldl (· + ·) x) =
            xs.foldl (fun v y => Option.map₂ (· + ·) v (m.value? ctx y)) (m.value? ctx x)) ∧
      (m.phase ctx = .metricPre → (Node.root n place).faults ctx = [] →
        ctx.subrequestOnly = false →
          ∃ o sql, renderTaxon ctx formula = .ok o ∧ o.preFormulas = [.of sql ctx.slug .sum] ∧
            ∀ row, sql.number? row = m.value? ctx row) := by
  obtain ⟨m, hm⟩ := h.exists_simplify? ctx
    (((Node.root n place).size + 2) * ((Node.root n place).size + 2))
  have reduces := h.simplified present hm
  have simplified : (Node.root n place).simplify ctx = .root m place := by
    unfold simplify? at hm
    rw [Node.simplify, simplify?, simplifyWith, hm]
    rfl
  have rowwise := reduces.arithmetic.isRowwise reduces.present
  refine ⟨m, simplified, reduces.before, all_isAdditive_iff reduces.arithmetic reduces.present,
    fun pre numbers x xs => (rowwise pre).value?_foldl numbers x xs, fun pre valid whole => ?_⟩
  rw [renderTaxon_eq_outcome read valid, simplified]
  exact (rowwise pre).exists_outcome place whole

/-! ### A sum and a reciprocal -/

theorem isAdditive_iff_and_preFormulas_spend :
    ∃ n place m o sql, rootOfFormula oneSource none "spend + clicks * 1.5 + fb|likes?" =
        .ok (.root n place) ∧ (Node.root n place).simplify oneSource = .root m place ∧
      m.phase oneSource = .metricPre ∧
      renderTaxon oneSource "spend + clicks * 1.5 + fb|likes?" = .ok o ∧
      o.preFormulas = [.of sql "" .sum] ∧ ∀ row, sql.number? row = m.value? oneSource row := by
  obtain ⟨n, hn, run⟩ : ∃ n, ofFormula oneSource none
      "spend + clicks * 1.5 + fb|likes?" = .ok n ∧ _ :=
    Result.ok_of_any (f := fun n => n.IsArithmetic ∧ n.isMissing oneSource = false ∧
      n.phase oneSource = .metricPre ∧ ((Node.root n n.place).faults oneSource).isEmpty = true)
      (by decide +kernel)
  obtain ⟨arithmetic, present, pre, valid⟩ := of_decide_eq_true run
  have read : rootOfFormula oneSource none "spend + clicks * 1.5 + fb|likes?" =
      .ok (.root n n.place) := by
    rw [rootOfFormula, hn]
    rfl
  obtain ⟨m, simplified, before, _, _, column⟩ :=
    isAdditive_iff_and_preFormulas read arithmetic present
  obtain ⟨o, sql, rendered, formulas, value⟩ := column (before pre) (List.isEmpty_iff.1 valid) rfl
  exact ⟨n, n.place, m, o, sql, read, simplified, before pre, rendered, formulas, value⟩

/-- One over a metric is computed before aggregation, and is half as much on a row taken twice. -/
theorem not_isAdditive_reciprocal :
    ∃ n place, rootOfFormula oneSource none "1.0 / spend" = .ok (.root n place) ∧
      (Node.root n place).faults oneSource = [] ∧ n.IsArithmetic ∧
      n.phase oneSource = .metricPre ∧ ¬ n.IsAdditive oneSource := by
  obtain ⟨n, hn, run⟩ : ∃ n, ofFormula oneSource none "1.0 / spend" = .ok n ∧ _ :=
    Result.ok_of_any (f := fun n => ((Node.root n n.place).faults oneSource).isEmpty = true ∧
      n.IsArithmetic ∧ n.phase oneSource = .metricPre ∧ n.DividesOn oneSource (fun _ => 1) ∧
      n.DividesOn oneSource (fun _ => 1 + 1) ∧ n.value? oneSource (fun _ => 1) = some 1 ∧
      n.value? oneSource (fun _ => 1 + 1) = some (1 / 2)) (by decide +kernel)
  obtain ⟨valid, arithmetic, pre, once, twice, one, half⟩ := of_decide_eq_true run
  refine ⟨n, n.place, by rw [rootOfFormula, hn]; rfl, List.isEmpty_iff.1 valid, arithmetic, pre,
    fun additive => ?_⟩
  have sum := additive _ _ once once twice
  rw [one] at sum
  have two : some (1 / 2 : ℚ) = some (1 + 1) := half.symm.trans sum
  exact absurd two (by decide +kernel)

end Node

end SemanticLayer.Formula
