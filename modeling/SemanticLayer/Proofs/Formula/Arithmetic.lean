import SemanticLayer.Proofs.Formula.Rereading

/-!
# Arithmetic over metrics

Formulas of numbers, parentheses, the four operations, and metrics that are summed.

* `Node.IsArithmetic`: such a formula, in which optional metrics may be missing;
* `IsArithmetic.level`: before aggregation, what uses no taxon is constant and computed anywhere;
* `phase_strict_eq_metricPre_iff`, `phase_loose_eq_metricPre_iff`: the operations that are computed
  before aggregation;
* `Node.IsNumber`, `Node.IsRowwise`: what is computed anywhere, and what is computed before
  aggregation, if nothing in it is missing.
-/

namespace SemanticLayer.Formula

/-- Whether a taxon is a metric that is not computed and is summed. -/
def TaxonUse.IsSummed (u : TaxonUse) : Prop :=
  ∃ t, u.taxon? = some t ∧ t.type = .metric ∧ t.definition = .raw .sum

instance : DecidablePred TaxonUse.IsSummed := fun u =>
  decidable_of_iff (u.taxon?.any fun t => t.type = .metric ∧ t.definition = .raw .sum) (by
    rw [Option.any_eq_true]
    simp [TaxonUse.IsSummed])

theorem TaxonUse.IsSummed.isMetric {u : TaxonUse} (h : u.IsSummed) : u.isMetric = true := by
  obtain ⟨t, known, metric, _⟩ := h
  rw [TaxonUse.isMetric, known, Option.any_some, metric]
  rfl

theorem Operator.isNumeric_of_term {op : Operator} (h : op = .add ∨ op = .sub) :
    op.isNumeric = true := by
  rcases h with rfl | rfl <;> rfl

theorem Operator.isNumeric_of_factor {op : Operator} (h : op = .mul ∨ op = .div) :
    op.isNumeric = true := by
  rcases h with rfl | rfl <;> rfl

namespace Node

variable {ctx : Context}

/-- Formulas of numbers and summed metrics. -/
inductive IsArithmetic : Node → Prop
  | integer (n : Int64) (place : Location) : IsArithmetic (.integer n place)
  | decimal (x : Double) (place : Location) : IsArithmetic (.decimal x place)
  | paren {n : Node} (h : IsArithmetic n) (place : Location) : IsArithmetic (.paren n place)
  | metric {u : TaxonUse} (h : u.IsSummed) (place : Location) : IsArithmetic (.taxon u place)
  | binary {op : Operator} {l r : Node} (numeric : op.isNumeric = true) (hl : IsArithmetic l)
      (hr : IsArithmetic r) (place : Location) : IsArithmetic (.binary op l r place)

/-- Whether a formula is arithmetic can be read off it. -/
def decideIsArithmetic : (n : Node) → Decidable n.IsArithmetic
  | .integer n place => .isTrue (.integer n place)
  | .decimal x place => .isTrue (.decimal x place)
  | .paren n place =>
    have := decideIsArithmetic n
    decidable_of_iff n.IsArithmetic ⟨(.paren · place), fun h => by cases h; assumption⟩
  | .taxon u place =>
    decidable_of_iff u.IsSummed ⟨(.metric · place), fun h => by cases h; assumption⟩
  | .binary op l r place =>
    have := decideIsArithmetic l
    have := decideIsArithmetic r
    decidable_of_iff (op.isNumeric = true ∧ l.IsArithmetic ∧ r.IsArithmetic)
      ⟨fun h => .binary h.1 h.2.1 h.2.2 place, fun h => by
        cases h with
        | binary numeric hl hr => exact ⟨numeric, hl, hr⟩⟩
  | .text .. | .bool .. | .column .. | .attribute .. | .computed .. | .not .. | .isNull ..
  | .call .. | .transition .. | .root .. => .isFalse fun h => by cases h

instance : DecidablePred IsArithmetic := decideIsArithmetic

/-- Everything in an arithmetic formula is arithmetic. -/
theorem IsArithmetic.all {n : Node} (h : n.IsArithmetic) : n.All IsArithmetic := by
  induction h with
  | integer n place => exact all_of_children_eq_nil rfl (.integer n place)
  | decimal x place => exact all_of_children_eq_nil rfl (.decimal x place)
  | paren h place ih => exact all_paren.2 ⟨.paren h place, ih⟩
  | metric h place => exact all_of_children_eq_nil rfl (.metric h place)
  | binary numeric hl hr place ihl ihr =>
    exact all_binary.2 ⟨.binary numeric hl hr place, ihl, ihr⟩

section
variable {op : Operator} {l r : Node} {place : Location}

/-- Which operands of an operation that has a value are there, and which one it leaves out. -/
inductive Operands (ctx : Context) (op : Operator) (l r : Node) : Prop
  | both (left : l.isMissing ctx = false) (right : r.isMissing ctx = false)
      (remains : remaining ctx op l r = .both)
  | left (loose : op.isStrict = false) (left : l.isMissing ctx = false)
      (right : r.isMissing ctx = true) (remains : remaining ctx op l r = .left)
  | right (loose : op.isStrict = false) (left : l.isMissing ctx = true)
      (right : r.isMissing ctx = false) (remains : remaining ctx op l r = .right)

theorem operands (numeric : op.isNumeric = true)
    (present : (Node.binary op l r place).isMissing ctx = false) : Operands ctx op l r := by
  cases hl : l.isMissing ctx <;> cases hr : r.isMissing ctx
  · refine .both hl hr ?_
    cases op <;> simp [remaining, hl, hr]
  · cases op with
    | add | sub => exact .left rfl hl hr (by simp [remaining, hl, hr])
    | mul | div => simp [isMissing, hl, hr] at present
    | _ => cases numeric
  · cases op with
    | add => exact .right rfl hl hr (by simp [remaining, hl])
    | sub | mul | div => simp [isMissing, hl] at present
    | _ => cases numeric
  · cases op with
    | add | sub | mul | div => simp [isMissing, hl, hr] at present
    | _ => cases numeric

theorem isEmpty_used_binary : ((Node.binary op l r place).used ctx).isEmpty =
    ((l.isMissing ctx || (l.used ctx).isEmpty) && (r.isMissing ctx || (r.used ctx).isEmpty)) := by
  rw [used, UsedSlugs.isEmpty_merge]
  cases l.isMissing ctx <;> cases r.isMissing ctx <;> rfl

theorem isConstant_type_binary (numeric : op.isNumeric = true)
    (some : (l.isMissing ctx && r.isMissing ctx) = false) :
    ((Node.binary op l r place).type ctx).isConstant =
      ((l.isMissing ctx || (l.type ctx).isConstant) &&
        (r.isMissing ctx || (r.type ctx).isConstant)) := by
  rw [type, operationType, numeric]
  cases hl : l.isMissing ctx <;> cases hr : r.isMissing ctx
  · simp [ValueType.common]
  · simp [ValueType.common]
  · simp [ValueType.common]
  · rw [hl, hr] at some
    cases some

theorem phase_binary_eq (numeric : op.isNumeric = true) :
    (Node.binary op l r place).phase ctx =
      if isPostOperation ctx op l r (l.phase ctx) (r.phase ctx) then .metricPost
      else .metricPre := by
  rw [phase, if_pos numeric]

end

/-- An arithmetic formula that is not computed after aggregation is constant exactly if it uses no
taxon, and that decides where it is computed. -/
theorem IsArithmetic.level {n : Node} (h : n.IsArithmetic) (present : n.isMissing ctx = false)
    (early : n.phase ctx ≠ .metricPost) :
    (n.type ctx).isConstant = (n.used ctx).isEmpty ∧
      n.phase ctx = if (n.used ctx).isEmpty then .any else .metricPre := by
  induction h with
  | integer | decimal => exact ⟨rfl, rfl⟩
  | paren _ _ ih => exact ih present early
  | @metric u h place =>
    obtain ⟨t, known, _⟩ := id h
    have used : ((Node.taxon u place).used ctx).isEmpty = false := by
      rw [Node.used, known, Option.isSome_some, if_pos rfl, UsedSlugs.isEmpty_ofTaxon]
    rw [used, type, known, phase, usePhase, h.isMetric]
    exact ⟨rfl, rfl⟩
  | @binary op l r numeric hl hr place ihl ihr =>
    rw [phase_binary_eq numeric] at early ⊢
    cases post : isPostOperation ctx op l r (l.phase ctx) (r.phase ctx) with
    | true =>
      rw [post] at early
      exact absurd rfl early
    | false =>
      unfold isPostOperation isPostValue at post
      cases operands numeric present with
      | both left right =>
        rw [isEmpty_used_binary, isConstant_type_binary numeric (by rw [left]; rfl), left, right]
        obtain ⟨⟨leftEarly, rightEarly⟩, apart⟩ : ((l.phase ctx ≠ .metricPost ∧
            r.phase ctx ≠ .metricPost) ∧ _) := by
          simpa only [left, right, Bool.not_false, Bool.true_and, Bool.or_eq_false_iff,
            decide_eq_false_iff_not] using post
        rw [(ihl left leftEarly).1, (ihr right rightEarly).1] at apart ⊢
        refine ⟨rfl, ?_⟩
        revert apart
        cases op.isStrict <;> cases (l.used ctx).isEmpty <;> cases (r.used ctx).isEmpty <;> decide
      | left loose left right =>
        obtain ⟨leftEarly, used⟩ : l.phase ctx ≠ .metricPost ∧ (l.used ctx).isEmpty = false := by
          simpa [left, right, loose] using post
        rw [isEmpty_used_binary, isConstant_type_binary numeric (by rw [left]; rfl), left, right,
          (ihl left leftEarly).1, used]
        exact ⟨rfl, rfl⟩
      | right loose left right =>
        obtain ⟨rightEarly, used⟩ : r.phase ctx ≠ .metricPost ∧ (r.used ctx).isEmpty = false := by
          simpa [left, right, loose] using post
        rw [isEmpty_used_binary, isConstant_type_binary numeric (by rw [left, right]; rfl), left,
          right, (ihr right rightEarly).1, used]
        exact ⟨rfl, rfl⟩

theorem IsArithmetic.phase_cases {n : Node} (h : n.IsArithmetic)
    (present : n.isMissing ctx = false) :
    n.phase ctx = .any ∧ (n.used ctx).isEmpty = true ∧ (n.type ctx).isConstant = true ∨
      n.phase ctx = .metricPre ∧ (n.used ctx).isEmpty = false ∧
        (n.type ctx).isConstant = false ∨
      n.phase ctx = .metricPost := by
  by_cases early : n.phase ctx = .metricPost
  · exact .inr (.inr early)
  · obtain ⟨constant, phase⟩ := h.level present early
    cases used : (n.used ctx).isEmpty with
    | true =>
      rw [used] at constant phase
      exact .inl ⟨phase, rfl, constant⟩
    | false =>
      rw [used] at constant phase
      exact .inr (.inl ⟨phase, rfl, constant⟩)

section
variable {op : Operator} {l r : Node} {place : Location} (numeric : op.isNumeric = true)
include numeric

theorem phase_binary_ne_any : (Node.binary op l r place).phase ctx ≠ .any := by
  rw [phase_binary_eq numeric]
  split <;> decide

section
variable (hl : l.IsArithmetic) (hr : r.IsArithmetic) (left : l.isMissing ctx = false)
  (right : r.isMissing ctx = false)
include hl hr left right

/-- A product or a ratio is computed before aggregation if one side is a constant and the other one
is computed before aggregation. -/
theorem phase_strict_eq_metricPre_iff (strict : op.isStrict = true) :
    (Node.binary op l r place).phase ctx = .metricPre ↔
      l.phase ctx = .any ∧ r.phase ctx = .metricPre ∨
        l.phase ctx = .metricPre ∧ r.phase ctx = .any := by
  rw [phase_binary_eq numeric, isPostOperation, isPostValue, isPostValue, strict]
  rcases hl.phase_cases left with ⟨p, u, c⟩ | ⟨p, u, c⟩ | p <;>
    rcases hr.phase_cases right with ⟨q, v, d⟩ | ⟨q, v, d⟩ | q <;>
      simp [*]

/-- A sum or a difference is computed before aggregation if both sides are. -/
theorem phase_loose_eq_metricPre_iff (loose : op.isStrict = false) :
    (Node.binary op l r place).phase ctx = .metricPre ↔
      l.phase ctx = .metricPre ∧ r.phase ctx = .metricPre := by
  rw [phase_binary_eq numeric, isPostOperation, isPostValue, isPostValue, loose]
  rcases hl.phase_cases left with ⟨p, u, c⟩ | ⟨p, u, c⟩ | p <;>
    rcases hr.phase_cases right with ⟨q, v, d⟩ | ⟨q, v, d⟩ | q <;>
      simp [*]

end

/-- A sum or a difference without its right side is computed where its left side is. -/
theorem phase_left_eq_metricPre_iff (hl : l.IsArithmetic) (loose : op.isStrict = false)
    (left : l.isMissing ctx = false) (right : r.isMissing ctx = true) :
    (Node.binary op l r place).phase ctx = .metricPre ↔ l.phase ctx = .metricPre := by
  rw [phase_binary_eq numeric, isPostOperation, isPostValue, isPostValue, loose]
  rcases hl.phase_cases left with ⟨p, u, c⟩ | ⟨p, u, c⟩ | p <;> simp [*]

theorem phase_right_eq_metricPre_iff (hr : r.IsArithmetic) (loose : op.isStrict = false)
    (left : l.isMissing ctx = true) (right : r.isMissing ctx = false) :
    (Node.binary op l r place).phase ctx = .metricPre ↔ r.phase ctx = .metricPre := by
  rw [phase_binary_eq numeric, isPostOperation, isPostValue, isPostValue, loose]
  rcases hr.phase_cases right with ⟨p, u, c⟩ | ⟨p, u, c⟩ | p <;> simp [*]

end

/-- Numbers in parentheses. -/
inductive IsNumber : Node → Prop
  | integer (n : Int64) (place : Location) : IsNumber (.integer n place)
  | decimal (x : Double) (place : Location) : IsNumber (.decimal x place)
  | paren {n : Node} (h : IsNumber n) (place : Location) : IsNumber (.paren n place)

/-- Formulas that are computed on each row before rows are aggregated. -/
inductive IsRowwise (ctx : Context) : Node → Prop
  | metric {u : TaxonUse} {place : Location} (h : u.IsSummed)
      (present : (Node.taxon u place).isMissing ctx = false) : IsRowwise ctx (.taxon u place)
  | paren {n : Node} (h : IsRowwise ctx n) (place : Location) : IsRowwise ctx (.paren n place)
  | sum {op : Operator} {l r : Node} (terms : op = .add ∨ op = .sub) (hl : IsRowwise ctx l)
      (hr : IsRowwise ctx r) (place : Location) : IsRowwise ctx (.binary op l r place)
  | scaled {op : Operator} {l r : Node} (factors : op = .mul ∨ op = .div) (hl : IsRowwise ctx l)
      (hr : IsNumber r) (place : Location) : IsRowwise ctx (.binary op l r place)
  | multiple {l r : Node} (hl : IsNumber l) (hr : IsRowwise ctx r) (place : Location) :
      IsRowwise ctx (.binary .mul l r place)
  | reciprocal {l r : Node} (hl : IsNumber l) (hr : IsRowwise ctx r) (place : Location) :
      IsRowwise ctx (.binary .div l r place)

theorem IsNumber.isArithmetic {n : Node} (h : n.IsNumber) : n.IsArithmetic := by
  induction h with
  | integer n place => exact .integer n place
  | decimal x place => exact .decimal x place
  | paren _ place ih => exact .paren ih place

theorem IsNumber.phase {n : Node} (h : n.IsNumber) : n.phase ctx = .any := by
  induction h with
  | integer | decimal => rfl
  | paren _ _ ih => exact ih

theorem IsNumber.isMissing {n : Node} (h : n.IsNumber) : n.isMissing ctx = false := by
  induction h with
  | integer | decimal => rfl
  | paren _ _ ih => exact ih

theorem IsArithmetic.isNumber {n : Node} (h : n.IsArithmetic) (anywhere : n.phase ctx = .any) :
    n.IsNumber := by
  induction h with
  | integer n place => exact .integer n place
  | decimal x place => exact .decimal x place
  | paren _ place ih => exact .paren (ih anywhere) place
  | metric h =>
    rw [Node.phase, usePhase, h.isMetric] at anywhere
    cases anywhere
  | binary numeric _ _ _ => exact absurd anywhere (phase_binary_ne_any numeric)

theorem IsRowwise.isArithmetic {n : Node} (h : n.IsRowwise ctx) : n.IsArithmetic := by
  induction h with
  | metric h => exact .metric h _
  | paren _ place ih => exact .paren ih place
  | sum terms _ _ place hl hr => exact .binary (Operator.isNumeric_of_term terms) hl hr place
  | scaled factors _ hr place hl =>
    exact .binary (Operator.isNumeric_of_factor factors) hl hr.isArithmetic place
  | multiple hl _ place hr | reciprocal hl _ place hr =>
    exact .binary rfl hl.isArithmetic hr place

theorem IsRowwise.isMissing {n : Node} (h : n.IsRowwise ctx) : n.isMissing ctx = false := by
  induction h with
  | metric _ present => exact present
  | paren _ _ ih => exact ih
  | sum additive _ _ _ hl hr => rcases additive with rfl | rfl <;> simp [Node.isMissing, hl, hr]
  | scaled strict _ hr _ hl =>
    rcases strict with rfl | rfl <;> simp [Node.isMissing, hl, hr.isMissing]
  | multiple hl _ _ hr | reciprocal hl _ _ hr => simp [Node.isMissing, hl.isMissing, hr]

/-- Without missing values, the rowwise formulas are those computed before aggregation. -/
theorem IsArithmetic.isRowwise {n : Node} (h : n.IsArithmetic)
    (present : n.All fun m => m.isMissing ctx = false) (pre : n.phase ctx = .metricPre) :
    n.IsRowwise ctx := by
  induction h with
  | integer | decimal => cases pre
  | paren _ place ih =>
    exact .paren (ih (all_paren.1 present).2 pre) place
  | metric h => exact .metric h (present _ (mem_parts_self _))
  | @binary op l r numeric hl hr place ihl ihr =>
    obtain ⟨_, inLeft, inRight⟩ := all_binary.1 present
    have left := inLeft l (mem_parts_self l)
    have right := inRight r (mem_parts_self r)
    cases strict : op.isStrict with
    | true =>
      have factors : op = .mul ∨ op = .div := by cases op <;> simp_all [Operator.isStrict]
      rcases (phase_strict_eq_metricPre_iff numeric hl hr left right strict).1 pre with
        ⟨hl', hr'⟩ | ⟨hl', hr'⟩
      · rcases factors with rfl | rfl
        · exact .multiple (hl.isNumber hl') (ihr inRight hr') place
        · exact .reciprocal (hl.isNumber hl') (ihr inRight hr') place
      · exact .scaled factors (ihl inLeft hl') (hr.isNumber hr') place
    | false =>
      have terms : op = .add ∨ op = .sub := by
        cases op <;> simp_all [Operator.isStrict, Operator.isNumeric]
      obtain ⟨hl', hr'⟩ := (phase_loose_eq_metricPre_iff numeric hl hr left right strict).1 pre
      exact .sum terms (ihl inLeft hl') (ihr inRight hr') place

theorem IsRowwise.phase {n : Node} (h : n.IsRowwise ctx) : n.phase ctx = .metricPre := by
  induction h with
  | metric h => rw [Node.phase, usePhase, h.isMetric, if_pos rfl]
  | paren _ _ ih => exact ih
  | sum additive hl hr place ihl ihr =>
    rcases additive with rfl | rfl
    all_goals
      exact (phase_loose_eq_metricPre_iff rfl hl.isArithmetic hr.isArithmetic hl.isMissing
        hr.isMissing rfl).2 ⟨ihl, ihr⟩
  | scaled strict hl hr place ihl =>
    rcases strict with rfl | rfl
    all_goals
      exact (phase_strict_eq_metricPre_iff rfl hl.isArithmetic hr.isArithmetic hl.isMissing
        hr.isMissing rfl).2 (.inr ⟨ihl, hr.phase⟩)
  | multiple hl hr place ihr | reciprocal hl hr place ihr =>
    exact (phase_strict_eq_metricPre_iff rfl hl.isArithmetic hr.isArithmetic hl.isMissing
      hr.isMissing rfl).2 (.inl ⟨hl.phase, ihr⟩)

end Node

end SemanticLayer.Formula
