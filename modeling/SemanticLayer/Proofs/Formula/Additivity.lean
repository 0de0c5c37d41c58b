import Mathlib
import SemanticLayer.Proofs.Formula.Arithmetic
import SemanticLayer.Sql.Expr

/-!
# Additivity of rowwise formulas

A formula that is computed on each row and then summed has to give on a sum of rows what it gives on
the rows together.  It does, unless a number is divided by a metric.  Null is no number: an operation
on it is null, and so is a division by zero.

* `Literal.rational?`, `Expr.number?`: the number that a literal stands for, and the one that
  arithmetic SQL is on a row whose columns hold rational numbers;
* `number?_coalesce_zero`, `number?_nullif_zero`: the calls in the SQL of formulas;
* `Node.value?`, `Node.DividesOn`: the value of an arithmetic formula on a row, and whether none of
  its divisors is zero there;
* `IsRowwise.value?_eq_none_iff`: whether a rowwise formula is null does not depend on the row;
* `IsRowwise.isAdditive`: a rowwise formula is additive if its reciprocals vanish;
* `vanishes_of_isAdditive`: a reciprocal that is additive, like all it holds, vanishes;
* `IsRowwise.value?_foldl`: the value of a rowwise formula on a sum of rows;
* `all_isAdditive_iff`: everything that is computed before aggregation is additive exactly if the
  reciprocals vanish.
-/

namespace SemanticLayer

/-- The number that a double is; none for an infinity and for what is no number. -/
def Double.rational? (x : Double) : Option ℚ :=
  if x.isFinite then
    let magnitude := x.mantissa * 2 ^ x.exponent.toNat
    some (mkRat (if x.isNegative then -magnitude else magnitude) (2 ^ (-x.exponent).toNat))
  else none

namespace Sql

/-- The numbers in the columns of a row. -/
abbrev NumericRow := String → ℚ

def Literal.rational? : Literal → Option ℚ
  | .int n => some n.toInt
  | .float x => x.rational?
  | _ => none

def BinaryOperator.number? (op : BinaryOperator) (a b : Option ℚ) : Option ℚ :=
  match op with
  | .add => Option.map₂ (· + ·) a b
  | .sub => Option.map₂ (· - ·) a b
  | .mul => Option.map₂ (· * ·) a b
  | .div => if b = some 0 then none else Option.map₂ (· / ·) a b
  | _ => none

/-- The value of a call of the functions that deal with null. -/
def callNumber? (name : String) (args : List (Option ℚ)) : Option ℚ :=
  if name = "COALESCE" then args.findSome? id
  else if name = "NULLIF" then
    match args with
    | [a, b] => if a = b then none else a
    | _ => none
  else none

namespace Expr

mutual

/-- The number that an expression is on a row; none if it is null, or no number. -/
def number? (row : NumericRow) : Expr → Option ℚ
  | .column none name => some (row name)
  | .literal l => l.rational?
  | .binary l op r => op.number? (l.number? row) (r.number? row)
  | .call name args _ => callNumber? name (numberOfEach row args)
  | .paren e => e.number? row
  | _ => none

def numberOfEach (row : NumericRow) : List Expr → List (Option ℚ)
  | [] => []
  | e :: es => e.number? row :: numberOfEach row es

end

variable (row : NumericRow) (e : Expr)

theorem number?_coalesce_zero :
    (coalesce [e, .int 0]).number? row = some ((e.number? row).getD 0) := by
  rw [coalesce, func, number?, numberOfEach, numberOfEach, numberOfEach]
  cases h : e.number? row with
  | none =>
    rw [callNumber?, if_pos rfl, Expr.int, number?]
    rfl
  | some v =>
    rw [callNumber?, if_pos rfl]
    rfl

theorem number?_nullif_zero :
    (e.nullif (.int 0)).number? row = if e.number? row = some 0 then none else e.number? row := by
  rw [nullif, func, number?, numberOfEach, numberOfEach, numberOfEach, callNumber?,
    if_neg (by decide), if_pos rfl]
  rfl

end Expr

end Sql

end SemanticLayer

namespace SemanticLayer.Formula

open Sql (NumericRow)

/-- The value of a numeric operation.  Sums take null for zero, and division by zero is null. -/
def Operator.value? (op : Operator) (a b : Option ℚ) : Option ℚ :=
  match op with
  | .mul => Option.map₂ (· * ·) a b
  | .div => if b = some 0 then none else Option.map₂ (· / ·) a b
  | .add => some (a.getD 0 + b.getD 0)
  | _ => some (a.getD 0 - b.getD 0)

namespace Operator

variable {a b : Option ℚ}

theorem value?_div (h : b ≠ some 0) : Operator.div.value? a b = Option.map₂ (· / ·) a b := if_neg h

/-- A product or a ratio is null if an operand is. -/
theorem value?_eq_none_iff {op : Operator} (strict : op = .mul ∨ op = .div)
    (divides : op = .div → b ≠ some 0) : op.value? a b = none ↔ a = none ∨ b = none := by
  rcases strict with rfl | rfl
  · exact Option.map₂_eq_none_iff
  · rw [value?_div (divides rfl)]
    exact Option.map₂_eq_none_iff

end Operator

namespace Node

variable {ctx : Context}

/-- The value of an arithmetic formula on a row. -/
def value? (ctx : Context) (row : NumericRow) : Node → Option ℚ
  | .integer n _ => some n.toInt
  | .decimal x _ => x.rational?
  | .paren n _ => n.value? ctx row
  | .taxon u _ => (useSql ctx u).number? row
  | .binary op l r _ => op.value? (l.value? ctx row) (r.value? ctx row)
  | _ => none

/-- Whether a node does not divide by zero. -/
def Divides (ctx : Context) (row : NumericRow) : Node → Prop
  | .binary .div _ r _ => r.value? ctx row ≠ some 0
  | _ => True

/-- Whether no divisor in a formula is zero on a row. -/
def DividesOn (ctx : Context) (row : NumericRow) (n : Node) : Prop := n.All (Divides ctx row)

/-- Whether the value on a sum of two rows is the sum of the values, where no divisor is zero. -/
def IsAdditive (ctx : Context) (n : Node) : Prop :=
  ∀ x y, n.DividesOn ctx x → n.DividesOn ctx y → n.DividesOn ctx (x + y) →
    n.value? ctx (x + y) = Option.map₂ (· + ·) (n.value? ctx x) (n.value? ctx y)

/-- Whether a ratio of a number to something that is computed before aggregation is zero or null,
where no divisor is zero. -/
def Vanishes (ctx : Context) : Node → Prop
  | .binary .div l r place =>
    l.phase ctx = .any → r.phase ctx = .metricPre →
      ∀ row, (Node.binary .div l r place).DividesOn ctx row →
        ∀ v, (Node.binary .div l r place).value? ctx row = some v → v = 0
  | _ => True

/-- Whether a node does not divide a number by anything else than a number. -/
def DividesByNumbers (ctx : Context) : Node → Prop
  | .binary .div l _ _ => l.phase ctx ≠ .any
  | _ => True

instance (row : NumericRow) : DecidablePred (Divides ctx row)
  | .binary .div _ r _ => inferInstanceAs (Decidable (r.value? ctx row ≠ some 0))
  | .binary .add .. | .binary .sub .. | .binary .mul .. | .binary .and .. | .binary .or ..
  | .binary .eq .. | .binary .ne .. | .binary .gt .. | .binary .ge .. | .binary .lt ..
  | .binary .le .. | .integer .. | .decimal .. | .text .. | .bool .. | .column .. | .paren ..
  | .taxon .. | .attribute .. | .computed .. | .not .. | .isNull .. | .call .. | .transition ..
  | .root .. => .isTrue trivial

instance (row : NumericRow) : DecidablePred (DividesOn ctx row) := fun n =>
  inferInstanceAs (Decidable (n.All (Divides ctx row)))

theorem dividesOn_binary {row : NumericRow} {op : Operator} {l r : Node} {place : Location} :
    (Node.binary op l r place).DividesOn ctx row ↔
      (Node.binary op l r place).Divides ctx row ∧ l.DividesOn ctx row ∧ r.DividesOn ctx row :=
  all_binary

theorem dividesOn_paren {row : NumericRow} {n : Node} {place : Location} :
    (Node.paren n place).DividesOn ctx row ↔ n.DividesOn ctx row :=
  all_paren.trans (and_iff_right trivial)

theorem IsNumber.value?_eq {n : Node} (h : n.IsNumber) (x y : NumericRow) :
    n.value? ctx x = n.value? ctx y := by
  induction h with
  | integer | decimal => rfl
  | paren _ _ ih => exact ih

theorem exists_column (ctx : Context) {u : TaxonUse} (h : u.IsSummed) :
    ∃ name, useSql ctx u = .col name := by
  unfold useSql
  rw [h.isMetric]
  exact ⟨_, rfl⟩

theorem divides_of_div {row : NumericRow} {op : Operator} {l r : Node} {place : Location}
    (h : (Node.binary op l r place).Divides ctx row) (div : op = .div) :
    r.value? ctx row ≠ some 0 := by
  subst div
  exact h

/-! ## Null -/

/-- Whether a rowwise formula is null is the same on all rows where no divisor is zero. -/
theorem IsRowwise.value?_eq_none_iff {n : Node} (h : n.IsRowwise ctx) {x y : NumericRow}
    (hx : n.DividesOn ctx x) (hy : n.DividesOn ctx y) :
    n.value? ctx x = none ↔ n.value? ctx y = none := by
  induction h with
  | metric h =>
    obtain ⟨name, column⟩ := exists_column ctx h
    rw [value?, value?, column]
    exact iff_of_false (Option.some_ne_none _) (Option.some_ne_none _)
  | paren _ _ ih => exact ih (dividesOn_paren.1 hx) (dividesOn_paren.1 hy)
  | sum additive =>
    rcases additive with rfl | rfl
    all_goals exact iff_of_false (Option.some_ne_none _) (Option.some_ne_none _)
  | scaled strict _ hr _ ih =>
    obtain ⟨ownX, leftX, _⟩ := dividesOn_binary.1 hx
    obtain ⟨ownY, leftY, _⟩ := dividesOn_binary.1 hy
    rw [value?, value?, Operator.value?_eq_none_iff strict (divides_of_div ownX),
      Operator.value?_eq_none_iff strict (divides_of_div ownY), ih leftX leftY, hr.value?_eq x y]
  | multiple hl _ _ ih =>
    obtain ⟨ownX, _, rightX⟩ := dividesOn_binary.1 hx
    obtain ⟨ownY, _, rightY⟩ := dividesOn_binary.1 hy
    rw [value?, value?, Operator.value?_eq_none_iff (.inl rfl) (divides_of_div ownX),
      Operator.value?_eq_none_iff (.inl rfl) (divides_of_div ownY), ih rightX rightY,
      hl.value?_eq x y]
  | reciprocal hl _ _ ih =>
    obtain ⟨ownX, _, rightX⟩ := dividesOn_binary.1 hx
    obtain ⟨ownY, _, rightY⟩ := dividesOn_binary.1 hy
    rw [value?, value?, Operator.value?_eq_none_iff (.inr rfl) (divides_of_div ownX),
      Operator.value?_eq_none_iff (.inr rfl) (divides_of_div ownY), ih rightX rightY,
      hl.value?_eq x y]

/-! ## Sums of rows -/

theorem map₂_add_map₂_mul (a b c : Option ℚ) :
    Option.map₂ (· * ·) (Option.map₂ (· + ·) a b) c =
      Option.map₂ (· + ·) (Option.map₂ (· * ·) a c) (Option.map₂ (· * ·) b c) := by
  cases a <;> cases b <;> cases c <;> simp [add_mul]

theorem map₂_add_map₂_div (a b c : Option ℚ) :
    Option.map₂ (· / ·) (Option.map₂ (· + ·) a b) c =
      Option.map₂ (· + ·) (Option.map₂ (· / ·) a c) (Option.map₂ (· / ·) b c) := by
  cases a <;> cases b <;> cases c <;> simp [add_div]

theorem map₂_mul_map₂_add (a b c : Option ℚ) :
    Option.map₂ (· * ·) c (Option.map₂ (· + ·) a b) =
      Option.map₂ (· + ·) (Option.map₂ (· * ·) c a) (Option.map₂ (· * ·) c b) := by
  cases a <;> cases b <;> cases c <;> simp [mul_add]

/-- A rowwise formula with additive values counts null for zero additively, too. -/
theorem IsRowwise.getD_value?_add {n : Node} (h : n.IsRowwise ctx) (additive : n.IsAdditive ctx)
    {x y : NumericRow} (hx : n.DividesOn ctx x) (hy : n.DividesOn ctx y)
    (hxy : n.DividesOn ctx (x + y)) :
    (n.value? ctx (x + y)).getD 0 = (n.value? ctx x).getD 0 + (n.value? ctx y).getD 0 := by
  have same := h.value?_eq_none_iff hx hy
  rw [additive x y hx hy hxy]
  cases hvx : n.value? ctx x with
  | none =>
    rw [same.1 hvx]
    exact (add_zero 0).symm
  | some a =>
    cases hvy : n.value? ctx y with
    | none =>
      rw [same.2 hvy] at hvx
      cases hvx
    | some b => rfl

/-- A rowwise formula is additive if the reciprocals in it vanish. -/
theorem IsRowwise.isAdditive {n : Node} (h : n.IsRowwise ctx) (vanishes : n.All (Vanishes ctx)) :
    n.IsAdditive ctx := by
  induction h with
  | metric h =>
    intro x y _ _ _
    obtain ⟨name, column⟩ := exists_column ctx h
    rw [value?, value?, value?, column]
    rfl
  | paren _ _ ih =>
    have inner := ih (all_paren.1 vanishes).2
    intro x y hx hy hxy
    exact inner x y (dividesOn_paren.1 hx) (dividesOn_paren.1 hy) (dividesOn_paren.1 hxy)
  | @sum op l r additive hl hr place ihl ihr =>
    obtain ⟨_, inLeft, inRight⟩ := all_binary.1 vanishes
    have left := ihl inLeft
    have right := ihr inRight
    intro x y hx hy hxy
    obtain ⟨_, leftX, rightX⟩ := dividesOn_binary.1 hx
    obtain ⟨_, leftY, rightY⟩ := dividesOn_binary.1 hy
    obtain ⟨_, leftXY, rightXY⟩ := dividesOn_binary.1 hxy
    have sumLeft := hl.getD_value?_add left leftX leftY leftXY
    have sumRight := hr.getD_value?_add right rightX rightY rightXY
    rcases additive with rfl | rfl
    · simp only [value?, Operator.value?, sumLeft, sumRight, Option.map₂_some_some]
      exact congrArg some (add_add_add_comm _ _ _ _)
    · simp only [value?, Operator.value?, sumLeft, sumRight, Option.map₂_some_some]
      exact congrArg some (add_sub_add_comm _ _ _ _)
  | @scaled op l r strict hl hr place ih =>
    have left := ih (all_binary.1 vanishes).2.1
    intro x y hx hy hxy
    obtain ⟨ownX, leftX, _⟩ := dividesOn_binary.1 hx
    obtain ⟨ownY, leftY, _⟩ := dividesOn_binary.1 hy
    obtain ⟨ownXY, leftXY, _⟩ := dividesOn_binary.1 hxy
    have sum := left x y leftX leftY leftXY
    rcases strict with rfl | rfl
    · rw [value?, value?, value?, sum, hr.value?_eq (x + y) x, hr.value?_eq y x]
      exact map₂_add_map₂_mul _ _ _
    · rw [value?, value?, value?, Operator.value?_div ownXY, Operator.value?_div ownX,
        Operator.value?_div ownY, sum, hr.value?_eq (x + y) x, hr.value?_eq y x]
      exact map₂_add_map₂_div _ _ _
  | @multiple l r hl hr place ih =>
    have right := ih (all_binary.1 vanishes).2.2
    intro x y hx hy hxy
    obtain ⟨_, _, rightX⟩ := dividesOn_binary.1 hx
    obtain ⟨_, _, rightY⟩ := dividesOn_binary.1 hy
    obtain ⟨_, _, rightXY⟩ := dividesOn_binary.1 hxy
    rw [value?, value?, value?, right x y rightX rightY rightXY, hl.value?_eq (x + y) x,
      hl.value?_eq y x]
    exact map₂_mul_map₂_add _ _ _
  | @reciprocal l r hl hr place =>
    intro x y hx hy hxy
    have whole : (Node.binary .div l r place).IsRowwise ctx := .reciprocal hl hr place
    have zero := vanishes _ (mem_parts_self _) hl.phase hr.phase
    have sameX := whole.value?_eq_none_iff hxy hx
    have sameY := whole.value?_eq_none_iff hxy hy
    cases sum : (Node.binary .div l r place).value? ctx (x + y) with
    | none =>
      rw [sameX.1 sum]
      rfl
    | some v =>
      obtain ⟨a, ha⟩ := Option.ne_none_iff_exists'.1 fun none =>
        Option.some_ne_none v (sum.symm.trans (sameX.2 none))
      obtain ⟨b, hb⟩ := Option.ne_none_iff_exists'.1 fun none =>
        Option.some_ne_none v (sum.symm.trans (sameY.2 none))
      rw [ha, hb, zero _ hxy v sum, zero _ hx a ha, zero _ hy b hb]
      exact congrArg some (add_zero 0).symm

theorem IsNumber.dividesOn {n : Node} (h : n.IsNumber) (row : NumericRow) :
    n.DividesOn ctx row := by
  induction h with
  | integer | decimal => exact all_of_children_eq_nil rfl trivial
  | paren _ _ ih => exact dividesOn_paren.2 ih

theorem add_self_ne_zero {v : Option ℚ} (h : v ≠ some 0) :
    Option.map₂ (· + ·) v v ≠ some 0 := by
  cases v with
  | none => exact h
  | some a =>
    intro zero
    exact h (congrArg some (add_self_eq_zero.1 (Option.some.inj zero)))

/-! ## Sums of many rows -/

theorem vanishes_of_dividesByNumbers {n : Node} (h : n.DividesByNumbers ctx) :
    n.Vanishes ctx := by
  cases n with
  | binary op l r place =>
    cases op with
    | div => exact fun anywhere => absurd anywhere h
    | _ => trivial
  | _ => trivial

/-- From one row to another, only divisors of numbers can become zero. -/
theorem IsRowwise.dividesOn_of {n : Node} (h : n.IsRowwise ctx) {x y : NumericRow}
    (hx : n.DividesOn ctx x)
    (divisors : n.All fun m => ∀ l r place, m = .binary .div l r place → l.IsNumber →
      r.IsRowwise ctx → r.DividesOn ctx x → r.DividesOn ctx y → r.value? ctx x ≠ some 0 →
        r.value? ctx y ≠ some 0) : n.DividesOn ctx y := by
  induction h with
  | metric => exact all_of_children_eq_nil rfl trivial
  | paren _ _ ih =>
    exact dividesOn_paren.2 (ih (dividesOn_paren.1 hx) (all_paren.1 divisors).2)
  | sum terms _ _ _ ihl ihr =>
    obtain ⟨_, inLeft, inRight⟩ := all_binary.1 divisors
    obtain ⟨_, left, right⟩ := dividesOn_binary.1 hx
    refine dividesOn_binary.2 ⟨?_, ihl left inLeft, ihr right inRight⟩
    rcases terms with rfl | rfl <;> trivial
  | scaled factors _ hr _ ih =>
    obtain ⟨_, inLeft, _⟩ := all_binary.1 divisors
    obtain ⟨own, left, _⟩ := dividesOn_binary.1 hx
    refine dividesOn_binary.2 ⟨?_, ih left inLeft, hr.dividesOn y⟩
    rcases factors with rfl | rfl
    · trivial
    · rw [Divides, hr.value?_eq y x]
      exact own
  | multiple hl _ _ ih =>
    obtain ⟨_, _, inRight⟩ := all_binary.1 divisors
    obtain ⟨_, _, right⟩ := dividesOn_binary.1 hx
    exact dividesOn_binary.2 ⟨trivial, hl.dividesOn y, ih right inRight⟩
  | @reciprocal l r hl hr place ih =>
    obtain ⟨divisor, _, inRight⟩ := all_binary.1 divisors
    obtain ⟨own, _, right⟩ := dividesOn_binary.1 hx
    have onRight := ih right inRight
    exact dividesOn_binary.2
      ⟨divisor l r place rfl hl hr right onRight own, hl.dividesOn y, onRight⟩

/-- Where only numbers are divisors, whether one is zero is the same on all rows. -/
theorem IsRowwise.dividesOn {n : Node} (h : n.IsRowwise ctx)
    (numbers : n.All (DividesByNumbers ctx)) {x : NumericRow} (hx : n.DividesOn ctx x)
    (y : NumericRow) : n.DividesOn ctx y := by
  refine h.dividesOn_of hx fun m hm l r place same hl => ?_
  subst same
  exact absurd hl.phase (numbers _ hm)

/-- A rowwise formula that divides by numbers only has on a sum of rows the sum of its values: it
does not matter how a row is split into others. -/
theorem IsRowwise.value?_foldl {n : Node} (h : n.IsRowwise ctx)
    (numbers : n.All (DividesByNumbers ctx)) (x : NumericRow) (xs : List NumericRow)
    (hx : n.DividesOn ctx x) : n.value? ctx (xs.foldl (· + ·) x) =
      xs.foldl (fun v y => Option.map₂ (· + ·) v (n.value? ctx y)) (n.value? ctx x) := by
  have additive := h.isAdditive fun m hm => vanishes_of_dividesByNumbers (numbers m hm)
  induction xs generalizing x with
  | nil => rfl
  | cons y ys ih =>
    have both := h.dividesOn numbers hx (x + y)
    rw [List.foldl_cons, List.foldl_cons, ih (x + y) both,
      additive x y hx (h.dividesOn numbers hx y) both]

/-! ## Reciprocals -/

/-- Where a formula and all it holds are additive, no divisor is zero on a row taken twice. -/
theorem IsRowwise.dividesOn_add_self {n : Node} (h : n.IsRowwise ctx)
    (additive : n.All fun m => m.phase ctx = .metricPre → m.IsAdditive ctx) {x : NumericRow}
    (hx : n.DividesOn ctx x) : n.DividesOn ctx (x + x) := by
  refine h.dividesOn_of hx fun m hm l r place same _ hr right twice own => ?_
  subst same
  obtain ⟨_, _, inRight⟩ := all_binary.1 (additive.all _ hm)
  rw [inRight r (mem_parts_self r) hr.phase x x right right twice]
  exact add_self_ne_zero own

/-- A reciprocal that is additive, like all it holds, vanishes: on a row taken twice it is both
twice and half of what it is on the row. -/
theorem vanishes_of_isAdditive {l r : Node} {place : Location} (hl : l.IsNumber)
    (hr : r.IsRowwise ctx)
    (additive : (Node.binary .div l r place).All fun m =>
      m.phase ctx = .metricPre → m.IsAdditive ctx) :
    (Node.binary .div l r place).Vanishes ctx := by
  intro _ _ x hx v hv
  have whole : (Node.binary .div l r place).IsRowwise ctx := .reciprocal hl hr place
  have twice := whole.dividesOn_add_self additive hx
  obtain ⟨own, _, right⟩ := dividesOn_binary.1 hx
  obtain ⟨ownTwice, _, rightTwice⟩ := dividesOn_binary.1 twice
  obtain ⟨ownAdditive, _, inRight⟩ := all_binary.1 additive
  have doubled := ownAdditive whole.phase x x hx hx twice
  have divisor := inRight r (mem_parts_self r) hr.phase x x right right rightTwice
  rw [hv, value?, Operator.value?_div ownTwice, divisor, hl.value?_eq (x + x) x] at doubled
  rw [value?, Operator.value?_div own] at hv
  obtain ⟨c, e, hc, he, rfl⟩ := Option.map₂_eq_some_iff.1 hv
  rw [hc, he] at doubled
  have twiceValue : c / (e + e) = c / e + c / e := Option.some.inj doubled
  have halfValue : c / (e + e) = c / e / 2 := by rw [div_div, mul_two]
  linarith

/-- Everything in a formula that is computed before aggregation is additive, exactly if every ratio
of a number to a metric in it vanishes. -/
theorem all_isAdditive_iff {n : Node} (h : n.IsArithmetic)
    (present : n.All fun m => m.isMissing ctx = false) :
    (n.All fun m => m.phase ctx = .metricPre → m.IsAdditive ctx) ↔ n.All (Vanishes ctx) := by
  have arithmetic := h.all
  constructor
  · intro additive m hm
    cases m with
    | binary op l r place =>
      cases op with
      | div =>
        intro anywhere pre
        obtain ⟨_, left, right⟩ := all_binary.1 (arithmetic.all _ hm)
        obtain ⟨_, _, presentRight⟩ := all_binary.1 (present.all _ hm)
        have hl := (left l (mem_parts_self l)).isNumber anywhere
        have hr := (right r (mem_parts_self r)).isRowwise presentRight pre
        exact vanishes_of_isAdditive hl hr (additive.all _ hm) anywhere pre
      | _ => trivial
    | _ => trivial
  · intro vanishes m hm pre
    exact ((arithmetic m hm).isRowwise (present.all m hm) pre).isAdditive (vanishes.all m hm)

end Node

end SemanticLayer.Formula
