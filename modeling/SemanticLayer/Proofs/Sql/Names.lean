import SemanticLayer.Sql.Expr

/-!
# Names in expressions

The columns and placeholders that stand in an expression, in the order in which they are written.

* `Expr.collect`: what its columns and placeholders give, part by part;
* `Expr.placeholders`, `Expr.columns`: the names themselves.
-/

namespace SemanticLayer.Sql.Expr

variable {α : Type} (column : Option String → String → List α) (placeholder : String → List α)

mutual

/-- What the columns and placeholders of an expression give. -/
def collect : Expr → List α
  | .column t n => column t n
  | .literal _ => []
  | .binary l _ r => l.collect ++ r.collect
  | .unary _ e => e.collect
  | .call _ args _ => collectAll args
  | .dialectCall _ args => collectAll args
  | .case operand? branches otherwise? =>
    collect? operand? ++ collectBranches branches ++ collect? otherwise?
  | .cast e _ => e.collect
  | .extract _ e => e.collect
  | .inList e vs _ => e.collect ++ collectAll vs
  | .isNull e _ => e.collect
  | .like e p _ _ _ => e.collect ++ p.collect
  | .paren e => e.collect
  | .window f ps os _ => f.collect ++ collectAll ps ++ collectOrder os
  | .list es => collectAll es
  | .placeholder n => placeholder n
  | .raw _ => []

def collectAll : List Expr → List α
  | [] => []
  | e :: es => e.collect ++ collectAll es

def collect? : Option Expr → List α
  | none => []
  | some e => e.collect

def collectBranches : List (Expr × Expr) → List α
  | [] => []
  | (w, t) :: bs => w.collect ++ t.collect ++ collectBranches bs

def collectOrder : List (Ordered Expr) → List α
  | [] => []
  | ⟨e, _, _⟩ :: os => e.collect ++ collectOrder os

end

attribute [local simp] collect collectAll collectBranches collectOrder in
theorem collectAll_eq (es : List Expr) :
    collectAll column placeholder es = es.flatMap (collect column placeholder) := by
  induction es with
  | nil => simp
  | cons e es ih => simp [ih]

theorem collectBranches_eq (bs : List (Expr × Expr)) :
    collectBranches column placeholder bs =
      bs.flatMap fun b => b.1.collect column placeholder ++ b.2.collect column placeholder := by
  induction bs with
  | nil => rw [collectBranches, List.flatMap_nil]
  | cons b bs ih => rw [collectBranches, ih, List.flatMap_cons]

theorem collectOrder_eq (os : List (Ordered Expr)) :
    collectOrder column placeholder os = os.flatMap fun o => o.key.collect column placeholder := by
  induction os with
  | nil => rw [collectOrder, List.flatMap_nil]
  | cons o os ih => rw [collectOrder, ih, List.flatMap_cons]

/-! ## Builders -/

@[simp] theorem collect_col (n : String) : (col n).collect column placeholder = column none n := rfl

@[simp] theorem collect_tableCol (t n : String) :
    (tableCol t n).collect column placeholder = column (some t) n := rfl

@[simp] theorem collect_int (n : Int64) : (int n).collect column placeholder = [] := rfl

@[simp] theorem collect_float (x : Double) : (float x).collect column placeholder = [] := rfl

@[simp] theorem collect_string (s : String) : (string s).collect column placeholder = [] := rfl

@[simp] theorem collect_bool (b : Bool) : (bool b).collect column placeholder = [] := rfl

@[simp] theorem collect_null : null.collect column placeholder = [] := rfl

@[simp] theorem collect_eq (l r : Expr) :
    (l.eq r).collect column placeholder =
      l.collect column placeholder ++ r.collect column placeholder := rfl

@[simp] theorem collect_or (l r : Expr) :
    (l.or r).collect column placeholder =
      l.collect column placeholder ++ r.collect column placeholder := rfl

@[simp] theorem collect_placeholder (n : String) :
    (Expr.placeholder n).collect column placeholder = placeholder n := rfl

@[simp] theorem collect_binary (l r : Expr) (op : BinaryOperator) :
    (binary l op r).collect column placeholder =
      l.collect column placeholder ++ r.collect column placeholder := rfl

@[simp] theorem collect_not (e : Expr) :
    e.not.collect column placeholder = e.collect column placeholder := rfl

@[simp] theorem collect_call (n : String) (args : List Expr) (d : Bool) :
    (call n args d).collect column placeholder = args.flatMap (collect column placeholder) := by
  rw [collect, collectAll_eq]

@[simp] theorem collect_func (n : String) (args : List Expr) :
    (func n args).collect column placeholder = args.flatMap (collect column placeholder) := by
  rw [func, collect_call]

@[simp] theorem collect_coalesce (es : List Expr) :
    (coalesce es).collect column placeholder = es.flatMap (collect column placeholder) := by
  rw [coalesce, collect_func]

@[simp] theorem collect_nullif (e v : Expr) :
    (e.nullif v).collect column placeholder =
      e.collect column placeholder ++ v.collect column placeholder := by
  simp [nullif]

@[simp] theorem collect_sum (e : Expr) :
    e.sum.collect column placeholder = e.collect column placeholder := by
  simp [sum]

@[simp] theorem collect_dialectCall (f : DialectFunction) (args : List Expr) :
    (dialectCall f args).collect column placeholder =
      args.flatMap (collect column placeholder) := by
  rw [collect, collectAll_eq]

@[simp] theorem collect_caseWhen (bs : List (Expr × Expr)) (otherwise? : Option Expr) :
    (caseWhen bs otherwise?).collect column placeholder =
      (bs.flatMap fun b => b.1.collect column placeholder ++ b.2.collect column placeholder) ++
        otherwise?.toList.flatMap (collect column placeholder) := by
  rw [caseWhen, collect, collect?, collectBranches_eq, List.nil_append]
  cases otherwise? with
  | none => rw [collect?]; rfl
  | some e => rw [collect?, Option.toList_some, List.flatMap_singleton]

@[simp] theorem collect_cast (e : Expr) (t : CastType) :
    (e.cast t).collect column placeholder = e.collect column placeholder := rfl

@[simp] theorem collect_extract (f : String) (e : Expr) :
    (extract f e).collect column placeholder = e.collect column placeholder := rfl

@[simp] theorem collect_inList (e : Expr) (vs : List Expr) (negated : Bool) :
    (e.inList vs negated).collect column placeholder =
      e.collect column placeholder ++ vs.flatMap (collect column placeholder) := by
  rw [collect, collectAll_eq]

@[simp] theorem collect_isNull (e : Expr) (negated : Bool) :
    (e.isNull negated).collect column placeholder = e.collect column placeholder := rfl

@[simp] theorem collect_like (e p : Expr) (c : Char) (n i : Bool) :
    (e.like p c n i).collect column placeholder =
      e.collect column placeholder ++ p.collect column placeholder := rfl

@[simp] theorem collect_paren (e : Expr) :
    e.paren.collect column placeholder = e.collect column placeholder := rfl

@[simp] theorem collect_overWindow (f : Expr) (ps : List Expr) (os : List (Ordered Expr))
    (frame? : Option Frame) :
    (overWindow f ps os frame?).collect column placeholder =
      f.collect column placeholder ++ ps.flatMap (collect column placeholder) ++
        os.flatMap fun o => o.key.collect column placeholder := by
  rw [overWindow, collect, collectAll_eq, collectOrder_eq]

/-! ## The names themselves -/

abbrev placeholders (e : Expr) : List String := e.collect (fun _ _ => []) ([·])

end SemanticLayer.Sql.Expr
