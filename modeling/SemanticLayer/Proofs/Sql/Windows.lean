import SemanticLayer.Proofs.Sql.Binding

/-!
# Windows in SQL

* `Expr.HasWindows`: whether the partition and the ordering of every window within an expression are
  allowed;
* `hasWindows_iff`: an expression that is no window itself has those of its parts;
* `HasWindows.substitute`: the windows of an expression with its placeholders filled in;
* `Expr.listed`: what a partition lists.
-/

namespace SemanticLayer.Sql.Expr

def isWindow : Expr → Bool
  | .window .. => true
  | _ => false

def isPlaceholder : Expr → Bool
  | .placeholder _ => true
  | _ => false

/-- Whether a window has an allowed partition and ordering. -/
def HasWindow (allowed : List Expr → List (Ordered Expr) → Prop) : Expr → Prop
  | .window _ ps os _ => allowed ps os
  | _ => True

/-- Whether all windows within an expression have. -/
def HasWindows (allowed : List Expr → List (Ordered Expr) → Prop) : Expr → Prop :=
  Everywhere parts (HasWindow allowed)

variable {allowed allowed' : List Expr → List (Ordered Expr) → Prop} {e : Expr}

theorem hasWindow_of_isWindow (h : e.isWindow = false) : e.HasWindow allowed := by
  cases e with
  | window => cases h
  | _ => trivial

/-- An expression that is no window itself has the windows of its parts. -/
theorem hasWindows_iff (h : e.isWindow = false) :
    e.HasWindows allowed ↔ ∀ x ∈ e.parts, x.HasWindows allowed :=
  everywhere_iff.trans (and_iff_right (hasWindow_of_isWindow h))

@[simp] theorem hasWindows_literal (l : Literal) : (literal l).HasWindows allowed :=
  (hasWindows_iff rfl).2 (List.forall_mem_nil _)

@[simp] theorem hasWindows_column (table? : Option String) (name : String) :
    (column table? name).HasWindows allowed :=
  (hasWindows_iff rfl).2 (List.forall_mem_nil _)

@[simp] theorem hasWindows_placeholder (name : String) : (placeholder name).HasWindows allowed :=
  (hasWindows_iff rfl).2 (List.forall_mem_nil _)

@[simp] theorem hasWindows_binary {l r : Expr} {op : BinaryOperator} :
    (binary l op r).HasWindows allowed ↔ l.HasWindows allowed ∧ r.HasWindows allowed := by
  rw [hasWindows_iff rfl, parts, List.forall_mem_cons, List.forall_mem_singleton]

@[simp] theorem hasWindows_call {name : String} {args : List Expr} {distinct : Bool} :
    (call name args distinct).HasWindows allowed ↔ ∀ x ∈ args, x.HasWindows allowed :=
  hasWindows_iff rfl

theorem hasWindows_overWindow {ps : List Expr} {os : List (Ordered Expr)} {frame? : Option Frame} :
    (overWindow e ps os frame?).HasWindows allowed ↔
      allowed ps os ∧ e.HasWindows allowed ∧ (∀ x ∈ ps, x.HasWindows allowed) ∧
        ∀ o ∈ os, o.key.HasWindows allowed := by
  refine everywhere_iff.trans (and_congr Iff.rfl ?_)
  rw [overWindow, parts, List.forall_mem_cons, List.forall_mem_append, List.forall_mem_map]
  rfl

theorem HasWindows.imp (h : e.HasWindows allowed) (more : ∀ ps os, allowed ps os → allowed' ps os) :
    e.HasWindows allowed' := by
  induction h with
  | @intro e here _ ih =>
    refine .intro ?_ ih
    cases e with
    | window => exact more _ _ here
    | _ => trivial

theorem hasWindows_caseWhen {bs : List (Expr × Expr)} {otherwise? : Option Expr}
    (branches : ∀ b ∈ bs, b.1.HasWindows allowed ∧ b.2.HasWindows allowed)
    (otherwise : ∀ x ∈ otherwise?, x.HasWindows allowed) :
    (caseWhen bs otherwise?).HasWindows allowed := by
  rw [caseWhen, hasWindows_iff rfl, parts, List.forall_mem_append, Option.toList_none,
    List.nil_append, forall_mem_branches]
  exact ⟨branches, fun x hx => otherwise x (Option.mem_toList.1 hx)⟩

/-! ## Filling in placeholders -/

section
variable (lookup : String → Option Expr)

theorem substituteAll_eq (es : List Expr) :
    substituteAll lookup es = es.map (·.substitute lookup) := by
  induction es with
  | nil => rw [substituteAll, List.map_nil]
  | cons e es ih => rw [substituteAll, ih, List.map_cons]

/-- An ordering with the placeholders of its keys filled in. -/
theorem substituteOrder_eq (os : List (Ordered Expr)) :
    substituteOrder lookup os = os.map fun o => { o with key := o.key.substitute lookup } := by
  induction os with
  | nil => rw [substituteOrder, List.map_nil]
  | cons o os ih => rw [substituteOrder, ih, List.map_cons]

theorem substitute?_eq (e? : Option Expr) : substitute? lookup e? = e?.map (·.substitute lookup) := by
  cases e? <;> rfl

theorem substituteBranches_eq (bs : List (Expr × Expr)) :
    substituteBranches lookup bs =
      bs.map fun b => (b.1.substitute lookup, b.2.substitute lookup) := by
  induction bs with
  | nil => rw [substituteBranches, List.map_nil]
  | cons b bs ih => rw [substituteBranches, ih, List.map_cons]

/-- Placeholders are filled in within each part. -/
theorem parts_substitute (h : e.isPlaceholder = false) :
    (e.substitute lookup).parts = e.parts.map (·.substitute lookup) := by
  cases e with
  | placeholder => cases h
  | case operand? bs otherwise? =>
    rw [substitute, parts, parts, substitute?_eq, substitute?_eq, substituteBranches_eq]
    simp [List.flatMap_map, List.map_flatMap, Option.toList_map]
  | window f ps os frame? =>
    rw [substitute, parts, parts, substituteAll_eq, substituteOrder_eq]
    simp [Function.comp_def]
  | _ => simp [substitute, parts, substituteAll_eq]

end

theorem HasWindows.substitute {lookup : String → Option Expr}
    (filled : ∀ n x, lookup n = some x → x.HasWindows allowed')
    (h : e.HasWindows fun ps os => allowed' (ps.map (·.substitute lookup))
      (os.map fun o => { o with key := o.key.substitute lookup })) :
    (e.substitute lookup).HasWindows allowed' := by
  induction e using parts_induction with
  | step e ih =>
    obtain ⟨here, inside⟩ := everywhere_iff.1 h
    cases placeholder : e.isPlaceholder with
    | true =>
      cases e with
      | placeholder n =>
        rw [Expr.substitute]
        cases found : lookup n with
        | none => exact hasWindows_placeholder n
        | some x => exact filled n x found
      | _ => cases placeholder
    | false =>
      refine everywhere_iff.2 ⟨?_, ?_⟩
      · cases e with
        | window f ps os frame? =>
          rw [Expr.substitute, HasWindow, substituteAll_eq, substituteOrder_eq]
          exact here
        | placeholder => cases placeholder
        | _ => trivial
      · rw [parts_substitute lookup placeholder, List.forall_mem_map]
        exact fun x hx => ih x hx (inside x hx)

/-- Where lists are filled in, a column stands for nothing else. -/
theorem eq_column_of_substitute {lookup : String → Option Expr} {table? : Option String}
    {name : String} (lists : ∀ n x, lookup n = some x → ∃ es, x = .list es)
    (h : e.substitute lookup = .column table? name) : e = .column table? name := by
  cases e with
  | column => exact h
  | placeholder n =>
    rw [Expr.substitute] at h
    cases found : lookup n with
    | none =>
      rw [found] at h
      cases h
    | some x =>
      obtain ⟨es, rfl⟩ := lists n x found
      rw [found] at h
      cases h
  | _ => cases h

/-! ## Partitions -/

/-- The expressions that a partition lists, those of a list within it one by one. -/
def listed (ps : List Expr) : List Expr :=
  ps.flatMap fun e =>
    match e with
    | .list es => es
    | e => [e]

end SemanticLayer.Sql.Expr
