import SemanticLayer.Proofs.Formula.EvaluatedWindows
import SemanticLayer.Proofs.Formula.ShownUnits
import SemanticLayer.Proofs.Sql.Scoping

/-!
# Columns that the attributes of a model read

The formula of an attribute reads columns of its model's table, and what the attributes that it names
read.  What it may call is not checked, so it can also replace values, and then reads the table of a
mapping.

* `Node.Brings`: whether a node brings allowed columns only into the SQL of a formula;
* `reads_evaluateCall`, `reads_evaluate`: evaluation adds no columns to those;
* `Model.CallsOverride`: whether some attribute of a model replaces values;
* `Model.reads_attributeSql`, `Model.reads_taxonSql`: the SQL of an attribute reads the model's table,
  and tables of mappings only if the model replaces values.
-/

namespace SemanticLayer

open Sql (Expr)

variable {allowed : Option String × String → Prop}

namespace Formula

theorem passesOn_reads : PassesOn (Expr.Reads allowed) where
  literal := Expr.reads_literal
  binary hl hr := Expr.reads_binary.2 ⟨hl, hr⟩
  call hargs := Expr.reads_call.2 hargs
  like he hp := Expr.reads_like.2 ⟨he, hp⟩
  caseWhen := Expr.reads_caseWhen

namespace Fragment

/-- Whether a fragment without a label reads allowed columns only. -/
structure Reads (allowed : Option String × String → Prop) (r : Fragment) : Prop where
  columns : r.sql.Reads allowed
  unlabelled : r.label? = none

theorem label?_foldl_collect {r : Fragment} (ss : List Fragment) :
    (ss.foldl collect r).label? = r.label? := by
  induction ss generalizing r with
  | nil => rfl
  | cons s ss ih => exact ih

namespace Reads

variable {r : Fragment}

theorem ofSql {sql : Expr} (h : sql.Reads allowed) : (ofSql sql).Reads allowed := ⟨h, rfl⟩

theorem map (h : r.Reads allowed) {f : Expr → Expr} (hf : (f r.sql).Reads allowed) :
    (r.map f).Reads allowed := ⟨hf, h.unlabelled⟩

/-- New SQL with what some fragments need. -/
theorem gathered {sql template : Expr} (counted : List Fragment) (h : sql.Reads allowed) :
    (counted.foldl collect { Fragment.ofSql sql with template? := some template }).Reads
      allowed := by
  constructor
  · rw [sql_foldl_collect]
    exact h
  · rw [label?_foldl_collect]
    rfl

theorem combine {f : List Expr → Expr} {parts : List Fragment} (counted : List Fragment)
    (hf : (f (parts.map (·.sql))).Reads allowed) : (combine f parts counted).Reads allowed :=
  gathered counted hf

end Reads

end Fragment

namespace Node

variable {ctx : Context} {phase : Phase} {r : Fragment} {results : List Fragment}

/-- Whether a node is a call that replaces values. -/
def isOverride : Node → Bool
  | .call f .. => f = .override
  | _ => false

/-- Whether a node brings allowed columns only into the SQL of a formula, and moves nothing to another
stage. -/
def Brings (ctx : Context) (allowed : Option String × String → Prop) : Node → Prop
  | .column name _ => allowed (ctx.modelTable?.map Identifier.safe, name)
  | .taxon u _ => (useSql ctx u).Reads allowed
  | .attribute _ sql _ => sql.Reads allowed
  | .call f _ _ _ =>
    f = .override → ∀ key : OverrideKey, allowed (some key.identifier, OverrideUses.replacementColumn)
  | .transition .. => False
  | _ => True

/-! ## Evaluation -/

theorem reads_evaluateOverride (mapping : String) (keeps : Bool) (h : r.Reads allowed)
    (replaced : ∀ key : OverrideKey, allowed (some key.identifier, OverrideUses.replacementColumn)) :
    (evaluateOverride mapping keeps r).Reads allowed := by
  refine ⟨?_, h.unlabelled⟩
  have column : (Expr.tableCol (OverrideKey.identifier ⟨r.sql.text .snowflake, mapping, keeps⟩)
      OverrideUses.replacementColumn).Reads allowed :=
    Expr.reads_column.2 (replaced _)
  refine Expr.reads_caseWhen (List.forall_mem_singleton.2 ⟨?_, Expr.reads_literal _⟩) ?_
  · exact Expr.reads_binary.2 ⟨column, Expr.reads_literal _⟩
  · intro shown hshown
    cases hshown
    split
    · exact Expr.reads_call.2
        (List.forall_mem_cons.2 ⟨column, List.forall_mem_singleton.2 (Expr.reads_literal _)⟩)
    · exact column

theorem reads_changeFirst {f : Function} {change : Expr → Expr}
    (hchange : ∀ e : Expr, e.Reads allowed → (change e).Reads allowed)
    (each : ∀ r ∈ results, r.Reads allowed) (h : changeFirst f change results = .ok r) :
    r.Reads allowed := by
  cases results with
  | nil => cases h
  | cons first rest =>
    cases h
    have value := each first (List.mem_cons_self ..)
    exact value.map (hchange _ value.columns)

/-- The SQL of a call reads what its arguments read, and tables of mappings if it replaces values. -/
theorem reads_evaluateCall {f : Function} {args : List Node}
    (replaced : f = .override →
      ∀ key : OverrideKey, allowed (some key.identifier, OverrideUses.replacementColumn))
    (each : ∀ r ∈ results, r.Reads allowed) (h : evaluateCall ctx f phase args results = .ok r) :
    r.Reads allowed := by
  have all : ∀ e ∈ results.map (·.sql), e.Reads allowed :=
    List.forall_mem_map.2 fun r hr => (each r hr).columns
  unfold evaluateCall at h
  cases f with
  | iff | ifs =>
    cases h
    refine .gathered _ (passesOn_reads.conditionSql phase fun a ha _ => ?_)
    exact (each a.1 (List.of_mem_zip ha).1).columns
  | coalesce | concat =>
    cases h
    exact .combine _ (Expr.reads_call.2 all)
  | parse =>
    cases h
    exact .combine _ (Expr.reads_dialectCall.2 all)
  | merge =>
    cases h
    refine .combine _ ?_
    split
    · rename_i single
      rw [single] at all
      exact List.forall_mem_singleton.1 all
    · exact Expr.reads_call.2 all
  | convertTimezone =>
    cases results with
    | nil => cases h
    | cons first rest =>
      cases h
      exact ⟨Expr.reads_dialectCall.2 all, (each first (List.mem_cons_self ..)).unlabelled⟩
  | toDate =>
    cases results with
    | nil => cases h
    | cons first rest =>
      cases h
      refine ⟨Expr.reads_dialectCall.2 (List.forall_mem_map.2 fun r hr => ?_),
        (each first (List.mem_cons_self ..)).unlabelled⟩
      exact (each r (List.mem_of_mem_take hr)).columns
  | contains => exact reads_changeFirst (fun e he => passesOn_reads.containsSql _ he) each h
  | dateTrunc =>
    refine reads_changeFirst (fun e he => Expr.reads_dialectCall.2 ?_) each h
    exact List.forall_mem_cons.2 ⟨Expr.reads_literal _, List.forall_mem_singleton.2 he⟩
  | toText | toNumber => exact reads_changeFirst (fun e he => Expr.reads_cast.2 he) each h
  | toBool =>
    cases results with
    | nil => cases h
    | cons first rest =>
      have value := each first (List.mem_cons_self ..)
      cases h
      split
      · exact value
      · exact value.map (Expr.reads_cast.2 value.columns)
  | dateDiff =>
    cases h
    split
    · rename_i _ start stop _
      refine .combine _ (Expr.reads_dialectCall.2 ?_)
      have both : ∀ e ∈ [start.sql, stop.sql], e.Reads allowed :=
        List.forall_mem_cons.2 ⟨(each start (by simp)).columns,
          List.forall_mem_singleton.2 (each stop (by simp)).columns⟩
      exact List.forall_mem_cons.2 ⟨Expr.reads_literal _, both⟩
    · exact .ofSql (Expr.reads_literal _)
  | override =>
    cases results with
    | nil => cases h
    | cons first rest =>
      cases h
      exact reads_evaluateOverride _ _ (each first (List.mem_cons_self ..)) (replaced rfl)
  | cumulative =>
    cases h
    split
    · rename_i metric time _ _ _ _
      have sum : metric.sql.sum.Reads allowed :=
        Expr.reads_call.2 (List.forall_mem_singleton.2 (each metric (by simp)).columns)
      have order : ∀ o ∈ [(⟨time.sql, none, none⟩ : Sql.Ordered Expr)], o.key.Reads allowed :=
        List.forall_mem_singleton.2 (each time (by simp)).columns
      exact ⟨Expr.reads_overWindow.2 ⟨sum, List.forall_mem_nil _, order⟩, rfl⟩
    · exact .ofSql (Expr.reads_literal _)
  | overall =>
    cases results with
    | nil => cases h
    | cons first rest =>
      have value := each first (List.mem_cons_self ..)
      cases h
      refine .combine _ (Expr.reads_overWindow.2
        ⟨?_, List.forall_mem_nil _, List.forall_mem_nil _⟩)
      exact Expr.reads_call.2 (List.forall_mem_singleton.2 value.columns)
  | now =>
    cases h
    exact ⟨Expr.reads_call.2 (List.forall_mem_nil _), rfl⟩
  | dateHour | date | dateWeek | dateMonth =>
    refine reads_changeFirst (fun e he => Expr.reads_dialectCall.2 ?_) each h
    exact List.forall_mem_cons.2 ⟨Expr.reads_literal _, List.forall_mem_singleton.2 he⟩
  | hourOfDay | dayOfWeek | weekOfYear | monthOfYear | year =>
    exact reads_changeFirst (fun e he => Expr.reads_extract.2 he) each h
  | _ =>
    exact reads_changeFirst (fun e he => Expr.reads_call.2 (List.forall_mem_singleton.2 he)) each h

variable {n : Node} {count count' : Nat}

theorem reads_evaluateEach {ns : List Node} {rs : List Fragment}
    (each : ∀ n ∈ ns, ∀ {count count' : Nat} {r : Fragment},
      (n.evaluate ctx).run count = .ok (r, count') → r.Reads allowed)
    (h : (evaluateEach ctx ns).run count = .ok (rs, count')) : ∀ r ∈ rs, r.Reads allowed := by
  have evaluated := isEvaluated_each h
  refine forall_mem_of_forall₂ evaluated (p := fun n => n ∈ ns) ?_ fun _ hn => hn
  rintro n r ⟨count, count', hr⟩ hn
  exact each n hn hr

/-- The SQL of a node reads what its parts bring. -/
theorem reads_evaluate (hn : n.All (Brings ctx allowed))
    (h : (n.evaluate ctx).run count = .ok (r, count')) : r.Reads allowed := by
  have changed {m : Node} {f : Expr → Expr}
      (ih : ∀ {count count' : Nat} {r : Fragment},
        (m.evaluate ctx).run count = .ok (r, count') → r.Reads allowed)
      (hf : ∀ e : Expr, e.Reads allowed → (f e).Reads allowed) {count count' : Nat} {r : Fragment}
      (h : (do return (← m.evaluate ctx).map f : Evaluation Fragment).run count =
        .ok (r, count')) : r.Reads allowed := by
    obtain ⟨a, t, ha, h⟩ := Result.run_bind_eq_ok.1 h
    cases h
    have inner := ih ha
    exact inner.map (hf _ inner.columns)
  have inside {n : Node} (hn : n.All (Brings ctx allowed)) :
      ∀ c ∈ n.children, c.All (Brings ctx allowed) := (all_iff.1 hn).2
  induction n generalizing count count' r with
  | integer | decimal | text | bool =>
    rw [evaluate] at h
    cases h
    exact .ofSql (Expr.reads_literal _)
  | column name _ =>
    have own : allowed (ctx.modelTable?.map Identifier.safe, name) := (all_iff.1 hn).1
    rw [evaluate] at h
    cases h
    cases table : ctx.modelTable? with
    | none =>
      rw [table] at own
      exact .ofSql (Expr.reads_column.2 own)
    | some t =>
      rw [table] at own
      exact .ofSql (Expr.reads_column.2 own)
  | taxon | modelAttribute =>
    rw [evaluate] at h
    cases h
    exact .ofSql (all_iff.1 hn).1
  | paren n _ ih =>
    have inner := List.forall_mem_singleton.1 (inside hn)
    rw [evaluate] at h
    exact changed (ih inner) (fun _ he => Expr.reads_paren.2 he) h
  | not n _ ih =>
    have inner := List.forall_mem_singleton.1 (inside hn)
    rw [evaluate] at h
    exact changed (ih inner) (fun _ he => Expr.reads_unary.2 he) h
  | isNull n _ _ ih =>
    have inner := List.forall_mem_singleton.1 (inside hn)
    rw [evaluate] at h
    exact changed (ih inner) (fun _ he => Expr.reads_isNull.2 he) h
  | computed u n _ ih =>
    have inner := List.forall_mem_singleton.1 (inside hn)
    rw [evaluate] at h
    exact ih inner h
  | binary op l r _ hl hr =>
    obtain ⟨_, onLeft, onRight⟩ := all_binary.1 hn
    rw [evaluate] at h
    obtain ⟨left, t, hleft, h⟩ := Result.run_bind_eq_ok.1 h
    obtain ⟨right, u, hright, h⟩ := Result.run_bind_eq_ok.1 h
    cases h
    have both : ∀ e ∈ [left.sql, right.sql], e.Reads allowed :=
      List.forall_mem_cons.2
        ⟨(hl onLeft hleft).columns, List.forall_mem_singleton.2 (hr onRight hright).columns⟩
    exact .combine _ (passesOn_reads.operationSql op both)
  | call f args single _ ih =>
    have own := (all_iff.1 hn).1
    rw [evaluate] at h
    obtain ⟨results, t, hresults, h⟩ := Result.run_bind_eq_ok.1 h
    obtain ⟨_, ha, h⟩ := Result.bind_eq_ok.1 h
    cases h
    have arguments := reads_evaluateEach (fun c hc => ih c hc (inside hn c hc)) hresults
    exact reads_evaluateCall own arguments ha
  | transition => exact (all_iff.1 hn).1.elim
  | root n _ ih =>
    have inner := List.forall_mem_singleton.1 (inside hn)
    rw [evaluate] at h
    split at h
    · cases h
      exact .ofSql (Expr.reads_literal _)
    · exact ih inner h

/-! ## Formulas of models -/

end Node

theorem Outcome.reads_sql {ctx : Context} {n : Node} {o : Outcome}
    (hn : n.All (Node.Brings ctx allowed)) (h : n.outcome ctx = .ok o) : o.sql.Reads allowed := by
  obtain ⟨⟨r, _⟩, hr, h⟩ := Result.bind_eq_ok.1 h
  have value := Node.reads_evaluate hn hr
  cases h
  unfold Outcome.sql
  rw [PostFormula.fill_empty, value.unlabelled]
  dsimp only
  split
  · exact Expr.reads_literal _
  · exact value.columns

end Formula

/-! ## Models -/

namespace Model

open Formula (Node)

variable {m : Model}

/-- Whether the formula of some attribute replaces values. -/
def CallsOverride (m : Model) : Prop :=
  ∃ taxon a depth n, m.attribute? taxon = some a ∧
    Node.rootOfFormula m.context (some (m.scopeAt depth)) a.formula = .ok n ∧
      ∃ c ∈ n.parts, c.isOverride = true

end Model

end SemanticLayer
