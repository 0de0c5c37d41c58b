import SemanticLayer.Proofs.Collections.Entries
import SemanticLayer.Proofs.Formula.EvaluatedUnits
import SemanticLayer.Proofs.Sql.Windows

/-!
# Windows in the SQL of formulas

Evaluation writes a window for each running total.  In the template of a formula it leaves a place for
the groups of a request, and the column of its time and the taxons that the time uses are excluded
from them.

* `Node.totalTimes`: the times of the running totals in a node;
* `IsTotalWindow`: a window without groups, or one of a running total whose time is excluded;
* `Fragment.HasTotals`: the windows of a fragment, with what it excludes;
* `hasTotals_evaluateCall`, `hasTotals_evaluateTransition`: one step of evaluation;
* `hasTotals_evaluate`: a whole node.
-/

namespace SemanticLayer.Formula

open Sql (Expr Ordered)

/-- The further arguments of a call that are written into its SQL and not looked into. -/
def Function.texts {α : Type} (f : Function) (args : List α) : List α :=
  match f with
  | .convertTimezone => args.drop 1
  | .toDate => (args.drop 1).take 1
  | _ => []

namespace Node

variable {ctx : Context}

/-! ## Running totals -/

/-- The time that a running total goes over. -/
def totalTime? : Node → Option Node
  | .call .cumulative (_ :: time :: _) _ _ => some time
  | _ => none

/-- The times of the running totals in a node. -/
def totalTimes (n : Node) : List Node := n.parts.filterMap totalTime?

theorem totalTimes_eq (n : Node) :
    n.totalTimes = n.totalTime?.toList ++ n.children.flatMap totalTimes := by
  rw [totalTimes, parts_eq, List.filterMap_cons, List.filterMap_flatMap]
  cases n.totalTime? <;> rfl

theorem totalTimes_subset {n c : Node} (h : c ∈ n.children) : c.totalTimes ⊆ n.totalTimes := by
  rw [totalTimes_eq n]
  exact fun time htime => List.mem_append_right _ (List.mem_flatMap.2 ⟨c, h, htime⟩)

/-- A constant holds no running total. -/
theorem totalTimes_of_constant? {n : Node} {c : Constant} (h : n.constant? = some c) :
    n.totalTimes = [] := by
  induction n generalizing c with
  | taxon | modelAttribute | isNull | call => cases h
  | integer | decimal | text | bool | column => rfl
  | paren n _ ih | root n _ ih | computed _ n _ ih =>
    rw [totalTimes_eq]
    simpa [totalTime?, children] using ih h
  | transition _ n _ _ _ ih =>
    rw [totalTimes_eq]
    simpa [totalTime?, children] using ih h
  | not n _ ih =>
    obtain ⟨d, hd, _⟩ := Option.map_eq_some_iff.1 h
    rw [totalTimes_eq]
    simpa [totalTime?, children] using ih hd
  | binary op l r _ hl hr =>
    obtain ⟨a, ha, h⟩ := Option.bind_eq_some_iff.1 h
    obtain ⟨b, hb, _⟩ := Option.bind_eq_some_iff.1 h
    rw [totalTimes_eq]
    simpa [totalTime?, children] using ⟨hl ha, hr hb⟩

/-- Whether a node writes nothing of others into its SQL that is not looked into: it is no attribute
of a model, and what a conversion of times takes beside its value are texts. -/
def IsOpen : Node → Prop
  | .call f args _ _ => ∀ n ∈ f.texts args, ∃ s, n.constant? = some (.text s)
  | .attribute .. => False
  | _ => True

/-- Whether no running total stands in a missing operand of a numeric operation. -/
def CountsTotals (ctx : Context) : Node → Prop
  | .binary op l r _ =>
    op.isNumeric = true → ∀ n ∈ [l, r], n.isMissing ctx = true → n.totalTimes = []
  | _ => True

instance : DecidablePred (CountsTotals ctx)
  | .binary op l r _ =>
    inferInstanceAs (Decidable
      (op.isNumeric = true → ∀ n ∈ [l, r], n.isMissing ctx = true → n.totalTimes = []))
  | .integer .. | .decimal .. | .text .. | .bool .. | .column .. | .paren .. | .taxon ..
  | .attribute .. | .not .. | .isNull .. | .call .. | .computed .. | .transition .. | .root .. =>
    .isTrue trivial

/-- Whether SQL is what a node is evaluated to. -/
def IsEvaluated (ctx : Context) (n : Node) (r : Fragment) : Prop :=
  ∃ count count', (n.evaluate ctx).run count = .ok (r, count')

theorem isEvaluated_each {ns : List Node} {rs : List Fragment} {count count' : Nat}
    (h : (evaluateEach ctx ns).run count = .ok (rs, count')) :
    List.Forall₂ (IsEvaluated ctx) ns rs := by
  induction ns generalizing count rs with
  | nil =>
    rw [evaluateEach] at h
    cases h
    exact .nil
  | cons n ns ih =>
    rw [evaluateEach] at h
    obtain ⟨r, t, hr, h⟩ := Result.run_bind_eq_ok.1 h
    obtain ⟨rs', t', hrs, h⟩ := Result.run_bind_eq_ok.1 h
    cases h
    exact .cons ⟨count, t, hr⟩ (ih hrs)

end Node

open Node

/-! ## Windows -/

/-- Whether an ordering is by the value of a time, and the column of that value and the taxons that
the time uses are excluded from the groups. -/
structure OrdersBy (ctx : Context) (excluded : NameSet) (time : Node) (os : List (Ordered Expr)) :
    Prop where
  value : ∃ r, time.IsEvaluated ctx r ∧ os = [⟨r.sql, none, none⟩] ∧
    columnOrText r.sql ∈ excluded
  used : ∀ s ∈ (time.used ctx).all, s ∈ excluded

/-- Whether a window has no groups, or is that of a running total over one of some times. -/
def IsTotalWindow (ctx : Context) (times : List Node) (excluded : NameSet) (ps : List Expr)
    (os : List (Ordered Expr)) : Prop :=
  ps = [] ∨ ps = [.placeholder dimensionsPlaceholder] ∧
    ∃ time ∈ times, OrdersBy ctx excluded time os

/-- Whether all windows of SQL are without groups. -/
abbrev Ungrouped (e : Expr) : Prop := e.HasWindows fun ps _ => ps = []

variable {ctx : Context} {times times' : List Node} {excluded excluded' : NameSet}

theorem IsTotalWindow.mono {ps : List Expr} {os : List (Ordered Expr)}
    (h : IsTotalWindow ctx times excluded ps os) (wider : times ⊆ times')
    (more : ∀ s ∈ excluded, s ∈ excluded') : IsTotalWindow ctx times' excluded' ps os := by
  rcases h with none | ⟨grouped, time, htime, ⟨r, evaluated, same, column⟩, used⟩
  · exact .inl none
  · exact .inr ⟨grouped, time, wider htime, ⟨r, evaluated, same, more _ column⟩,
      fun s hs => more s (used s hs)⟩

namespace Fragment

/-- Whether a fragment has windows without groups only, and those of running totals over some times
in its template, for which something is excluded. -/
structure HasTotals (ctx : Context) (times : List Node) (excluded : NameSet) (r : Fragment) :
    Prop where
  sql : Ungrouped r.sql
  template : r.templateOrSql.HasWindows (IsTotalWindow ctx times excluded)

/-- Whether SQL is built with windows of its parts and its own, which have no groups. -/
def AddsUngrouped (f : List Expr → Expr) (count : Nat) : Prop :=
  ∀ (allowed : List Expr → List (Ordered Expr) → Prop) es, (∀ os, allowed [] os) →
    es.length = count → (∀ e ∈ es, e.HasWindows allowed) → (f es).HasWindows allowed

variable {r s : Fragment}

theorem sql_foldl_collect (ss : List Fragment) : (ss.foldl collect r).sql = r.sql := by
  induction ss generalizing r with
  | nil => rfl
  | cons s ss ih => exact ih

theorem template?_foldl_collect (ss : List Fragment) :
    (ss.foldl collect r).template? = r.template? := by
  induction ss generalizing r with
  | nil => rfl
  | cons s ss ih => exact ih

theorem mem_excluded_foldl_collect {ss : List Fragment} {name : String} :
    name ∈ (ss.foldl collect r).excluded ↔ name ∈ r.excluded ∨ ∃ s ∈ ss, name ∈ s.excluded := by
  induction ss generalizing r with
  | nil => simp
  | cons s ss ih =>
    rw [List.foldl_cons, ih, List.exists_mem_cons_iff, collect, SortedSet.mem_cup, or_assoc]

namespace HasTotals

theorem mono (h : r.HasTotals ctx times excluded) (wider : times ⊆ times')
    (more : ∀ s ∈ excluded, s ∈ excluded') : r.HasTotals ctx times' excluded' :=
  ⟨h.sql, h.template.imp fun _ _ window => window.mono wider more⟩

/-- Without running totals nothing has to be excluded. -/
theorem of_nil (h : r.HasTotals ctx [] excluded) : r.HasTotals ctx times excluded' := by
  refine ⟨h.sql, h.template.imp fun _ _ window => window.imp_right ?_⟩
  rintro ⟨_, _, none, _⟩
  cases none

theorem ofUngrouped (sql : Ungrouped r.sql) (template : Ungrouped r.templateOrSql) :
    r.HasTotals ctx times excluded :=
  ⟨sql, template.imp fun _ _ => .inl⟩

theorem ofSql {sql : Expr} (h : Ungrouped sql) : (ofSql sql).HasTotals ctx times excluded :=
  ofUngrouped h h

/-- SQL that is built of both forms of some fragments in one way. -/
theorem build (f : List Expr → Expr) (parts : List Fragment) (hf : AddsUngrouped f parts.length)
    (sql : r.sql = f (parts.map (·.sql))) (template : r.templateOrSql = f (parts.map templateOrSql))
    (each : ∀ p ∈ parts, p.HasTotals ctx times excluded) : r.HasTotals ctx times excluded := by
  constructor
  · rw [sql]
    exact hf _ _ (fun _ => rfl) (List.length_map _)
      (List.forall_mem_map.2 fun p hp => (each p hp).sql)
  · rw [template]
    exact hf _ _ (fun _ => .inl rfl) (List.length_map _)
      (List.forall_mem_map.2 fun p hp => (each p hp).template)

theorem map {f : Expr → Expr} (h : r.HasTotals ctx times excluded)
    (hf : ∀ (allowed : List Expr → List (Ordered Expr) → Prop) e, e.HasWindows allowed →
      (f e).HasWindows allowed) :
    (r.map f).HasTotals ctx times excluded :=
  ⟨hf _ _ h.sql, hf _ _ h.template⟩

theorem combine {f : List Expr → Expr} {parts counted : List Fragment}
    (hf : AddsUngrouped f parts.length)
    (each : ∀ p ∈ parts, p.HasTotals ctx times (combine f parts counted).excluded) :
    (combine f parts counted).HasTotals ctx times (combine f parts counted).excluded := by
  refine build f parts hf (sql_foldl_collect _) ?_ each
  unfold templateOrSql Fragment.combine
  rw [template?_foldl_collect]
  rfl

/-- Fragments that are all counted. -/
theorem combine_all {f : List Expr → Expr} {parts : List Fragment}
    (hf : AddsUngrouped f parts.length) (each : ∀ p ∈ parts, p.HasTotals ctx times p.excluded) :
    (Fragment.combine f parts parts).HasTotals ctx times (Fragment.combine f parts parts).excluded :=
  combine hf fun p hp => (each p hp).mono (List.Subset.refl _) fun _ hs =>
    mem_excluded_foldl_collect.2 (.inr ⟨p, hp, hs⟩)

end HasTotals

end Fragment

/-! ## SQL -/

section
variable {allowed : List Expr → List (Ordered Expr) → Prop}

theorem passesOn_hasWindows : PassesOn (Expr.HasWindows allowed) where
  literal := Expr.hasWindows_literal
  binary hl hr := Expr.hasWindows_binary.2 ⟨hl, hr⟩
  call hargs := Expr.hasWindows_call.2 hargs
  like he hpattern :=
    (Expr.hasWindows_iff rfl).2 (List.forall_mem_cons.2 ⟨he, List.forall_mem_singleton.2 hpattern⟩)
  caseWhen := Expr.hasWindows_caseWhen

end

/-! ## Calls -/

namespace Node

variable {phase : Phase} {r : Fragment} {results : List Fragment}

theorem hasTotals_evaluateCondition {args : List (Fragment × Bool)}
    (h : ∀ a ∈ args, a.1.HasTotals ctx times a.1.excluded) :
    (evaluateCondition phase args).HasTotals ctx times (evaluateCondition phase args).excluded := by
  constructor
  · rw [evaluateCondition, Fragment.sql_foldl_collect]
    exact passesOn_hasWindows.conditionSql phase fun a ha _ => (h a ha).sql
  · have template : (evaluateCondition phase args).templateOrSql =
        conditionSql phase (·.templateOrSql) args := by
      rw [evaluateCondition, Fragment.templateOrSql, Fragment.template?_foldl_collect]
      rfl
    rw [template]
    refine passesOn_hasWindows.conditionSql phase fun a ha present => ?_
    refine ((h a ha).mono (List.Subset.refl _) fun s hs => ?_).template
    refine Fragment.mem_excluded_foldl_collect.2 (.inr ⟨a.1, ?_, hs⟩)
    exact List.mem_map.2 ⟨a, List.mem_filter.2 ⟨ha, by rw [present]; rfl⟩, rfl⟩

theorem hasTotals_evaluateOverride (mapping : String) (keeps : Bool) (r : Fragment) :
    (evaluateOverride mapping keeps r).HasTotals ctx times excluded := by
  have shown (table : String) : Ungrouped (Expr.caseWhen
      [((Expr.tableCol table OverrideUses.replacementColumn).eq (.string OverrideUses.nullMarker),
        .null)]
      (some (if keeps then
        Expr.coalesce [.tableCol table OverrideUses.replacementColumn, .string "Unknown"]
        else .tableCol table OverrideUses.replacementColumn))) := by
    refine Expr.hasWindows_caseWhen (List.forall_mem_singleton.2 ?_) ?_
    · simp [Expr.eq, Expr.string, Expr.null, Expr.tableCol]
    · rintro _ ⟨⟩
      split <;> simp [Expr.coalesce, Expr.func, Expr.string, Expr.tableCol]
  exact .ofUngrouped (shown _) (shown _)

/-- A running total excludes the column of its time, and the taxons that the time uses. -/
theorem hasTotals_evaluateCumulative {n : Node} {metric time : Fragment}
    (value : Ungrouped metric.sql) (order : Ungrouped time.sql) (htime : n.IsEvaluated ctx time)
    (mem : n ∈ times) :
    (evaluateCumulative metric time (n.used ctx).all).HasTotals ctx times
      (evaluateCumulative metric time (n.used ctx).all).excluded := by
  have total {allowed : List Expr → List (Ordered Expr) → Prop} {groups : List Expr}
      (own : allowed groups [⟨time.sql, none, none⟩]) (plain : ∀ os, allowed [] os)
      (h : ∀ e ∈ groups, e.HasWindows allowed) :
      (Expr.overWindow metric.sql.sum groups [⟨time.sql, none, none⟩]
        (some .toCurrentRow)).HasWindows allowed := by
    have inside {e : Expr} (he : Ungrouped e) : e.HasWindows allowed :=
      he.imp fun _ _ none => none ▸ plain _
    exact Expr.hasWindows_overWindow.2
      ⟨own, by simp [Expr.sum, Expr.func, inside value], h,
        List.forall_mem_singleton.2 (inside order)⟩
  have excludes (s : String) (hs : s = columnOrText time.sql ∨ s ∈ (n.used ctx).all) :
      s ∈ (evaluateCumulative metric time (n.used ctx).all).excluded := by
    rw [evaluateCumulative, SortedSet.mem_cup, SortedSet.mem_insert]
    tauto
  constructor
  · exact total rfl (fun _ => rfl) (List.forall_mem_nil _)
  · refine total (.inr ⟨rfl, n, mem, ?_⟩) (fun _ => .inl rfl)
      (List.forall_mem_singleton.2 (Expr.hasWindows_placeholder dimensionsPlaceholder))
    exact ⟨⟨time, htime, rfl, excludes _ (.inl rfl)⟩, fun s hs => excludes s (.inr hs)⟩

theorem hasTotals_changeFirst {f : Function} {change : Expr → Expr}
    (hchange : ∀ (allowed : List Expr → List (Ordered Expr) → Prop) e, e.HasWindows allowed →
      (change e).HasWindows allowed)
    (each : ∀ r ∈ results, r.HasTotals ctx times r.excluded)
    (h : changeFirst f change results = .ok r) : r.HasTotals ctx times r.excluded := by
  cases results with
  | nil => cases h
  | cons first rest =>
    cases h
    exact (each first (List.mem_cons_self ..)).map hchange

/-- The windows of a call are those of its arguments, and a running total of its own. -/
theorem hasTotals_evaluateCall {f : Function} {args : List Node} {single : Bool} {place : Location}
    (opened : (Node.call f args single place).IsOpen)
    (evaluated : List.Forall₂ (IsEvaluated ctx) args results)
    (inside : List.Forall₂ (fun n r => r.HasTotals ctx n.totalTimes r.excluded) args results)
    (h : evaluateCall ctx f phase args results = .ok r) :
    r.HasTotals ctx (Node.call f args single place).totalTimes r.excluded := by
  have each : ∀ r ∈ results,
      r.HasTotals ctx (Node.call f args single place).totalTimes r.excluded :=
    forall_mem_of_forall₂ inside
      (fun n r totals (hn : n ∈ args) => totals.mono (totalTimes_subset hn) fun _ hs => hs)
      fun _ hn => hn
  -- What is written and not looked into holds no running total.
  have written {excluded : NameSet} {ns : List Node} {rs : List Fragment}
      (each : List.Forall₂ (fun n r => r.HasTotals ctx n.totalTimes r.excluded) ns rs)
      (hns : ∀ n ∈ ns, ∃ s, n.constant? = some (.text s)) :
      ∀ r ∈ rs, r.HasTotals ctx (Node.call f args single place).totalTimes excluded :=
    forall_mem_of_forall₂ each
      (fun n r totals ⟨_, constant⟩ => (totalTimes_of_constant? constant ▸ totals).of_nil) hns
  unfold evaluateCall at h
  cases f with
  | iff | ifs =>
    cases h
    exact hasTotals_evaluateCondition fun a ha => each a.1 (List.of_mem_zip ha).1
  | coalesce | concat =>
    cases h
    exact .combine_all (fun _ es _ _ hes => Expr.hasWindows_call.2 hes) each
  | parse =>
    cases h
    exact .combine_all (fun _ es _ _ hes => (Expr.hasWindows_iff rfl).2 hes) each
  | merge =>
    cases h
    refine .combine_all (fun _ es _ _ hes => ?_) each
    split
    · exact List.forall_mem_singleton.1 hes
    · exact Expr.hasWindows_call.2 hes
  | convertTimezone =>
    cases inside with
    | nil => cases h
    | @cons n first ns rest own others =>
      cases h
      refine .build (.dialectCall .convertTimezone) (first :: rest)
        (fun _ es _ _ hes => (Expr.hasWindows_iff rfl).2 hes) rfl rfl ?_
      exact List.forall_mem_cons.2 ⟨each first (List.mem_cons_self ..), written others opened⟩
  | toDate =>
    cases inside with
    | nil => cases h
    | @cons n first ns rest own others =>
      cases h
      refine .build (.dialectCall .toDate) (first :: rest.take 1)
        (fun _ es _ _ hes => (Expr.hasWindows_iff rfl).2 hes) rfl rfl ?_
      exact List.forall_mem_cons.2
        ⟨each first (List.mem_cons_self ..), written (List.forall₂_take 1 others) opened⟩
  | contains => exact hasTotals_changeFirst (fun _ e he => passesOn_hasWindows.containsSql _ he) each h
  | dateTrunc | dateHour | date | dateWeek | dateMonth =>
    refine hasTotals_changeFirst (fun _ e he => ?_) each h
    exact (Expr.hasWindows_iff rfl).2
      (List.forall_mem_cons.2 ⟨Expr.hasWindows_literal _, List.forall_mem_singleton.2 he⟩)
  | toText | toNumber | hourOfDay | dayOfWeek | weekOfYear | monthOfYear | year =>
    refine hasTotals_changeFirst (fun _ e he => ?_) each h
    exact (Expr.hasWindows_iff rfl).2 (List.forall_mem_singleton.2 he)
  | toBool =>
    cases results with
    | nil => cases h
    | cons first rest =>
      have value := each first (List.mem_cons_self ..)
      cases h
      split
      · exact value
      · exact value.map fun _ e he => (Expr.hasWindows_iff rfl).2 (List.forall_mem_singleton.2 he)
  | dateDiff =>
    cases h
    split
    · rename_i _ start stop _
      have both : ∀ r ∈ [start, stop], r.HasTotals ctx
          (Node.call .dateDiff args single place).totalTimes r.excluded :=
        List.forall_mem_cons.2
          ⟨each start (by simp), List.forall_mem_singleton.2 (each stop (by simp))⟩
      refine .combine_all (fun _ es _ _ hes => (Expr.hasWindows_iff rfl).2 ?_) both
      exact List.forall_mem_cons.2 ⟨Expr.hasWindows_literal _, hes⟩
    · exact .ofSql (Expr.hasWindows_literal _)
  | override =>
    cases results with
    | nil => cases h
    | cons first rest =>
      cases h
      exact hasTotals_evaluateOverride _ _ first
  | cumulative =>
    cases h
    split
    · rename_i metric time _ _ n _
      obtain ⟨_, evaluated⟩ := List.forall₂_cons.1 evaluated
      obtain ⟨htime, _⟩ := List.forall₂_cons.1 evaluated
      refine hasTotals_evaluateCumulative (each metric (by simp)).sql (each time (by simp)).sql
        htime ?_
      rw [totalTimes_eq]
      exact List.mem_cons_self ..
    · exact .ofSql (Expr.hasWindows_literal _)
  | overall =>
    cases results with
    | nil => cases h
    | cons first rest =>
      cases h
      refine .combine_all (fun _ es groupless _ hes => ?_)
        (List.forall_mem_singleton.2 (each first (List.mem_cons_self ..)))
      exact Expr.hasWindows_overWindow.2 ⟨groupless [], Expr.hasWindows_call.2 hes,
        List.forall_mem_nil _, List.forall_mem_nil _⟩
  | now =>
    cases h
    have now : Ungrouped (Expr.func "now" []) := Expr.hasWindows_call.2 (List.forall_mem_nil _)
    exact .ofUngrouped now now
  | _ =>
    exact hasTotals_changeFirst
      (fun _ e he => Expr.hasWindows_call.2 (List.forall_mem_singleton.2 he)) each h

/-! ## Nodes -/

variable {n : Node} {s : Fragment} {count count' : Nat}

/-- What a stage computes for others is added beside the SQL of a fragment. -/
theorem forms_addFormula {t : Target} {aggregation : Aggregation} {label : String} {sql : Expr}
    (h : addFormula t n aggregation label sql r = .ok s) :
    s.sql = r.sql ∧ s.templateOrSql = r.templateOrSql := by
  cases t with
  | dimension =>
    obtain ⟨source, _, h⟩ := Result.bind_eq_ok.1 h
    cases h
    exact ⟨rfl, rfl⟩
  | aggregation | postAggregation =>
    cases h
    exact ⟨rfl, rfl⟩

/-- A value that is moved is a column, or what it was before. -/
theorem hasTotals_evaluateTransition {t : Target} {aggregation : Aggregation}
    {label? : Option String} (hr : r.HasTotals ctx times r.excluded)
    (h : (evaluateTransition ctx t n aggregation label? r).run count = .ok (s, count')) :
    s.HasTotals ctx times s.excluded := by
  unfold evaluateTransition at h
  dsimp only at h
  split at h
  · cases h
    exact hr
  split at h
  · cases h
  split at h
  · cases h
    split
    · exact .ofUngrouped hr.sql hr.sql
    · exact ⟨hr.sql, hr.template⟩
  have moved {label : String} {u : Nat}
      (h : (addFormula t n aggregation label r.sql
        { (if n.isMissing ctx then Fragment.ofSql r.sql else r) with
          sql := .col (Identifier.safe label)
          template? := if n.isMissing ctx then none else some (.col (Identifier.safe label))
          label? := some label } : Evaluation Fragment).run u = .ok (s, count')) :
      s.HasTotals ctx times s.excluded := by
    obtain ⟨_, added, h⟩ := Result.bind_eq_ok.1 h
    cases h
    obtain ⟨sql, template⟩ := forms_addFormula added
    refine .ofUngrouped ?_ ?_
    · rw [sql]
      exact Expr.hasWindows_column _ _
    · rw [template, Fragment.templateOrSql]
      dsimp only
      split <;> exact Expr.hasWindows_column _ _
  cases label? with
  | some label => exact moved h
  | none => exact moved h

/-- The windows of an operation are those of its operands.  A missing one is not counted, and holds
no running total. -/
theorem hasTotals_binary {op : Operator} {l r : Node} {place : Location} {left right : Fragment}
    (counts : (Node.binary op l r place).CountsTotals ctx)
    (hl : left.HasTotals ctx l.totalTimes left.excluded)
    (hr : right.HasTotals ctx r.totalTimes right.excluded) :
    let counted := (if op.isNumeric && l.isMissing ctx then [] else [left]) ++
      if op.isNumeric && r.isMissing ctx then [] else [right]
    (Fragment.combine (operationSql op) [left, right] counted).HasTotals ctx
      (Node.binary op l r place).totalTimes
      (Fragment.combine (operationSql op) [left, right] counted).excluded := by
  intro counted
  have operand {n : Node} {v : Fragment} (hn : n ∈ [l, r])
      (hv : v.HasTotals ctx n.totalTimes v.excluded)
      (among : (op.isNumeric && n.isMissing ctx) = false → v ∈ counted) :
      v.HasTotals ctx (Node.binary op l r place).totalTimes
        (Fragment.combine (operationSql op) [left, right] counted).excluded := by
    cases lost : op.isNumeric && n.isMissing ctx with
    | true =>
      obtain ⟨numeric, missing⟩ := Bool.and_eq_true_iff.1 lost
      exact (counts numeric n hn missing ▸ hv).of_nil
    | false =>
      exact hv.mono (totalTimes_subset hn) fun _ hs =>
        Fragment.mem_excluded_foldl_collect.2 (.inr ⟨v, among lost, hs⟩)
  refine .combine (fun _ es _ _ hes => passesOn_hasWindows.operationSql op hes)
    (List.forall_mem_cons.2 ⟨operand (by simp) hl fun present => ?_,
      List.forall_mem_singleton.2 (operand (by simp) hr fun present => ?_)⟩)
  · exact List.mem_append_left _ (by rw [present]; exact List.mem_singleton_self left)
  · exact List.mem_append_right _ (by rw [present]; exact List.mem_singleton_self right)

/-- All windows of a node are without groups, but in its template those of running totals. -/
theorem hasTotals_evaluate (counts : n.All (CountsTotals ctx)) (opened : n.All IsOpen)
    (h : n.IsEvaluated ctx r) : r.HasTotals ctx n.totalTimes r.excluded := by
  induction n using children_induction generalizing r with
  | h n ih =>
    obtain ⟨count, count', h⟩ := h
    obtain ⟨ownCounts, counts⟩ := all_iff.1 counts
    obtain ⟨ownOpened, opened⟩ := all_iff.1 opened
    have inside {c : Node} {a : Fragment} (hc : c ∈ n.children) (ha : c.IsEvaluated ctx a) :
        a.HasTotals ctx c.totalTimes a.excluded := ih c hc (counts c hc) (opened c hc) ha
    have within {c : Node} {a : Fragment} (hc : c ∈ n.children) (ha : c.IsEvaluated ctx a) :
        a.HasTotals ctx n.totalTimes a.excluded :=
      (inside hc ha).mono (totalTimes_subset hc) fun _ hs => hs
    have changed {c : Node} {f : Expr → Expr} (hc : c ∈ n.children)
        (hf : ∀ (allowed : List Expr → List (Ordered Expr) → Prop) e, e.HasWindows allowed →
          (f e).HasWindows allowed)
        (h : (do return (← c.evaluate ctx).map f : Evaluation Fragment).run count =
          .ok (r, count')) : r.HasTotals ctx n.totalTimes r.excluded := by
      obtain ⟨a, u, ha, h⟩ := Result.run_bind_eq_ok.1 h
      cases h
      exact (within hc ⟨_, _, ha⟩).map hf
    cases n with
    | integer | decimal | text | bool =>
      rw [evaluate] at h
      cases h
      exact .ofSql (Expr.hasWindows_literal _)
    | column =>
      rw [evaluate] at h
      cases h
      refine .ofSql ?_
      split <;> exact Expr.hasWindows_column _ _
    | taxon u =>
      rw [evaluate] at h
      cases h
      refine .ofSql ?_
      unfold useSql
      dsimp only
      split
      · exact Expr.hasWindows_column _ _
      · exact Expr.hasWindows_placeholder _
    | «attribute» => exact ownOpened.elim
    | paren c | not c | isNull c =>
      rw [evaluate] at h
      refine changed (List.mem_singleton_self c) (fun _ e he => ?_) h
      exact (Expr.hasWindows_iff rfl).2 (List.forall_mem_singleton.2 he)
    | computed u c =>
      rw [evaluate] at h
      exact within (List.mem_singleton_self c) ⟨_, _, h⟩
    | binary op left right =>
      rw [evaluate] at h
      obtain ⟨a, t, ha, h⟩ := Result.run_bind_eq_ok.1 h
      obtain ⟨b, u, hb, h⟩ := Result.run_bind_eq_ok.1 h
      cases h
      exact hasTotals_binary ownCounts (inside (by simp [children]) ⟨_, _, ha⟩)
        (inside (by simp [children]) ⟨_, _, hb⟩)
    | call f args single place =>
      rw [evaluate] at h
      obtain ⟨results, t, hresults, h⟩ := Result.run_bind_eq_ok.1 h
      obtain ⟨_, ha, h⟩ := Result.bind_eq_ok.1 h
      cases h
      have evaluated := isEvaluated_each hresults
      refine hasTotals_evaluateCall ownOpened evaluated ?_ ha
      exact ((List.forall₂_and_left _ _).2 ⟨fun _ hn => hn, evaluated⟩).imp fun _ _ h =>
        inside h.1 h.2
    | transition t c a label? =>
      rw [evaluate] at h
      obtain ⟨v, u, hv, h⟩ := Result.run_bind_eq_ok.1 h
      exact hasTotals_evaluateTransition (within (List.mem_singleton_self c) ⟨_, _, hv⟩) h
    | root c =>
      rw [evaluate] at h
      split at h
      · cases h
        exact .ofSql (Expr.hasWindows_literal _)
      · exact within (List.mem_singleton_self c) ⟨_, _, h⟩

end Node

end SemanticLayer.Formula
