import SemanticLayer.Proofs.Collections.Entries
import SemanticLayer.Proofs.Formula.PassedUnits
import SemanticLayer.Proofs.Result
import SemanticLayer.Proofs.Sql.TimeUnits

/-!
# Time units in the SQL of formulas

Evaluation writes a time unit where a call passes one, and its own units for truncations to a part
of a moment.  All SQL it makes has units from nowhere else.

* `Fragment.carried`, `Fragment.HasUnits`: the SQL that a fragment leaves to other stages, and
  whether all its SQL has allowed units;
* `PassesOn`: properties that the SQL of operations and conditions has from that of their arguments;
* `hasUnits_evaluateCall`, `hasUnits_evaluateTransition`: one step of evaluation;
* `hasUnits_evaluate`: a whole node;
* `hasUnits_outcome`: so all SQL of an outcome has allowed units if the node passes such units.
-/

namespace SemanticLayer

theorem OverrideUses.mem_toList_merge {us vs : OverrideUses} {k : OverrideKey} {e : Sql.Expr}
    (h : (k, e) ∈ (us.merge vs).toList) : (k, e) ∈ us.toList ∨ (k, e) ∈ vs.toList := by
  unfold merge at h
  generalize vs.toList = entries at h ⊢
  induction entries generalizing us with
  | nil => exact .inl h
  | cons entry entries ih =>
    rcases ih h with first | rest
    · refine (SortedMap.mem_toList_insertIfNew.1 first).imp id ?_
      rintro ⟨_, rfl, rfl⟩
      exact List.mem_cons_self ..
    · exact .inr (List.mem_cons_of_mem _ rest)

namespace Formula

open Sql (DialectFunction Expr)

variable {allowed : DialectFunction → String → Prop} {sources : Expr → Prop}

namespace Fragment

/-- The SQL that a fragment leaves to other stages. -/
def carried (r : Fragment) : List Expr :=
  r.aggregations.map (·.formula) ++ r.dimensionFormulas.map (·.formula) ++
    r.sourceTemplates.map (·.template) ++ r.overrides.values

/-- Whether all SQL of a fragment has allowed time units. -/
structure HasUnits (allowed : DialectFunction → String → Prop) (r : Fragment) : Prop where
  sql : r.sql.HasUnits allowed
  template : ∀ t ∈ r.template?, t.HasUnits allowed
  carried : ∀ e ∈ r.carried, e.HasUnits allowed

namespace HasUnits

variable {r s : Fragment}

theorem templateOrSql (h : r.HasUnits allowed) : r.templateOrSql.HasUnits allowed := by
  unfold Fragment.templateOrSql
  cases template : r.template? with
  | none => exact h.sql
  | some t => exact h.template t template

theorem ofSql {sql : Expr} (h : sql.HasUnits allowed) : (ofSql sql).HasUnits allowed :=
  ⟨h, nofun, List.forall_mem_nil _⟩

/-- New SQL beside what is carried. -/
theorem withSql (h : r.HasUnits allowed) {sql template : Expr} (hs : sql.HasUnits allowed)
    (ht : template.HasUnits allowed) :
    { r with sql, template? := some template }.HasUnits allowed :=
  ⟨hs, fun _ same => Option.some.inj same ▸ ht, h.carried⟩

theorem map (h : r.HasUnits allowed) {f : Expr → Expr}
    (hf : ∀ e, e.HasUnits allowed → (f e).HasUnits allowed) : (r.map f).HasUnits allowed :=
  h.withSql (hf _ h.sql) (hf _ h.templateOrSql)

theorem collect (h : r.HasUnits allowed) (hs : s.HasUnits allowed) :
    (r.collect s).HasUnits allowed := by
  refine ⟨h.sql, h.template, fun e he => ?_⟩
  have either : e ∈ r.carried ∨ e ∈ s.carried := by
    unfold Fragment.carried at he ⊢
    simp only [Fragment.collect, List.map_append, List.mem_append] at he ⊢
    have values (h : e ∈ (r.overrides.merge s.overrides).values) :
        e ∈ r.overrides.values ∨ e ∈ s.overrides.values := by
      obtain ⟨k, hk⟩ := SortedMap.mem_values.1 h
      exact (OverrideUses.mem_toList_merge hk).imp (fun h => SortedMap.mem_values.2 ⟨k, h⟩)
        fun h => SortedMap.mem_values.2 ⟨k, h⟩
    tauto
  exact either.elim (h.carried e) (hs.carried e)

theorem foldl_collect {ss : List Fragment} (h : r.HasUnits allowed)
    (hss : ∀ s ∈ ss, s.HasUnits allowed) : (ss.foldl Fragment.collect r).HasUnits allowed := by
  induction ss generalizing r with
  | nil => exact h
  | cons s ss ih =>
    obtain ⟨first, rest⟩ := List.forall_mem_cons.1 hss
    exact ih (h.collect first) rest

/-- New SQL with what the counted fragments need. -/
theorem gathered {sql template : Expr} {counted : List Fragment} (hs : sql.HasUnits allowed)
    (ht : template.HasUnits allowed) (h : ∀ r ∈ counted, r.HasUnits allowed) :
    (counted.foldl Fragment.collect { Fragment.ofSql sql with template? := some template }).HasUnits
      allowed :=
  ((ofSql hs).withSql hs ht).foldl_collect h

theorem combine {f : List Expr → Expr} {parts counted : List Fragment}
    (hf : ∀ es, es.length = parts.length → (∀ e ∈ es, e.HasUnits allowed) →
      (f es).HasUnits allowed)
    (hparts : ∀ r ∈ parts, r.HasUnits allowed) (hcounted : ∀ r ∈ counted, r.HasUnits allowed) :
    (Fragment.combine f parts counted).HasUnits allowed := by
  refine gathered (hf _ (List.length_map _) ?_) (hf _ (List.length_map _) ?_) hcounted
  · exact List.forall_mem_map.2 fun r hr => (hparts r hr).sql
  · exact List.forall_mem_map.2 fun r hr => (hparts r hr).templateOrSql

end HasUnits

end Fragment

/-! ## SQL -/

/-- A property that SQL has from its parts where operators, functions and conditions put them
together. -/
structure PassesOn (p : Expr → Prop) : Prop where
  literal : ∀ l, p (.literal l)
  binary : ∀ {l op r}, p l → p r → p (.binary l op r)
  call : ∀ {name args}, (∀ e ∈ args, p e) → p (.func name args)
  like : ∀ {e pattern c negated ignoreCase}, p e → p pattern →
    p (.like e pattern c negated ignoreCase)
  caseWhen : ∀ {branches : List (Expr × Expr)} {otherwise? : Option Expr},
    (∀ b ∈ branches, p b.1 ∧ p b.2) → (∀ e ∈ otherwise?, p e) → p (.caseWhen branches otherwise?)

theorem passesOn_hasUnits : PassesOn (Expr.HasUnits allowed) where
  literal := Expr.hasUnits_literal
  binary hl hr := Expr.hasUnits_binary.2 ⟨hl, hr⟩
  call hargs := Expr.hasUnits_call.2 hargs
  like he hpattern := Expr.hasUnits_like.2 ⟨he, hpattern⟩
  caseWhen := Expr.hasUnits_caseWhen

namespace Condition

theorem mem_of_mem_branches {α : Type} {args : List α} {b : α × α} (h : b ∈ branches args) :
    b.1 ∈ args ∧ b.2 ∈ args := by
  induction args using branches.induct with
  | case1 x y rest ih =>
    rw [branches] at h
    rcases List.mem_cons.1 h with rfl | h
    · simp
    · exact ⟨by simp [(ih h).1], by simp [(ih h).2]⟩
  | case2 args other =>
    rw [branches] at h
    · cases h
    · exact other

end Condition

namespace PassesOn

variable {p : Expr → Prop}

theorem numericSql (hp : PassesOn p) (op : Operator) {l r : Expr} (hl : p l) (hr : p r) :
    p (numericSql op l r) := by
  have zero : p (.int 0) := hp.literal _
  have orZero {e : Expr} (he : p e) : p (.coalesce [e, .int 0]) :=
    hp.call (List.forall_mem_cons.2 ⟨he, List.forall_mem_singleton.2 zero⟩)
  have divisor : p (r.nullif (.int 0)) :=
    hp.call (List.forall_mem_cons.2 ⟨hr, List.forall_mem_singleton.2 zero⟩)
  unfold Formula.numericSql
  split
  · exact hp.binary hl hr
  · exact hp.binary hl divisor
  · exact hp.binary (orZero hl) (orZero hr)
  · exact hp.binary (orZero hl) (orZero hr)

theorem operationSql (hp : PassesOn p) (op : Operator) {es : List Expr} (h : ∀ e ∈ es, p e) :
    p (operationSql op es) := by
  unfold Formula.operationSql
  split
  · rename_i l r
    obtain ⟨left, right⟩ := List.forall_mem_cons.1 h
    have right := List.forall_mem_singleton.1 right
    split
    · exact hp.numericSql op left right
    · exact hp.binary left right
  · exact hp.literal _

theorem containsSql (hp : PassesOn p) (texts : List String) {e : Expr} (h : p e) :
    p (containsSql texts e) := by
  have test (t : String) : p (Expr.like e (.string (Sql.Pattern.containing t)) Sql.Pattern.escapeChar
      false false) := hp.like h (hp.literal _)
  have tests (ts : List String) {c : Expr} (hc : p c) :
      p ((ts.map fun t => Expr.like e (.string (Sql.Pattern.containing t)) Sql.Pattern.escapeChar
        false false).foldl Expr.or c) := by
    induction ts generalizing c with
    | nil => exact hc
    | cons t ts ih => exact ih (hp.binary hc (test t))
  unfold Formula.containsSql
  cases texts with
  | nil => exact hp.literal _
  | cons t ts => exact tests ts (test t)

/-- A condition is made of constants and of the arguments that are there. -/
theorem conditionSql (hp : PassesOn p) (phase : Phase) {form : Fragment → Expr}
    {args : List (Fragment × Bool)} (h : ∀ a ∈ args, a.2 = false → p (form a.1)) :
    p (Node.conditionSql phase form args) := by
  have missing : p (Node.missingOutcome phase) := by
    unfold Node.missingOutcome
    split
    · exact hp.literal _
    · exact hp.literal _
  have outcome {a : Fragment × Bool} (ha : a ∈ args) : p (Node.outcomeSql phase form a) := by
    unfold Node.outcomeSql
    split
    · exact missing
    · rename_i present
      exact h a ha (Bool.eq_false_iff.2 present)
  have inside {a : Fragment × Bool} (ha : a ∈ Condition.paired args) : a ∈ args := by
    unfold Condition.paired at ha
    split at ha
    · exact List.dropLast_subset _ ha
    · exact ha
  refine hp.caseWhen (List.forall_mem_map.2 fun b hb => ?_) ?_
  · obtain ⟨test, value⟩ := Condition.mem_of_mem_branches hb
    refine ⟨?_, outcome (inside value)⟩
    dsimp only
    split
    · exact hp.literal _
    · rename_i present
      exact h b.1 (inside test) (Bool.eq_false_iff.2 present)
  · intro otherwise same
    cases same
    split
    · rename_i r last
      refine outcome ?_
      unfold Condition.otherwise? at last
      split at last
      · exact List.mem_of_getLast? last
      · cases last
    · exact missing

end PassesOn

namespace Node

variable {ctx : Context}

/-! ## Calls -/

variable {phase : Phase} {r s : Fragment} {results : List Fragment}

theorem hasUnits_evaluateCondition {args : List (Fragment × Bool)}
    (h : ∀ a ∈ args, a.1.HasUnits allowed) : (evaluateCondition phase args).HasUnits allowed := by
  refine Fragment.HasUnits.gathered ?_ ?_ ?_
  · exact passesOn_hasUnits.conditionSql phase fun a ha _ => (h a ha).sql
  · exact passesOn_hasUnits.conditionSql phase fun a ha _ => (h a ha).templateOrSql
  · exact List.forall_mem_map.2 fun a ha => h a (List.mem_filter.1 ha).1

theorem hasUnits_evaluateOverride (mapping : String) (keeps : Bool) (h : r.HasUnits allowed) :
    (evaluateOverride mapping keeps r).HasUnits allowed := by
  have column (table : String) :
      (Expr.tableCol table OverrideUses.replacementColumn).HasUnits allowed :=
    Expr.hasUnits_column _ _
  have shown (table : String) : (Expr.caseWhen
      [((Expr.tableCol table OverrideUses.replacementColumn).eq (.string OverrideUses.nullMarker),
        .null)]
      (some (if keeps then
        Expr.coalesce [.tableCol table OverrideUses.replacementColumn, .string "Unknown"]
        else .tableCol table OverrideUses.replacementColumn))).HasUnits allowed := by
    refine Expr.hasUnits_caseWhen (List.forall_mem_singleton.2 ?_) ?_
    · simp [Expr.eq, Expr.string, Expr.null, column]
    · rintro _ ⟨⟩
      split <;> simp [Expr.coalesce, Expr.func, Expr.string, column]
  refine ⟨shown _, fun _ same => Option.some.inj same ▸ shown _, fun e he => ?_⟩
  rcases List.mem_append.1 he with others | own
  · exact h.carried e (List.mem_append_left _ others)
  · exact List.mem_singleton.1 own ▸ h.sql

theorem hasUnits_evaluateCumulative (timeTaxons : NameSet) (hr : r.HasUnits allowed)
    (hs : s.HasUnits allowed) : (evaluateCumulative r s timeTaxons).HasUnits allowed := by
  have total {groups : List Expr} (h : ∀ e ∈ groups, e.HasUnits allowed) :
      (Expr.overWindow r.sql.sum groups [⟨s.sql, none, none⟩] (some .toCurrentRow)).HasUnits
        allowed :=
    Expr.hasUnits_overWindow (by simp [Expr.sum, Expr.func, hr.sql]) h
      (List.forall_mem_singleton.2 hs.sql)
  have gathered := Fragment.HasUnits.gathered (total (List.forall_mem_nil _))
    (total (List.forall_mem_singleton.2 (Expr.hasUnits_placeholder dimensionsPlaceholder)))
    (List.forall_mem_cons.2 ⟨hr, List.forall_mem_singleton.2 hs⟩)
  exact ⟨gathered.sql, gathered.template, gathered.carried⟩

theorem hasUnits_changeFirst {f : Function} {change : Expr → Expr}
    (hchange : ∀ e, e.HasUnits allowed → (change e).HasUnits allowed)
    (each : ∀ r ∈ results, r.HasUnits allowed) (h : changeFirst f change results = .ok r) :
    r.HasUnits allowed := by
  cases results with
  | nil => cases h
  | cons first rest =>
    cases h
    exact (each first (List.mem_cons_self ..)).map hchange

/-- The unit that a call writes is the one it passes. -/
theorem textAt_of_passesUnit {f : Function} {args : List Node} {single : Bool} {place : Location}
    {i : Nat} {g : DialectFunction} (h : (Node.call f args single place).PassesUnit allowed sources)
    (taken : f.unit? = some (i, g)) :
    allowed g (((args[i]?.bind constant?).map Constant.description).getD "") := by
  obtain ⟨s, constant, inside⟩ := h (i, g) taken
  rw [constant]
  exact inside

/-- The SQL of a call has the unit that it passes, and those of its arguments. -/
theorem hasUnits_evaluateCall {f : Function} {args : List Node} {single : Bool} {place : Location}
    (fixed : ∀ f u, Function.truncation? f = some u → allowed .dateTrunc u)
    (own : (Node.call f args single place).PassesUnit allowed sources)
    (each : ∀ r ∈ results, r.HasUnits allowed) (h : evaluateCall ctx f phase args results = .ok r) :
    r.HasUnits allowed := by
  have all {parts : List Fragment} {form : Fragment → Expr}
      (hparts : ∀ r ∈ parts, r.HasUnits allowed)
      (hform : ∀ r, r.HasUnits allowed → (form r).HasUnits allowed) :
      ∀ e ∈ parts.map form, e.HasUnits allowed :=
    List.forall_mem_map.2 fun r hr => hform r (hparts r hr)
  have fixed := fixed f
  unfold evaluateCall at h
  cases f with
  | iff | ifs =>
    cases h
    exact hasUnits_evaluateCondition fun a ha => each a.1 (List.of_mem_zip ha).1
  | coalesce | concat =>
    cases h
    exact .combine (fun es _ hes => Expr.hasUnits_call.2 hes) each each
  | parse =>
    cases h
    exact .combine (fun es _ hes => Expr.hasUnits_splitPart.2 hes) each each
  | merge =>
    cases h
    refine .combine (fun es _ hes => ?_) each each
    split
    · exact List.forall_mem_singleton.1 hes
    · exact Expr.hasUnits_call.2 hes
  | convertTimezone =>
    cases results with
    | nil => cases h
    | cons first rest =>
      cases h
      exact (each first (List.mem_cons_self ..)).withSql
        (Expr.hasUnits_convertTimezone.2 (all each fun _ h => h.sql))
        (Expr.hasUnits_convertTimezone.2 (all each fun _ h => h.templateOrSql))
  | toDate =>
    have shown : ∀ r ∈ results.take 2, r.HasUnits allowed :=
      fun r hr => each r (List.mem_of_mem_take hr)
    cases results with
    | nil => cases h
    | cons first rest =>
      cases h
      exact (each first (List.mem_cons_self ..)).withSql
        (Expr.hasUnits_toDate.2 (all shown fun _ h => h.sql))
        (Expr.hasUnits_toDate.2 (all shown fun _ h => h.templateOrSql))
  | contains => exact hasUnits_changeFirst (fun e he => passesOn_hasUnits.containsSql _ he) each h
  | dateTrunc =>
    exact hasUnits_changeFirst
      (fun e he => Expr.hasUnits_dateTrunc (textAt_of_passesUnit own rfl) he) each h
  | toText | toNumber => exact hasUnits_changeFirst (fun e he => Expr.hasUnits_cast.2 he) each h
  | toBool =>
    cases results with
    | nil => cases h
    | cons first rest =>
      have value := each first (List.mem_cons_self ..)
      cases h
      split
      · exact value
      · exact value.map fun e he => Expr.hasUnits_cast.2 he
  | dateDiff =>
    cases h
    split
    · rename_i _ start stop _
      have both : ∀ r ∈ [start, stop], r.HasUnits allowed :=
      List.forall_mem_cons.2 ⟨each start (by simp), List.forall_mem_singleton.2 (each stop (by simp))⟩
      refine .combine (fun es two hes => ?_) both both
      obtain ⟨a, b, rfl⟩ := List.length_eq_two.1 two
      obtain ⟨first, last⟩ := List.forall_mem_cons.1 hes
      exact Expr.hasUnits_timestampDiff (textAt_of_passesUnit own rfl) first
        (List.forall_mem_singleton.1 last)
    · exact .ofSql (Expr.hasUnits_literal _)
  | override =>
    cases results with
    | nil => cases h
    | cons first rest =>
      cases h
      exact hasUnits_evaluateOverride _ _ (each first (List.mem_cons_self ..))
  | cumulative =>
    cases h
    split
    · rename_i metric time _ _ _ _
      exact hasUnits_evaluateCumulative _ (each metric (by simp)) (each time (by simp))
    · exact .ofSql (Expr.hasUnits_literal _)
  | overall =>
    cases results with
    | nil => cases h
    | cons first rest =>
      have value := List.forall_mem_singleton.2 (each first (List.mem_cons_self ..))
      cases h
      refine .combine (fun es _ hes => ?_) value value
      exact Expr.hasUnits_overWindow (Expr.hasUnits_call.2 hes) (List.forall_mem_nil _)
        (List.forall_mem_nil _)
  | now =>
    cases h
    have now : (Expr.func "now" []).HasUnits allowed :=
      Expr.hasUnits_call.2 (List.forall_mem_nil _)
    exact (Fragment.HasUnits.ofSql now).withSql now now
  | dateHour | date | dateWeek | dateMonth =>
    exact hasUnits_changeFirst (fun e he => Expr.hasUnits_dateTrunc (fixed _ rfl) he) each h
  | hourOfDay | dayOfWeek | weekOfYear | monthOfYear | year =>
    exact hasUnits_changeFirst (fun e he => Expr.hasUnits_extract.2 he) each h
  | _ =>
    exact hasUnits_changeFirst
      (fun e he => Expr.hasUnits_call.2 (List.forall_mem_singleton.2 he)) each h

/-! ## Nodes -/

variable {n : Node} {count count' : Nat}

theorem hasUnits_addFormula {t : Target} {aggregation : Aggregation} {label : String} {sql : Expr}
    (hsql : sql.HasUnits allowed) (hr : r.HasUnits allowed)
    (h : addFormula t n aggregation label sql r = .ok s) : s.HasUnits allowed := by
  have added (same : s.sql = r.sql) (same' : s.template? = r.template?)
      (more : ∀ e ∈ s.carried, e = sql ∨ e ∈ r.carried) : s.HasUnits allowed :=
    ⟨same ▸ hr.sql, same' ▸ hr.template, fun e he => (more e he).elim (· ▸ hsql) (hr.carried e)⟩
  cases t with
  | dimension =>
    obtain ⟨source, _, h⟩ := Result.bind_eq_ok.1 h
    cases h
    refine added rfl rfl fun e he => ?_
    simp only [Fragment.carried, List.map_cons, List.mem_append, List.mem_cons] at he ⊢
    tauto
  | aggregation | postAggregation =>
    cases h
    refine added rfl rfl fun e he => ?_
    simp only [Fragment.carried, List.map_cons, List.mem_append, List.mem_cons] at he ⊢
    tauto

theorem hasUnits_evaluateTransition {t : Target} {aggregation : Aggregation}
    {label? : Option String} (hr : r.HasUnits allowed)
    (h : (evaluateTransition ctx t n aggregation label? r).run count = .ok (s, count')) :
    s.HasUnits allowed := by
  have carried : (if n.isMissing ctx then Fragment.ofSql r.sql else r).HasUnits allowed := by
    split
    · exact .ofSql hr.sql
    · exact hr
  unfold evaluateTransition at h
  dsimp only at h
  split at h
  · cases h
    exact hr
  split at h
  · cases h
  split at h
  · cases h
    exact ⟨carried.sql, carried.template, carried.carried⟩
  have moved {label : String} {u : Nat}
      (h : (addFormula t n aggregation label r.sql
        { (if n.isMissing ctx then Fragment.ofSql r.sql else r) with
          sql := .col (Identifier.safe label)
          template? := if n.isMissing ctx then none else some (.col (Identifier.safe label))
          label? := some label } : Evaluation Fragment).run u = .ok (s, count')) :
      s.HasUnits allowed := by
    obtain ⟨_, added, h⟩ := Result.bind_eq_ok.1 h
    cases h
    have start : { (if n.isMissing ctx then Fragment.ofSql r.sql else r) with
        sql := .col (Identifier.safe label)
        template? := if n.isMissing ctx then none else some (.col (Identifier.safe label))
        label? := some label }.HasUnits allowed := by
      refine ⟨Expr.hasUnits_column _ _, fun e he => ?_, carried.carried⟩
      dsimp only at he
      split at he <;> cases he
      exact Expr.hasUnits_column _ _
    exact hasUnits_addFormula hr.sql start added
  cases label? with
  | some label => exact moved h
  | none => exact moved h

theorem hasUnits_evaluateEach {ns : List Node} {rs : List Fragment}
    (each : ∀ n ∈ ns, ∀ {count count' : Nat} {r : Fragment},
      (n.evaluate ctx).run count = .ok (r, count') → r.HasUnits allowed)
    (h : (evaluateEach ctx ns).run count = .ok (rs, count')) : ∀ r ∈ rs, r.HasUnits allowed := by
  induction ns generalizing count rs with
  | nil =>
    rw [evaluateEach] at h
    cases h
    exact List.forall_mem_nil _
  | cons n ns ih =>
    rw [evaluateEach] at h
    obtain ⟨r, t, hr, h⟩ := Result.run_bind_eq_ok.1 h
    obtain ⟨rs', t', hrs, h⟩ := Result.run_bind_eq_ok.1 h
    cases h
    exact List.forall_mem_cons.2 ⟨each n (List.mem_cons_self ..) hr,
      ih (fun m hm => each m (List.mem_cons_of_mem _ hm)) hrs⟩

/-- The SQL of a node has the units that it passes, and those of its attributes. -/
theorem hasUnits_evaluate (fixed : ∀ f u, Function.truncation? f = some u → allowed .dateTrunc u)
    (hn : n.PassesUnits allowed (Expr.HasUnits allowed))
    (h : (n.evaluate ctx).run count = .ok (r, count')) : r.HasUnits allowed := by
  have changed {n : Node} {f : Expr → Expr}
      (hf : ∀ e : Expr, e.HasUnits allowed → (f e).HasUnits allowed)
      {count count' : Nat} {r : Fragment}
      (ih : ∀ {count count' : Nat} {r : Fragment}, (n.evaluate ctx).run count = .ok (r, count') →
        r.HasUnits allowed)
      (h : (do return (← n.evaluate ctx).map f : Evaluation Fragment).run count = .ok (r, count')) :
      r.HasUnits allowed := by
    obtain ⟨a, t, ha, h⟩ := Result.run_bind_eq_ok.1 h
    cases h
    exact (ih ha).map hf
  have inside {n : Node} (hn : n.PassesUnits allowed (Expr.HasUnits allowed)) :
      ∀ c ∈ n.children, c.PassesUnits allowed (Expr.HasUnits allowed) := (all_iff.1 hn).2
  induction n generalizing count count' r with
  | integer | decimal | text | bool =>
    rw [evaluate] at h
    cases h
    exact .ofSql (Expr.hasUnits_literal _)
  | column =>
    rw [evaluate] at h
    cases h
    refine .ofSql ?_
    split <;> exact Expr.hasUnits_column _ _
  | taxon u _ =>
    rw [evaluate] at h
    cases h
    refine .ofSql ?_
    unfold useSql
    dsimp only
    split
    · exact Expr.hasUnits_column _ _
    · exact Expr.hasUnits_placeholder _
  | modelAttribute =>
    rw [evaluate] at h
    cases h
    exact .ofSql (all_iff.1 hn).1
  | paren n _ ih =>
    rw [evaluate] at h
    exact changed (fun _ => Expr.hasUnits_paren.2) (ih (List.forall_mem_singleton.1 (inside hn))) h
  | not n _ ih =>
    rw [evaluate] at h
    exact changed (fun _ => Expr.hasUnits_unary.2) (ih (List.forall_mem_singleton.1 (inside hn))) h
  | isNull n _ _ ih =>
    rw [evaluate] at h
    exact changed (fun _ => Expr.hasUnits_isNull.2) (ih (List.forall_mem_singleton.1 (inside hn))) h
  | computed u n _ ih =>
    rw [evaluate] at h
    exact ih (List.forall_mem_singleton.1 (inside hn)) h
  | binary op l r _ hl hr =>
    rw [evaluate] at h
    obtain ⟨left, t, hleft, h⟩ := Result.run_bind_eq_ok.1 h
    obtain ⟨right, u, hright, h⟩ := Result.run_bind_eq_ok.1 h
    cases h
    obtain ⟨_, onLeft, onRight⟩ := all_binary.1 hn
    have first := hl onLeft hleft
    have second := hr onRight hright
    refine .combine (fun es _ => passesOn_hasUnits.operationSql op) (by simp [first, second]) ?_
    intro r hr
    rcases List.mem_append.1 hr with hr | hr <;> split at hr <;> cases hr <;> trivial
  | call f args single _ ih =>
    rw [evaluate] at h
    obtain ⟨results, t, hresults, h⟩ := Result.run_bind_eq_ok.1 h
    obtain ⟨_, ha, h⟩ := Result.bind_eq_ok.1 h
    cases h
    exact hasUnits_evaluateCall fixed (all_iff.1 hn).1
      (hasUnits_evaluateEach (fun n hn' => ih n hn' (inside hn n hn')) hresults) ha
  | transition t n a label? _ ih =>
    rw [evaluate] at h
    obtain ⟨r, u, hr, h⟩ := Result.run_bind_eq_ok.1 h
    exact hasUnits_evaluateTransition (ih (List.forall_mem_singleton.1 (inside hn)) hr) h
  | root n _ ih =>
    rw [evaluate] at h
    split at h
    · cases h
      exact .ofSql (Expr.hasUnits_literal _)
    · exact ih (List.forall_mem_singleton.1 (inside hn)) h

end Node

/-! ## Outcomes -/

namespace Outcome

/-- All SQL of an outcome. -/
def exprs (o : Outcome) : List Expr :=
  o.post.sql :: o.post.template?.toList ++
    (o.preFormulas.map (·.formula) ++ o.dimensionFormulas.map (·.formula) ++
      o.sourceTemplates.map (·.template) ++ o.overrides.values)

theorem mem_exprs_of_template {o : Outcome} {e : Expr} (h : e ∈ o.post.template?) : e ∈ o.exprs :=
  List.mem_cons_of_mem _ (List.mem_append_left _ (Option.mem_toList.2 h))

/-- Whether all time units that an outcome shows without quotes are words. -/
def ShowsWords (d : Sql.Dialect) (o : Outcome) : Prop := ∀ e ∈ o.exprs, e.ShowsWords d

end Outcome

theorem hasUnits_outcome {ctx : Context} {n : Node} {o : Outcome}
    (fixed : ∀ f u, Function.truncation? f = some u → allowed .dateTrunc u)
    (hn : n.PassesUnits allowed (Expr.HasUnits allowed)) (h : n.outcome ctx = .ok o) :
    ∀ e ∈ o.exprs, e.HasUnits allowed := by
  obtain ⟨⟨r, _⟩, hr, h⟩ := Result.bind_eq_ok.1 h
  have inside := Node.hasUnits_evaluate fixed hn hr
  cases h
  refine List.forall_mem_cons.2 ⟨?_, List.forall_mem_append.2 ⟨?_, inside.carried⟩⟩
  · dsimp only
    split
    · exact Expr.hasUnits_column _ _
    · exact inside.sql
  · exact fun e he => inside.template e (Option.mem_toList.1 he)

end Formula

end SemanticLayer
