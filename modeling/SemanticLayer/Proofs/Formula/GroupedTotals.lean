import SemanticLayer.Proofs.Formula.EvaluatedWindows
import SemanticLayer.Proofs.Formula.ShownUnits

/-!
# Running totals within groups

A formula is rendered over the groups of a request.  A running total goes over its time within each of
the groups that the formula does not exclude.

* `isOpen_of_faults`: a formula without faults writes nothing into its SQL that is not looked into;
* `totalTimes_stripped`, `countsTotals_stripped`: running totals without their transitions;
* `hasTotals_outcome`: the windows of an outcome;
* `SkipsTime`: a window over a time that is not among its groups, but for taxons of the time whose
  columns are not named by their slugs;
* `hasWindows_fill`: the windows of a formula, over any groups.
-/

namespace SemanticLayer.Formula

open Sql (Expr Ordered)

variable {ctx : Context}

namespace Node

/-! ## Formulas without faults -/

theorem isOpen_of_faults {n : Node} (valid : n.faults ctx = [])
    (attributes : n.All fun m => ∀ e ∈ m.attributeSql?, False) : n.All IsOpen := by
  intro m hm
  have own := all_check_eq_nil valid m hm
  cases m with
  | «attribute» _ sql => exact (attributes _ hm sql rfl).elim
  | call f args single place =>
    obtain ⟨rules, _, passed, inside⟩ := checkOwn_call_eq_nil own
    intro n hn
    cases f with
    | convertTimezone =>
      obtain ⟨s, hs⟩ := Function.exists_text_of_checkTimezones rules (Argument.of ctx n)
        (by rw [← List.map_drop]; exact List.mem_map_of_mem hn)
      exact ⟨s, hs⟩
    | toDate =>
      cases args with
      | nil => cases hn
      | cons value rest =>
        cases rest with
        | nil => cases hn
        | cons format rest =>
          cases List.mem_singleton.1 hn
          have typed := Parameter.checkTyped_of_checkAll (i := 1)
            (Function.checkAll_of_checkParameters passed) rfl rfl rfl
          obtain ⟨constant, string⟩ := Parameter.checkTyped_eq_nil rfl typed
          exact exists_text_of_type (inside n (by simp)) constant string
    | _ => cases hn
  | _ => trivial

theorem map_texts {α β : Type} (f : Function) (g : α → β) (args : List α) :
    f.texts (args.map g) = (f.texts args).map g := by
  cases f <;> simp [Function.texts, List.map_take]

theorem looksAtTexts_isOpen : LooksAtTexts IsOpen where
  constant c place := by cases c <;> trivial
  binary _ _ _ _ := trivial
  call := by
    intro f ns single place made n hn
    cases f <;> first | cases hn | exact absurd made (by decide)
  withChildren := by
    intro n ms hn each
    cases n with
    | «attribute» => exact hn.elim
    | integer | decimal | text | bool | column | taxon => trivial
    | paren | computed | not | isNull | transition | root =>
      obtain ⟨m, rfl⟩ := List.length_eq_one_iff.1 each.length_eq.symm
      trivial
    | binary =>
      obtain ⟨l, r, rfl⟩ := List.length_eq_two.1 each.length_eq.symm
      trivial
    | call f args =>
      have texts : List.Forall₂ KeepsText (f.texts args) (f.texts ms) := by
        cases f with
        | convertTimezone => exact List.forall₂_drop 1 each
        | toDate => exact List.forall₂_take 1 (List.forall₂_drop 1 each)
        | _ => exact .nil
      exact forall_mem_of_forall₂ texts (fun _ _ keeps ⟨s, hs⟩ => ⟨s, keeps s hs⟩) hn

theorem all_isOpen_stripped (n : Node) : n.stripped.All IsOpen ↔ n.All IsOpen := by
  refine all_stripped (fun _ _ _ _ _ => trivial) (fun n kind => ?_) n
  cases n with
  | transition => cases kind
  | call f args single place =>
    rw [stripped, strippedEach_eq, IsOpen, IsOpen, map_texts, List.forall_mem_map]
    simp only [constant?_stripped]
  | _ => exact Iff.rfl

/-! ## Plans -/

theorem totalTime?_stripped {n : Node} (h : n.isTransition = false) :
    n.stripped.totalTime? = n.totalTime?.map stripped := by
  cases n with
  | transition => cases h
  | call f args single place =>
    rw [stripped, strippedEach_eq]
    cases f with
    | cumulative =>
      cases args with
      | nil => rfl
      | cons metric args => cases args <;> rfl
    | _ => rfl
  | _ => rfl

theorem totalTimes_stripped (n : Node) : n.stripped.totalTimes = n.totalTimes.map stripped := by
  induction n using children_induction with
  | h n ih =>
    cases kind : n.isTransition with
    | false =>
      rw [totalTimes_eq, totalTimes_eq n, totalTime?_stripped kind, children_stripped kind,
        List.map_append, List.flatMap_map, List.map_flatMap, Option.toList_map]
      exact congrArg _ (List.flatMap_congr ih)
    | true =>
      cases n with
      | transition t n =>
        rw [totalTimes_eq (.transition ..), stripped, ih n (List.mem_singleton_self n)]
        simp [totalTime?, children]
      | _ => cases kind

theorem countsTotals_stripped (n : Node) :
    n.stripped.All (CountsTotals ctx) ↔ n.All (CountsTotals ctx) := by
  refine all_stripped (fun _ _ _ _ _ => trivial) (fun n kind => ?_) n
  cases n with
  | transition => cases kind
  | binary op l r place =>
    rw [stripped, CountsTotals, CountsTotals]
    simp [isMissing_stripped, totalTimes_stripped]
  | _ => exact Iff.rfl

/-! ## Outcomes -/

theorem hasTotals_outcome {n : Node} {o : Outcome} (counts : n.All (CountsTotals ctx))
    (opened : n.All IsOpen) (h : n.outcome ctx = .ok o) :
    Ungrouped o.post.sql ∧ ∀ t ∈ o.post.template?,
      t.HasWindows (IsTotalWindow ctx n.totalTimes o.post.excluded) := by
  obtain ⟨⟨r, _⟩, hr, h⟩ := Result.bind_eq_ok.1 h
  have totals := hasTotals_evaluate counts opened ⟨_, _, hr⟩
  cases h
  refine ⟨?_, fun t ht => ?_⟩
  · dsimp only
    split
    · exact Expr.hasWindows_column _ _
    · exact totals.sql
  · have same : r.templateOrSql = t := congrArg (Option.getD · r.sql) ht
    exact same ▸ totals.template

end Node

/-! ## Groups -/

namespace PostFormula

/-- The columns that the windows of a formula are partitioned by. -/
def partition (p : PostFormula) (groups : NameSet) : List Expr :=
  (groups.diff p.excluded).toList.map .col

/-- What stands for the placeholder of groups. -/
def filling (p : PostFormula) (groups : NameSet) (name : String) : Option Expr :=
  if name = dimensionsPlaceholder then some (.list (p.partition groups)) else none

theorem fill_eq (p : PostFormula) (groups : NameSet) :
    p.fill groups =
      match p.template? with
      | some t => if (p.partition groups).isEmpty then p.sql else t.substitute (p.filling groups)
      | none => p.sql := rfl

theorem col_mem_partition {p : PostFormula} {groups : NameSet} {name : String} :
    Expr.col name ∈ p.partition groups ↔ name ∈ groups ∧ name ∉ p.excluded := by
  rw [← SortedSet.mem_diff, SortedSet.mem_def]
  exact List.mem_map_of_injective fun a b same => (Expr.column.inj same).2

theorem exists_list_of_filling {p : PostFormula} {groups : NameSet} {name : String} {x : Expr}
    (h : p.filling groups name = some x) : ∃ es, x = .list es := by
  unfold filling at h
  split at h
  · exact ⟨_, (Option.some.inj h).symm⟩
  · cases h

theorem hasWindows_filling {p : PostFormula} {groups : NameSet}
    {allowed : List Expr → List (Ordered Expr) → Prop} {name : String} {x : Expr}
    (h : p.filling groups name = some x) : x.HasWindows allowed := by
  unfold filling at h
  split at h
  · rw [← Option.some.inj h, Expr.hasWindows_iff rfl, Expr.parts, partition, List.forall_mem_map]
    exact fun _ _ => Expr.hasWindows_column _ _
  · cases h

end PostFormula

/-- Whether a window is over a time and not partitioned by it.  Its ordering is no column among its
groups.  Nor is the column of a taxon that the time uses, if it is named by the slug of the taxon, or is
excluded by chance. -/
structure SkipsTime (ctx : Context) (p : PostFormula) (groups : NameSet) (time : Node)
    (ps : List Expr) (os : List (Ordered Expr)) : Prop where
  value : ∃ (planned : Node) (r : Fragment), planned.stripped = time.stripped ∧
    planned.IsEvaluated ctx r ∧ os = [⟨r.sql.substitute (p.filling groups), none, none⟩]
  order : ∀ o ∈ os, o.key ∉ Expr.listed ps
  columns : ∀ s ∈ (time.used ctx).all, Identifier.safe s ∈ groups →
    (Expr.col (Identifier.safe s) ∉ Expr.listed ps ↔
      Identifier.safe s = s ∨ Identifier.safe s ∈ p.excluded)

/-- The groups of a window whose template excludes its time. -/
theorem skipsTime_of_orders {p : PostFormula} {groups : NameSet} {time planned : Node}
    {os : List (Ordered Expr)} (same : planned.stripped = time.stripped)
    (h : OrdersBy ctx p.excluded planned os) :
    SkipsTime ctx p groups time [.list (p.partition groups)]
      (os.map fun o => { o with key := o.key.substitute (p.filling groups) }) := by
  obtain ⟨⟨r, evaluated, rfl, column⟩, used⟩ := h
  have all : (time.used ctx).all = (planned.used ctx).all := by
    rw [← Node.used_stripped time, ← same, Node.used_stripped]
  have listed : Expr.listed [.list (p.partition groups)] = p.partition groups :=
    List.flatMap_singleton ..
  refine ⟨⟨planned, r, same, evaluated, rfl⟩, ?_, ?_⟩
  · rw [listed]
    refine List.forall_mem_singleton.2 fun mem => ?_
    obtain ⟨name, _, is⟩ := List.mem_map.1 mem
    have sql : r.sql = .column none name :=
      Expr.eq_column_of_substitute (fun _ _ => PostFormula.exists_list_of_filling) is.symm
    rw [sql, Node.columnOrText] at column
    rw [← is] at mem
    exact (PostFormula.col_mem_partition.1 mem).2 column
  · rw [listed, all]
    intro s hs grouped
    have kept : Expr.col (Identifier.safe s) ∉ p.partition groups ↔
        Identifier.safe s ∈ p.excluded := by
      rw [PostFormula.col_mem_partition, not_and_not_right, imp_iff_right grouped]
    rw [kept]
    refine ⟨.inr, fun either => either.elim (fun plain => ?_) id⟩
    rw [plain]
    exact used s hs

/-- Over any groups, each window of a formula is without groups or goes over the time of a running total
and is not partitioned by it. -/
theorem hasWindows_fill {formula : String} {n : Node} {o : Outcome}
    (hn : Node.rootOfFormula ctx none formula = .ok n) (ho : renderTaxon ctx formula = .ok o)
    (counts : (n.simplify ctx).All (Node.CountsTotals ctx)) (groups : NameSet) :
    (o.post.fill groups).HasWindows fun ps os => ps = [] ∨
      ∃ time ∈ (n.simplify ctx).totalTimes, SkipsTime ctx o.post groups time ps os := by
  obtain ⟨_, same, h⟩ := Result.bind_eq_ok.1 ho
  cases hn.symm.trans same
  split at h
  · rename_i valid
    have attributes : n.All fun m => ∀ e ∈ m.attributeSql?, False :=
      all_attributeSql_of_root (fun _ hm => absurd hm (Option.not_mem_none _)) hn
    have opened : (n.simplify ctx).All Node.IsOpen :=
      ((Node.looksAtTexts_isOpen.invariant ctx).simplify (Node.isOpen_of_faults valid attributes)).1
    have planned : ((n.simplify ctx).plan ctx .none).stripped = (n.simplify ctx).stripped :=
      Node.stripped_plan _ _
    rw [← Node.countsTotals_stripped, ← planned, Node.countsTotals_stripped] at counts
    rw [← Node.all_isOpen_stripped, ← planned, Node.all_isOpen_stripped] at opened
    obtain ⟨ungrouped, template⟩ := Node.hasTotals_outcome counts opened h
    have plain : o.post.sql.HasWindows fun ps os => ps = [] ∨
        ∃ time ∈ (n.simplify ctx).totalTimes, SkipsTime ctx o.post groups time ps os :=
      ungrouped.imp fun _ _ => .inl
    rw [PostFormula.fill_eq]
    split
    · rename_i t ht
      split
      · exact plain
      · refine Expr.HasWindows.substitute (fun _ _ => PostFormula.hasWindows_filling)
          ((template t ht).imp fun ps os window => ?_)
        rcases window with rfl | ⟨rfl, time, htime, orders⟩
        · exact .inl rfl
        · have mem : time.stripped ∈ (n.simplify ctx).totalTimes.map Node.stripped := by
            rw [← Node.totalTimes_stripped, ← planned, Node.totalTimes_stripped]
            exact List.mem_map_of_mem htime
          obtain ⟨simplified, hsimplified, same⟩ := List.mem_map.1 mem
          exact .inr ⟨simplified, hsimplified, skipsTime_of_orders same.symm orders⟩
    · exact plain
  · cases h

/-! ### Days of two sources -/

/-- A metric and a day of the whole company, and a metric and a date of one data source. -/
def sourced : Context :=
  let raw (slug : String) (dataSource? : Option String) (type : TaxonType) : Taxon :=
    ⟨slug, slug, dataSource?, type, .raw (if type = .metric then .sum else .groupBy),
      if type = .metric then .numeric else .datetime, "shop", none, none, none⟩
  Context.ofTaxons (Taxon.mapOf [raw "spend" none .metric, raw "day" none .dimension,
    raw "fb|spend" (some "fb") .metric, raw "fb|date" (some "fb") .dimension])

theorem hasWindows_fill_day :
    ∃ n o, Node.rootOfFormula sourced none "cumulative(spend, day)" = .ok n ∧
      renderTaxon sourced "cumulative(spend, day)" = .ok o ∧
      (o.post.fill (.ofList ["campaign", "day"])).HasWindows fun ps os => ps = [] ∨
        ∃ time ∈ (n.simplify sourced).totalTimes,
          SkipsTime sourced o.post (.ofList ["campaign", "day"]) time ps os := by
  obtain ⟨n, hn, counts⟩ : ∃ n, Node.rootOfFormula sourced none "cumulative(spend, day)" = .ok n ∧ _ :=
    Result.ok_of_any (f := fun n => (n.simplify sourced).All (Node.CountsTotals sourced))
      (by decide +kernel)
  obtain ⟨o, ho, _⟩ : ∃ o, renderTaxon sourced "cumulative(spend, day)" = .ok o ∧ _ :=
    Result.ok_of_any (f := fun _ => true) (by decide +kernel)
  exact ⟨n, o, hn, ho, hasWindows_fill hn ho (of_decide_eq_true counts) _⟩

/-- A window over groups has all of them that are not excluded. -/
theorem PostFormula.not_hasWindows_fill {p : PostFormula} {groups : NameSet} {name : String}
    {f : Expr} {os : List (Ordered Expr)} {frame? : Option Sql.Frame}
    (template : p.template? = some (.window f [.placeholder dimensionsPlaceholder] os frame?))
    (grouped : name ∈ groups) (kept : name ∉ p.excluded) :
    ¬(p.fill groups).HasWindows fun ps _ => Expr.col name ∉ Expr.listed ps := by
  have mem : Expr.col name ∈ p.partition groups := col_mem_partition.2 ⟨grouped, kept⟩
  rw [fill_eq, template]
  dsimp only
  rw [if_neg (by rw [List.isEmpty_iff]; exact List.ne_nil_of_mem mem)]
  intro windows
  rw [Expr.substitute, Expr.substituteAll_eq] at windows
  refine (Expr.everywhere_iff.1 windows).1 ?_
  rw [List.map_singleton, Expr.substitute, filling, if_pos rfl, Option.getD_some, Expr.listed,
    List.flatMap_singleton]
  exact mem

/-- Whether a running total is over a time that names a slug. -/
def Node.totalsOver (ctx : Context) (slug : String) : Node → Bool
  | .root (.call .cumulative [_, time] _ _) _ => (time.used ctx).all.contains slug
  | _ => false

/-- Whether the template is parted by dimensions that a column is not excluded from. -/
def PostFormula.partsBy (p : PostFormula) (name : String) : Bool :=
  match p.template? with
  | some (.window _ [.placeholder placeholder] _ _) =>
    placeholder = dimensionsPlaceholder && !p.excluded.contains name
  | _ => false

/-- The date of a data source is excluded by its slug, which its column is not named by: the total
over it starts anew on each date. -/
theorem not_skipsTime_date : ∃ metric time single place place' o,
    Node.rootOfFormula sourced none "cumulative(fb|spend, fb|date)" =
        .ok (.root (.call .cumulative [metric, time] single place) place') ∧
      renderTaxon sourced "cumulative(fb|spend, fb|date)" = .ok o ∧
      "fb|date" ∈ (time.used sourced).all ∧
      ¬(o.post.fill (.singleton (Identifier.safe "fb|date"))).HasWindows fun ps _ =>
        Expr.col (Identifier.safe "fb|date") ∉ Expr.listed ps := by
  obtain ⟨n, hn, used⟩ :
      ∃ n, Node.rootOfFormula sourced none "cumulative(fb|spend, fb|date)" = .ok n ∧ _ :=
    Result.ok_of_any (f := fun n => n.totalsOver sourced "fb|date") (by decide +kernel)
  obtain ⟨o, ho, found⟩ :
      ∃ o, renderTaxon sourced "cumulative(fb|spend, fb|date)" = .ok o ∧ _ :=
    Result.ok_of_any (f := fun o => o.post.partsBy (Identifier.safe "fb|date")) (by decide +kernel)
  unfold Node.totalsOver at used
  unfold PostFormula.partsBy at found
  split at used
  · rename_i metric time single place place'
    split at found
    · rename_i f p os frame? template
      obtain ⟨same, kept⟩ := Bool.and_eq_true_iff.1 found
      cases of_decide_eq_true same
      refine ⟨metric, time, single, place, place', o, hn, ho, SortedSet.contains_iff.1 used, ?_⟩
      refine PostFormula.not_hasWindows_fill template
        (SortedSet.mem_insert.2 (.inl rfl)) fun mem => ?_
      rw [SortedSet.contains_iff.2 mem] at kept
      cases kept
    · cases found
  · cases used

end SemanticLayer.Formula
