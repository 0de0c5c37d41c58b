import SemanticLayer.Blend.ComparedRows

/-!
# Rows matched on columns

What the condition says on which data and comparison are joined, row by row.

* `Sql.Expr.truth?`: whether a condition holds, in the logic where null makes it unknown;
* `Dataframe.matches_iff`: rows are joined exactly if they agree, null with null;
* `Dataframe.withComparison_matchesOnce_iff`: each row of the data is joined to one row at most of a
  comparison exactly if the columns that the comparison is grouped by are among those matched on.
-/

namespace SemanticLayer

open Sql (Expr)

/-! ## Conditions on rows -/

namespace Sql

/-- A row: the text of the value in each column, none for null. -/
abbrev Row := String → Option String

/-- Both, where unknown stands for either. -/
def and? : Option Bool → Option Bool → Option Bool
  | some true, b => b
  | some false, _ => some false
  | none, some false => some false
  | none, _ => none

/-- One of two, where unknown stands for either. -/
def or? : Option Bool → Option Bool → Option Bool
  | some false, b => b
  | some true, _ => some true
  | none, some true => some true
  | none, _ => none

theorem and?_eq_true : {a b : Option Bool} → and? a b = some true ↔ a = some true ∧ b = some true
  | some true, b => (and_iff_right rfl).symm
  | some false, b => by simp [and?]
  | none, some false => by simp [and?]
  | none, some true => by simp [and?]
  | none, none => by simp [and?]

theorem or?_eq_true : {a b : Option Bool} → or? a b = some true ↔ a = some true ∨ b = some true
  | some false, b => by simp [or?]
  | some true, b => by simp [or?]
  | none, some true => by simp [or?]
  | none, some false => by simp [or?]
  | none, none => by simp [or?]

namespace Expr

/-- The value of a column in rows that stand under the names of their tables. -/
def value? (rows : Option String → Row) : Expr → Option String
  | .column table? name => rows table? name
  | _ => none

/-- Whether a condition holds; it is unknown if it compares null. -/
def truth? (rows : Option String → Row) : Expr → Option Bool
  | .literal (.bool b) => some b
  | .binary l .eq r => do return (← l.value? rows) == (← r.value? rows)
  | .binary l .and r => and? (l.truth? rows) (r.truth? rows)
  | .binary l .or r => or? (l.truth? rows) (r.truth? rows)
  | .isNull e negated => some ((e.value? rows).isNone != negated)
  | _ => none

end Expr

end Sql

namespace Dataframe

open Sql (Row)

/-- A row of the data beside one of the comparison. -/
def beside (data comparison : Row) : Option String → Row := fun table? name =>
  if table? = some dataAlias then data name
  else if table? = some comparisonAlias then comparison name
  else none

/-- Whether a row of the data is joined to one of the comparison under a condition. -/
def Matches (condition : Expr) (data comparison : Row) : Prop :=
  condition.truth? (beside data comparison) = some true

/-- Null agrees with null only. -/
theorem truth?_sameColumn {data comparison : Row} {name : String} :
    (sameColumn dataAlias comparisonAlias name).truth? (beside data comparison) = some true ↔
      data name = comparison name := by
  have left : beside data comparison (some dataAlias) name = data name := rfl
  have right : beside data comparison (some comparisonAlias) name = comparison name := rfl
  unfold sameColumn
  simp only [Expr.truth?, Expr.eq, Expr.and, Expr.or, Expr.tableCol, Expr.value?, left, right,
    Sql.or?_eq_true, Sql.and?_eq_true]
  cases data name with
  | none => cases comparison name <;> simp
  | some a => cases comparison name <;> simp

theorem truth?_foldl_and {rows : Option String → Row} {c : Expr} {cs : List Expr} :
    (cs.foldl .and c).truth? rows = some true ↔ ∀ d ∈ c :: cs, d.truth? rows = some true := by
  induction cs generalizing c with
  | nil => rw [List.foldl_nil, List.forall_mem_singleton]
  | cons d cs ih =>
    rw [List.foldl_cons, ih, List.forall_mem_cons, List.forall_mem_cons, List.forall_mem_cons,
      ← and_assoc]
    exact and_congr_left' Sql.and?_eq_true

/-- Rows are joined if they agree in all columns that they are matched on. -/
theorem matches_iff {names : List String} {data comparison : Row} :
    Matches (matchCondition names) data comparison ↔ ∀ n ∈ names, data n = comparison n := by
  unfold Matches matchCondition
  cases names with
  | nil => simp [Expr.truth?, Expr.bool]
  | cons n names =>
    rw [List.map_cons]
    dsimp only
    rw [truth?_foldl_and, ← List.map_cons, List.forall_mem_map]
    exact forall₂_congr fun n _ => truth?_sameColumn

/-- Whether rows differ in some of the columns that they are grouped by. -/
def AreGrouped (groups : List String) (rows : List Row) : Prop :=
  rows.Pairwise fun a b => ∃ n ∈ groups, a n ≠ b n

/-- Whether a condition joins each row of any data to at most one row of any grouped comparison. -/
def MatchesOnce (condition : Expr) (groups : List String) : Prop :=
  ∀ rows, AreGrouped groups rows → ∀ data, ∀ joined : List Row, joined.Sublist rows →
    (∀ c ∈ joined, Matches condition data c) → joined.length ≤ 1

theorem matchesOnce_iff {names groups : List String} :
    MatchesOnce (matchCondition names) groups ↔ ∀ name ∈ groups, name ∈ names := by
  constructor
  · intro once name hn
    refine Decidable.byContradiction fun unmatched => ?_
    let first : Row := fun _ => none
    let second : Row := fun n => if n = name then some "" else none
    have grouped : AreGrouped groups [first, second] :=
      List.pairwise_pair.2 ⟨name, hn, by simp [first, second]⟩
    have joined : ∀ c ∈ [first, second], Matches (matchCondition names) first c := by
      rw [List.forall_mem_cons, List.forall_mem_singleton]
      refine ⟨matches_iff.2 fun _ _ => rfl, matches_iff.2 fun n hn => ?_⟩
      have other : n ≠ name := fun same => unmatched (same ▸ hn)
      exact (if_neg other).symm
    exact absurd (once _ grouped first _ (List.Sublist.refl _) joined) (by simp)
  · intro matched rows grouped data joined sub all
    match joined, grouped.sublist sub with
    | [], _ => exact Nat.zero_le 1
    | [_], _ => exact Nat.le_refl 1
    | a :: b :: joined, grouped =>
      obtain ⟨n, hn, differ⟩ := (List.pairwise_cons.1 grouped).1 b (List.mem_cons_self ..)
      rw [List.forall_mem_cons, List.forall_mem_cons] at all
      have first := matches_iff.1 all.1 n (matched n hn)
      exact absurd (first.symm.trans (matches_iff.1 all.2.1 n (matched n hn))) differ

/-- Data joined to a comparison meets one row of it at most exactly if it is matched on all columns
that the comparison is grouped by. -/
theorem withComparison_matchesOnce_iff {data comparison : Dataframe} {plan : BlendPlan}
    {groups : List String} :
    (∀ j ∈ (data.withComparison comparison plan).query.joins, MatchesOnce j.condition groups) ↔
      ∀ name ∈ groups, name ∈ plan.comparisonColumns := by
  have joins : (data.withComparison comparison plan).query.joins =
      [⟨.left, comparison.table comparisonAlias, matchCondition plan.comparisonColumns⟩] := rfl
  rw [joins, List.forall_mem_singleton]
  exact matchesOnce_iff

end Dataframe

end SemanticLayer
