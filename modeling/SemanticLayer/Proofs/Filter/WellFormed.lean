import SemanticLayer.Filter.Condition
import SemanticLayer.Proofs.Collections.Entries
import SemanticLayer.Proofs.Result

/-!
# Well-formed filters

A filter has a condition exactly if it is well-formed and its taxons can be read.

* `FilterClause.parts`: a filter and the filters in its groups, however deep;
* `FilterClause.IsFilled`: a filter that says what it joins or what a taxon is held against;
* `FilterClause.exists_condition_iff`: when a filter has a condition;
* `FilterClause.condition_congr`: the condition depends on the taxons of the filter only;
* `FilterClause.condition_outcome`: both together.
-/

namespace SemanticLayer

open Sql (Expr)

namespace FilterOperator

variable {o : FilterOperator} {left : TaxonColumn}

theorem exists_condition_none_iff :
    (∃ e, o.condition left none = .ok e) ↔ o = .eq ∨ o = .ne := by
  cases o <;> simp [condition, nullCondition]

theorem exists_condition_some (right : Expr) : ∃ e, o.condition left (some right) = .ok e := by
  unfold condition
  dsimp only
  split
  · exact ⟨_, rfl⟩
  · exact ⟨_, rfl⟩

end FilterOperator

namespace FilterClause

mutual

/-- A filter and the filters in its groups. -/
def parts : FilterClause → List FilterClause
  | .group any cs negate => .group any cs negate :: partsAll cs
  | .value t o v? => [.value t o v?]
  | .taxons t r o => [.taxons t r o]
  | .among t negated vs => [.among t negated vs]

def partsAll : List FilterClause → List FilterClause
  | [] => []
  | c :: cs => c.parts ++ partsAll cs

end

/-- Whether a group joins some filters, a list has some values, and null is held against for
equality only; the filters in a group are parts of their own. -/
def IsFilled : FilterClause → Prop
  | .group _ cs _ => cs ≠ []
  | .value _ o v? => v? = none → o = .eq ∨ o = .ne
  | .taxons .. => True
  | .among _ _ vs => vs ≠ []

section
variable {columns : TaxonColumns}

theorem exists_columnOf_iff {taxon : String} :
    (∃ c, columnOf columns taxon = .ok c) ↔ taxon ∈ columns.keys := by
  rw [← SortedMap.contains_iff, SortedMap.contains_eq_isSome]
  unfold columnOf
  cases columns.get? taxon <;> simp

theorem exists_condition_value_iff {taxon : String} {o : FilterOperator}
    {v? : Option FilterValue} :
    (∃ e, (value taxon o v?).condition columns = .ok e) ↔
      taxon ∈ columns.keys ∧ (value taxon o v?).IsFilled := by
  rw [condition, ← exists_columnOf_iff]
  refine Result.exists_bind_iff fun c => ?_
  cases v? with
  | none => exact FilterOperator.exists_condition_none_iff.trans ⟨fun h _ => h, fun h => h rfl⟩
  | some v => exact iff_of_true (FilterOperator.exists_condition_some v.sql) nofun

theorem exists_condition_taxons_iff {taxon right : String} {o : FilterOperator} :
    (∃ e, (taxons taxon right o).condition columns = .ok e) ↔
      taxon ∈ columns.keys ∧ right ∈ columns.keys := by
  rw [condition, ← exists_columnOf_iff, ← exists_columnOf_iff]
  refine Result.exists_bind_iff fun l => ?_
  refine (Result.exists_bind_iff fun r => ?_).trans (and_iff_left trivial)
  exact iff_of_true (FilterOperator.exists_condition_some r.sql) trivial

theorem exists_condition_among_iff {taxon : String} {negated : Bool}
    {vs : List FilterValue} :
    (∃ e, (among taxon negated vs).condition columns = .ok e) ↔
      taxon ∈ columns.keys ∧ vs ≠ [] := by
  rw [condition]
  cases vs with
  | nil => exact iff_of_false nofun fun h => h.2 rfl
  | cons v vs =>
    rw [List.isEmpty_cons, if_neg Bool.false_ne_true, Result.exists_map_ok, exists_columnOf_iff]
    exact (and_iff_left (List.cons_ne_nil v vs)).symm

theorem exists_condition_group_iff {any negate : Bool} {cs : List FilterClause} :
    (∃ e, (group any cs negate).condition columns = .ok e) ↔
      (∃ es, conditions columns cs = .ok es) ∧ cs ≠ [] := by
  rw [condition]
  cases cs with
  | nil => exact iff_of_false nofun fun h => h.2 rfl
  | cons c cs =>
    rw [and_iff_left (List.cons_ne_nil c cs)]
    constructor
    · rintro ⟨_, h⟩
      obtain ⟨es, rendered, _⟩ := Result.bind_eq_ok.1 h
      exact ⟨es, rendered⟩
    · rintro ⟨es, rendered⟩
      rw [rendered]
      rw [conditions] at rendered
      obtain ⟨e, _, rendered⟩ := Result.bind_eq_ok.1 rendered
      obtain ⟨rest, _, rendered⟩ := Result.bind_eq_ok.1 rendered
      cases rendered
      exact ⟨_, rfl⟩

theorem exists_conditions_cons_iff {c : FilterClause} {cs : List FilterClause} :
    (∃ es, conditions columns (c :: cs) = .ok es) ↔
      (∃ e, c.condition columns = .ok e) ∧ ∃ es, conditions columns cs = .ok es := by
  rw [conditions]
  exact Result.exists_bind_iff fun e => Result.exists_bind_ok

mutual

/-- A filter has a condition if its taxons can be read and each part of it is filled. -/
theorem exists_condition_iff : (c : FilterClause) →
    ((∃ e, c.condition columns = .ok e) ↔
      (∀ s ∈ c.taxonList, s ∈ columns.keys) ∧ ∀ p ∈ c.parts, p.IsFilled)
  | .group any cs negate => by
    rw [exists_condition_group_iff, exists_conditions_iff cs, taxonList, parts,
      List.forall_mem_cons, and_assoc]
    exact and_congr_right fun _ => And.comm
  | .value t o v? => by
    rw [exists_condition_value_iff, taxonList, parts, List.forall_mem_singleton,
      List.forall_mem_singleton]
  | .taxons t r o => by
    rw [exists_condition_taxons_iff, taxonList, parts, List.forall_mem_singleton,
      List.forall_mem_cons, List.forall_mem_singleton]
    exact (and_iff_left trivial).symm
  | .among t negated vs => by
    rw [exists_condition_among_iff, taxonList, parts, List.forall_mem_singleton,
      List.forall_mem_singleton]
    rfl

theorem exists_conditions_iff : (cs : List FilterClause) →
    ((∃ es, conditions columns cs = .ok es) ↔
      (∀ s ∈ taxonListAll cs, s ∈ columns.keys) ∧ ∀ p ∈ partsAll cs, p.IsFilled)
  | [] => iff_of_true ⟨[], rfl⟩ ⟨List.forall_mem_nil _, List.forall_mem_nil _⟩
  | c :: cs => by
    rw [exists_conditions_cons_iff, exists_condition_iff c, exists_conditions_iff cs,
      taxonListAll, partsAll, List.forall_mem_append, List.forall_mem_append, and_and_and_comm]

end

end

/-! ## What a condition depends on -/

section
variable {columns columns' : TaxonColumns}

theorem columnOf_congr {taxon : String} (h : columns.get? taxon = columns'.get? taxon) :
    columnOf columns taxon = columnOf columns' taxon := by
  unfold columnOf
  rw [h]

mutual

/-- Where the taxons of a filter are read alike, its condition is the same, and so is the error. -/
theorem condition_congr : (c : FilterClause) →
    (∀ s ∈ c.taxonList, columns.get? s = columns'.get? s) →
      c.condition columns = c.condition columns'
  | .group any cs negate, h => by
    rw [condition, condition, conditions_congr cs h]
  | .value t o v?, h => by
    rw [condition, condition, columnOf_congr (h t (List.mem_singleton_self t))]
  | .taxons t r o, h => by
    rw [taxonList, List.forall_mem_cons, List.forall_mem_singleton] at h
    rw [condition, condition, columnOf_congr h.1, columnOf_congr h.2]
  | .among t negated vs, h => by
    rw [condition, condition, columnOf_congr (h t (List.mem_singleton_self t))]

theorem conditions_congr : (cs : List FilterClause) →
    (∀ s ∈ taxonListAll cs, columns.get? s = columns'.get? s) →
      conditions columns cs = conditions columns' cs
  | [], _ => rfl
  | c :: cs, h => by
    rw [taxonListAll, List.forall_mem_append] at h
    rw [conditions, conditions, condition_congr c h.1, conditions_congr cs h.2]

end

end

/-- A filter has a condition exactly if each of its taxons can be read, no group or list in it is
empty and null is held against for equality only; how other taxons are read makes no difference. -/
theorem condition_outcome (c : FilterClause) :
    (∀ columns, (∃ e, c.condition columns = .ok e) ↔
      (∀ s ∈ c.slugs, s ∈ columns.keys) ∧ ∀ p ∈ c.parts, p.IsFilled) ∧
    ∀ columns columns' : TaxonColumns, (∀ s ∈ c.slugs, columns.get? s = columns'.get? s) →
      c.condition columns = c.condition columns' := by
  have member (s : String) : s ∈ c.slugs ↔ s ∈ c.taxonList := SortedSet.mem_ofList
  simp only [member]
  exact ⟨fun columns => exists_condition_iff c, fun columns columns' => condition_congr c⟩

/-- `NOT (spend = 1 OR name NOT IN ('a') OR name IS NULL)`, without clicks and beside them. -/
theorem condition_outcome_spend :
    let columns : TaxonColumns :=
      .ofList [("spend", .ofSql (.col "spend")), ("name", .ofSql (.col "name"))]
    let c : FilterClause :=
      .group true
        [.value "spend" .eq (some (.int 1)), .among "name" true [.text "a"],
          .value "name" .eq none] true
    (∃ e, c.condition columns = .ok e) ∧
      c.condition columns = c.condition (columns.insert "clicks" (.ofSql (.col "clicks"))) := by
  intro columns c
  obtain ⟨outcome, same⟩ := condition_outcome c
  refine ⟨(outcome _).2 ⟨by decide +kernel, ?_⟩, same _ _ fun s hs => ?_⟩
  · simp [c, parts, partsAll, IsFilled]
  · have other : "clicks" ∉ c.slugs := by decide +kernel
    rw [SortedMap.get?_insert, if_neg (ne_of_mem_of_not_mem hs other).symm]

end FilterClause

end SemanticLayer
