import SemanticLayer.Filter.Condition
import SemanticLayer.Proofs.Result
import SemanticLayer.Proofs.Sql.Scoping

/-!
# Columns that a filter reads

* `FilterClause.reads_condition`: the condition of a filter reads what its taxons are read from.
-/

namespace SemanticLayer

open Sql (Expr)

variable {allowed : Option String × String → Prop}

theorem FilterValue.reads_sql (v : FilterValue) : v.sql.Reads allowed := by
  cases v with
  | bool b => exact Expr.reads_literal _
  | int n => exact Expr.reads_literal _
  | float x => exact Expr.reads_literal _
  | text t => exact Expr.reads_literal _

namespace FilterOperator

theorem reads_scalarCondition {o : FilterOperator} {left right : Expr} (hl : left.Reads allowed)
    (hr : right.Reads allowed) : (o.scalarCondition left right).Reads allowed := by
  have binary (op : Sql.BinaryOperator) : (Expr.binary left op right).Reads allowed :=
    Expr.reads_binary.2 ⟨hl, hr⟩
  have like (negated ignoreCase : Bool) :
      (likeCondition left right negated ignoreCase).Reads allowed :=
    Expr.reads_like.2 ⟨Expr.reads_cast.2 hl, hr⟩
  cases o with
  | eq => exact binary .eq
  | ne => exact binary .ne
  | lt => exact binary .lt
  | le => exact binary .le
  | gt => exact binary .gt
  | ge => exact binary .ge
  | like => exact like false false
  | notLike => exact like true false
  | likeAnyCase => exact like false true
  | notLikeAnyCase => exact like true true

theorem reads_condition {o : FilterOperator} {left : TaxonColumn} {right? : Option Expr} {e : Expr}
    (hl : left.sql.Reads allowed) (hr : ∀ right ∈ right?, right.Reads allowed)
    (h : o.condition left right? = .ok e) : e.Reads allowed := by
  unfold condition at h
  split at h
  · unfold nullCondition at h
    split at h
    · cases h
      exact Expr.reads_isNull.2 hl
    · cases h
      exact Expr.reads_isNull.2 hl
    · cases h
  · rename_i right
    have hright : right.Reads allowed := hr right rfl
    split at h
    · cases h
      simpa [Expr.func] using ⟨hright, hl⟩
    · cases h
      exact reads_scalarCondition hl hright

end FilterOperator

/-- Several conditions in one read what each of them reads. -/
theorem Sql.Expr.reads_foldl {op : Sql.BinaryOperator} {es : List Expr} {e : Expr}
    (he : e.Reads allowed) (hes : ∀ e ∈ es, e.Reads allowed) :
    (es.foldl (fun l r => .binary l op r) e).Reads allowed := by
  induction es generalizing e with
  | nil => exact he
  | cons d es ih =>
    obtain ⟨hd, hes⟩ := List.forall_mem_cons.1 hes
    exact ih (Expr.reads_binary.2 ⟨he, hd⟩) hes

namespace FilterClause

variable {columns : TaxonColumns}

theorem reads_columnOf (hc : ∀ slug c, columns.get? slug = some c → c.sql.Reads allowed)
    {taxon : String} {c : TaxonColumn} (h : columnOf columns taxon = .ok c) :
    c.sql.Reads allowed := by
  unfold columnOf at h
  split at h
  · rename_i found
    cases h
    exact hc taxon _ found
  · cases h

theorem reads_listCondition {c : TaxonColumn} {negated : Bool} {values : List FilterValue}
    (hc : c.sql.Reads allowed) :
    (listCondition c negated (values.map FilterValue.sql)).Reads allowed := by
  have constants : ∀ v ∈ values.map FilterValue.sql, v.Reads allowed := by
    rw [List.forall_mem_map]
    intro v _
    exact v.reads_sql
  unfold listCondition
  split
  · exact Expr.reads_inList.2 ⟨hc, constants⟩
  · have overlap : (Expr.func "arrays_overlap"
        [.func "array_construct" (values.map FilterValue.sql), c.sql]).Reads allowed := by
      rw [Expr.func, Expr.reads_call, List.forall_mem_cons, List.forall_mem_singleton, Expr.func,
        Expr.reads_call]
      exact ⟨constants, hc⟩
    dsimp only
    split
    · exact Expr.reads_unary.2 overlap
    · exact overlap

mutual

/-- The condition of a filter reads what its taxons are read from. -/
theorem reads_condition (hc : ∀ slug c, columns.get? slug = some c → c.sql.Reads allowed) :
    ∀ (f : FilterClause) {e : Expr}, f.condition columns = .ok e → e.Reads allowed
  | .group any cs negate, e, h => by
    rw [condition] at h
    obtain ⟨es, hes, h⟩ := Result.bind_eq_ok.1 h
    have members := reads_conditions hc cs hes
    cases es with
    | nil => cases h
    | cons d es =>
      obtain ⟨hd, hes⟩ := List.forall_mem_cons.1 members
      have grouped : (Expr.paren (es.foldl (if any then Expr.or else Expr.and) d)).Reads allowed := by
        cases any with
        | true => exact Expr.reads_paren.2 (Expr.reads_foldl hd hes)
        | false => exact Expr.reads_paren.2 (Expr.reads_foldl hd hes)
      cases h
      split
      · exact Expr.reads_unary.2 grouped
      · exact grouped
  | .value taxon o value?, e, h => by
    rw [condition] at h
    obtain ⟨c, hcolumn, h⟩ := Result.bind_eq_ok.1 h
    refine FilterOperator.reads_condition (reads_columnOf hc hcolumn) ?_ h
    intro right hr
    obtain ⟨v, _, rfl⟩ := Option.map_eq_some_iff.1 hr
    exact v.reads_sql
  | .taxons taxon other o, e, h => by
    rw [condition] at h
    obtain ⟨left, hleft, h⟩ := Result.bind_eq_ok.1 h
    obtain ⟨right, hright, h⟩ := Result.bind_eq_ok.1 h
    refine FilterOperator.reads_condition (reads_columnOf hc hleft) ?_ h
    intro r hr
    cases hr
    exact reads_columnOf hc hright
  | .among taxon negated values, e, h => by
    rw [condition] at h
    split at h
    · cases h
    · obtain ⟨c, hcolumn, rfl⟩ := Result.map_eq_ok.1 h
      exact reads_listCondition (reads_columnOf hc hcolumn)

theorem reads_conditions (hc : ∀ slug c, columns.get? slug = some c → c.sql.Reads allowed) :
    ∀ (fs : List FilterClause) {es : List Expr}, conditions columns fs = .ok es →
      ∀ e ∈ es, e.Reads allowed
  | [], es, h => by
    rw [conditions] at h
    cases h
    intro e he
    cases he
  | f :: fs, es, h => by
    rw [conditions] at h
    obtain ⟨e, hfirst, h⟩ := Result.bind_eq_ok.1 h
    obtain ⟨rest, hrest, h⟩ := Result.bind_eq_ok.1 h
    cases h
    exact List.forall_mem_cons.2 ⟨reads_condition hc f hfirst, reads_conditions hc fs hrest⟩

end

end FilterClause

end SemanticLayer
