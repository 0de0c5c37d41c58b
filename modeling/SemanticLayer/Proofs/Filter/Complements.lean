import Mathlib.Data.Option.NAry
import SemanticLayer.Proofs.Blend.RowMatching
import SemanticLayer.Proofs.Filter.WellFormed

/-!
# Complements of filters

The dual of a filter has AND and OR exchanged, and each operator with the one that holds where it
does not.

* `Sql.Valuation`: what the operands of conditions come to on a row;
* `Sql.Valuation.truth?`: whether a condition holds, in the logic where null makes it unknown;
* `Sql.Expr.IsComplement`: a condition that is the negation of another on every row;
* `FilterClause.dual`: the dual of a filter;
* `FilterClause.isComplement_dual`: where no array is held against a value for equality, the dual
  has the complement of the filter's condition;
* `FilterClause.complements_iff`: everywhere else it has not.
-/

namespace SemanticLayer

namespace Sql

/-! ## Truth of conditions -/

/-- A row in a database: the values of operands, none for null, how they are ordered, what matches
a pattern with an escape character, and what an array holds. -/
structure Valuation (V : Type) where
  operand : Expr → Option V
  compare : V → V → Ordering
  fits : (escape : Char) → (ignoreCase : Bool) → V → V → Bool
  items : V → List V

/-- The comparison that an operator makes. -/
def BinaryOperator.test? : BinaryOperator → Option (Ordering → Bool)
  | .eq => some (·.isEq)
  | .ne => some (·.isNe)
  | .lt => some (·.isLT)
  | .le => some (·.isLE)
  | .gt => some (·.isGT)
  | .ge => some (·.isGE)
  | _ => none

/-- The negation; what is unknown stays unknown. -/
def not? (b : Option Bool) : Option Bool := b.map (!·)

def notIf? (negated : Bool) (b : Option Bool) : Option Bool := if negated then not? b else b

namespace Valuation

variable {V : Type} (v : Valuation V)

def isAmong? (a : Option V) : List (Option V) → Option Bool
  | [] => some false
  | b :: bs => or? (Option.map₂ (fun x y => (v.compare x y).isEq) a b) (isAmong? a bs)

def holds (a x : V) : Bool := (v.items a).any fun y => (v.compare x y).isEq

/-- Whether an array has a value, and whether one value of a list is in an array. -/
def called? : String → List Expr → Option Bool
  | "array_contains", [.call "to_variant" [x] _, a] =>
    Option.map₂ v.holds (v.operand a) (v.operand x)
  | "arrays_overlap", [.call "array_construct" xs _, a] =>
    (v.operand a).map fun a => (xs.filterMap v.operand).any (v.holds a)
  | _, _ => none

/-- Whether a condition holds on the row; none if that is unknown. -/
def truth? : Expr → Option Bool
  | .paren e => truth? e
  | .unary .not e => not? (truth? e)
  | .binary l op r =>
    match op with
    | .and => and? (truth? l) (truth? r)
    | .or => or? (truth? l) (truth? r)
    | op => op.test?.bind fun test =>
        Option.map₂ (fun a b => test (v.compare a b)) (v.operand l) (v.operand r)
  | .isNull e negated => some ((v.operand e).isNone != negated)
  | .inList e values negated => notIf? negated (v.isAmong? (v.operand e) (values.map v.operand))
  | .like e pattern escape negated ignoreCase =>
    notIf? negated (Option.map₂ (v.fits escape ignoreCase) (v.operand e) (v.operand pattern))
  | .call name args _ => v.called? name args
  | _ => none

end Valuation

/-- A condition that is the negation of another on every row. -/
def Expr.IsComplement (e d : Expr) : Prop :=
  ∀ (V : Type) (v : Valuation V), v.truth? d = not? (v.truth? e)

theorem not?_not? : (b : Option Bool) → not? (not? b) = b
  | some true => rfl
  | some false => rfl
  | none => rfl

theorem not?_and? (a b : Option Bool) : not? (and? a b) = or? (not? a) (not? b) := by
  rcases a with _ | _ | _ <;> rcases b with _ | _ | _ <;> rfl

theorem notIf?_not (negated : Bool) (b : Option Bool) :
    notIf? (!negated) b = not? (notIf? negated b) := by
  cases negated with
  | false => rfl
  | true => exact (not?_not? b).symm

namespace Valuation

variable {V : Type} (v : Valuation V)

theorem truth?_binary {op : BinaryOperator} {test : Ordering → Bool} (h : op.test? = some test)
    (l r : Expr) :
    v.truth? (.binary l op r) =
      Option.map₂ (fun a b => test (v.compare a b)) (v.operand l) (v.operand r) := by
  cases op <;> cases h <;> rfl

theorem not?_map₂ {W : Type} (f g : V → W → Bool) (opposite : ∀ a b, g a b = !f a b)
    (a : Option V) (b : Option W) : Option.map₂ g a b = not? (Option.map₂ f a b) := by
  cases a with
  | none => rfl
  | some a =>
    cases b with
    | none => rfl
    | some b => exact congrArg some (opposite a b)

end Valuation

namespace Expr.IsComplement

variable {e d e' d' : Expr}

theorem symm (h : e.IsComplement d) : d.IsComplement e := fun V v => by
  rw [h V v, not?_not?]

theorem paren (h : e.IsComplement d) : (paren e).IsComplement (.paren d) := h

theorem not (h : e.IsComplement d) : e.not.IsComplement d.not := fun V v =>
  congrArg not? (h V v)

theorem self_not (e : Expr) : e.IsComplement e.not := fun _ _ => rfl

theorem and (h : e.IsComplement d) (h' : e'.IsComplement d') :
    (e.and e').IsComplement (d.or d') := fun V v => by
  have both := not?_and? (v.truth? e) (v.truth? e')
  rw [← h V v, ← h' V v] at both
  exact both.symm

theorem or (h : e.IsComplement d) (h' : e'.IsComplement d') :
    (e.or e').IsComplement (d.and d') := (h.symm.and h'.symm).symm

theorem foldl (any : Bool) {es ds : List Expr} (h : e.IsComplement d)
    (each : List.Forall₂ IsComplement es ds) :
    (es.foldl (if any then Expr.or else Expr.and) e).IsComplement
      (ds.foldl (if !any then Expr.or else Expr.and) d) := by
  induction each generalizing e d with
  | nil => exact h
  | cons first _ ih =>
    refine ih ?_
    cases any with
    | true => exact h.or first
    | false => exact h.and first

theorem binary {op op' : BinaryOperator} {test test' : Ordering → Bool}
    (h : op.test? = some test) (h' : op'.test? = some test')
    (opposite : ∀ o, test' o = !test o) (l r : Expr) :
    (Expr.binary l op r).IsComplement (.binary l op' r) := fun V v => by
  rw [v.truth?_binary h, v.truth?_binary h']
  exact Valuation.not?_map₂ _ _ (fun a b => opposite _) _ _

end Expr.IsComplement

end Sql

open Sql (Expr Valuation)

/-! ## Operators -/

namespace FilterOperator

/-- The operator that holds where another does not. -/
def counterpart : FilterOperator → FilterOperator
  | .eq => .ne
  | .ne => .eq
  | .lt => .ge
  | .le => .gt
  | .gt => .le
  | .ge => .lt
  | .like => .notLike
  | .notLike => .like
  | .likeAnyCase => .notLikeAnyCase
  | .notLikeAnyCase => .likeAnyCase

def IsEquality (o : FilterOperator) : Prop := o = .eq ∨ o = .ne

theorem isEquality_counterpart_iff {o : FilterOperator} :
    o.counterpart.IsEquality ↔ o.IsEquality := by
  cases o <;> simp [counterpart, IsEquality]

theorem isComplement_likeCondition (left pattern : Expr) (negated ignoreCase : Bool) :
    (likeCondition left pattern negated ignoreCase).IsComplement
      (likeCondition left pattern (!negated) ignoreCase) := fun _ _ =>
  Sql.notIf?_not negated _

theorem isComplement_scalarCondition (o : FilterOperator) (left right : Expr) :
    (o.scalarCondition left right).IsComplement (o.counterpart.scalarCondition left right) := by
  cases o with
  | eq => exact .binary rfl rfl (by decide) left right
  | ne => exact .binary rfl rfl (by decide) left right
  | lt => exact .binary rfl rfl (by decide) left right
  | le => exact .binary rfl rfl (by decide) left right
  | gt => exact .binary rfl rfl (by decide) left right
  | ge => exact .binary rfl rfl (by decide) left right
  | like => exact isComplement_likeCondition left right false false
  | notLike => exact isComplement_likeCondition left right true false
  | likeAnyCase => exact isComplement_likeCondition left right false true
  | notLikeAnyCase => exact isComplement_likeCondition left right true true

theorem isComplement_nullCondition {o : FilterOperator} {left e d : Expr}
    (h : o.nullCondition left = .ok e) (h' : o.counterpart.nullCondition left = .ok d) :
    e.IsComplement d := by
  cases o with
  | eq =>
    cases h
    cases h'
    intro V v
    exact congrArg some (Bool.xor_not _ false)
  | ne =>
    cases h
    cases h'
    intro V v
    exact congrArg some (Bool.xor_not _ true)
  | _ => cases h

/-- An operator and its counterpart, unless they hold an array against a value for equality. -/
theorem isComplement_condition {o : FilterOperator} {left : TaxonColumn} {right? : Option Expr}
    {e d : Expr} (scalar : o.IsEquality → right? ≠ none → left.quantity ≠ .array)
    (h : o.condition left right? = .ok e) (h' : o.counterpart.condition left right? = .ok d) :
    e.IsComplement d := by
  cases right? with
  | none => exact isComplement_nullCondition h h'
  | some right =>
    have plain {p : FilterOperator} (same : p.IsEquality ↔ o.IsEquality) :
        p.condition left (some right) = .ok (p.scalarCondition left.sql right) := by
      refine if_neg fun array => ?_
      rw [Bool.and_eq_true, decide_eq_true_iff, decide_eq_true_iff] at array
      exact scalar (same.1 (.inl array.1)) nofun array.2
    rw [plain .rfl] at h
    rw [plain isEquality_counterpart_iff] at h'
    cases h
    cases h'
    exact o.isComplement_scalarCondition left.sql right

/-- Rows in which all operands are one array, which holds nothing. -/
def emptyArrays : Valuation Unit where
  operand _ := some ()
  compare _ _ := .eq
  fits _ _ _ _ := false
  items _ := []

/-- An array that holds nothing equals no value, and it differs from none that is an empty array
as well. -/
theorem not_isComplement_condition {o : FilterOperator} {left : TaxonColumn} {right e d : Expr}
    (equality : o.IsEquality) (array : left.quantity = .array)
    (h : o.condition left (some right) = .ok e)
    (h' : o.counterpart.condition left (some right) = .ok d) : ¬e.IsComplement d := by
  have contained : condition .eq left (some right) =
      .ok (.func "array_contains" [.func "to_variant" [right], left.sql]) := by
    refine if_pos ?_
    rw [Bool.and_eq_true, decide_eq_true_iff, decide_eq_true_iff]
    exact ⟨rfl, array⟩
  have differs : condition .ne left (some right) = .ok (left.sql.ne right) := rfl
  intro complement
  have both := complement Unit emptyArrays
  rcases equality with rfl | rfl
  · cases contained.symm.trans h
    cases differs.symm.trans h'
    cases both
  · cases differs.symm.trans h
    cases contained.symm.trans h'
    cases both

end FilterOperator

/-! ## Duals -/

namespace FilterClause

mutual

/-- The filter with AND and OR exchanged, and each operator with its counterpart. -/
def dual : FilterClause → FilterClause
  | .group any cs negate => .group (!any) (dualAll cs) negate
  | .value t o v? => .value t o.counterpart v?
  | .taxons t r o => .taxons t r o.counterpart
  | .among t negated vs => .among t (!negated) vs

def dualAll : List FilterClause → List FilterClause
  | [] => []
  | c :: cs => c.dual :: dualAll cs

end

mutual

theorem taxonList_dual : (c : FilterClause) → c.dual.taxonList = c.taxonList
  | .group _ cs _ => taxonListAll_dualAll cs
  | .value .. => rfl
  | .taxons .. => rfl
  | .among .. => rfl

theorem taxonListAll_dualAll : (cs : List FilterClause) →
    taxonListAll (dualAll cs) = taxonListAll cs
  | [] => rfl
  | c :: cs => by rw [dualAll, taxonListAll, taxonListAll, taxonList_dual c, taxonListAll_dualAll cs]

end

mutual

theorem parts_dual : (c : FilterClause) → c.dual.parts = c.parts.map dual
  | .group any cs negate => by
    rw [dual, parts, parts, List.map_cons, partsAll_dualAll cs, dual]
  | .value .. => rfl
  | .taxons .. => rfl
  | .among .. => rfl

theorem partsAll_dualAll : (cs : List FilterClause) →
    partsAll (dualAll cs) = (partsAll cs).map dual
  | [] => rfl
  | c :: cs => by
    rw [dualAll, partsAll, partsAll, List.map_append, parts_dual c, partsAll_dualAll cs]

end

mutual

theorem parts_subset_of_mem : (c : FilterClause) → ∀ {p}, p ∈ c.parts → p.parts ⊆ c.parts
  | .group any cs negate, p, h => by
    rw [parts] at h ⊢
    rcases List.mem_cons.1 h with rfl | h
    · rw [parts]
      exact List.Subset.refl _
    · exact List.subset_cons_of_subset _ (parts_subset_of_mem_partsAll cs h)
  | .value .., p, h => by
    cases List.mem_singleton.1 h
    exact List.Subset.refl _
  | .taxons .., p, h => by
    cases List.mem_singleton.1 h
    exact List.Subset.refl _
  | .among .., p, h => by
    cases List.mem_singleton.1 h
    exact List.Subset.refl _

theorem parts_subset_of_mem_partsAll : (cs : List FilterClause) →
    ∀ {p}, p ∈ partsAll cs → p.parts ⊆ partsAll cs
  | [], _, h => absurd h List.not_mem_nil
  | c :: cs, p, h => by
    rw [partsAll] at h ⊢
    rcases List.mem_append.1 h with h | h
    · exact List.subset_append_of_subset_left _ (parts_subset_of_mem c h)
    · exact List.subset_append_of_subset_right _ (parts_subset_of_mem_partsAll cs h)

end

theorem IsFilled.dual {c : FilterClause} (h : c.IsFilled) : c.dual.IsFilled := by
  cases c with
  | group any cs negate =>
    cases cs with
    | nil => exact absurd rfl h
    | cons c cs => exact List.cons_ne_nil c.dual (dualAll cs)
  | value t o v? => exact fun null => FilterOperator.isEquality_counterpart_iff.2 (h null)
  | taxons t r o => trivial
  | among t negated vs => exact h

section
variable {columns : TaxonColumns}

theorem exists_condition_dual {c : FilterClause} (h : ∃ e, c.condition columns = .ok e) :
    ∃ e, c.dual.condition columns = .ok e := by
  obtain ⟨known, filled⟩ := exists_condition_iff c |>.1 h
  refine (exists_condition_iff c.dual).2 ⟨by rwa [taxonList_dual], ?_⟩
  rw [parts_dual, List.forall_mem_map]
  exact fun p hp => (filled p hp).dual

mutual

theorem exists_condition_of_mem_parts : (c : FilterClause) →
    (∃ e, c.condition columns = .ok e) → ∀ p ∈ c.parts, ∃ e, p.condition columns = .ok e
  | .group any cs negate, h => by
    rw [parts, List.forall_mem_cons]
    exact ⟨h, exists_conditions_of_mem_partsAll cs (exists_condition_group_iff.1 h).1⟩
  | .value .., h => by rwa [parts, List.forall_mem_singleton]
  | .taxons .., h => by rwa [parts, List.forall_mem_singleton]
  | .among .., h => by rwa [parts, List.forall_mem_singleton]

theorem exists_conditions_of_mem_partsAll : (cs : List FilterClause) →
    (∃ es, conditions columns cs = .ok es) → ∀ p ∈ partsAll cs, ∃ e, p.condition columns = .ok e
  | [], _ => List.forall_mem_nil _
  | c :: cs, h => by
    rw [exists_conditions_cons_iff] at h
    rw [partsAll, List.forall_mem_append]
    exact ⟨exists_condition_of_mem_parts c h.1, exists_conditions_of_mem_partsAll cs h.2⟩

end

theorem columnOf_eq_ok {taxon : String} {c : TaxonColumn} :
    columnOf columns taxon = .ok c ↔ columns.get? taxon = some c := by
  unfold columnOf
  cases columns.get? taxon <;> simp

end

/-- Whether a taxon is read as an array. -/
def IsArray (columns : TaxonColumns) (taxon : String) : Prop :=
  ∃ c, columns.get? taxon = some c ∧ c.quantity = .array

/-- Whether a filter holds an array against a value or a taxon for equality. -/
def EquatesArray (columns : TaxonColumns) : FilterClause → Prop
  | .value t o v? => IsArray columns t ∧ o.IsEquality ∧ v? ≠ none
  | .taxons t _ o => IsArray columns t ∧ o.IsEquality
  | .group .. => False
  | .among .. => False

/-- Whether both filters have conditions and one is the negation of the other on every row. -/
def AreComplements (columns : TaxonColumns) (c d : FilterClause) : Prop :=
  ∃ e e', c.condition columns = .ok e ∧ d.condition columns = .ok e' ∧ e.IsComplement e'

theorem isComplement_listCondition (c : TaxonColumn) (negated : Bool) (values : List Expr) :
    (listCondition c negated values).IsComplement (listCondition c (!negated) values) := by
  unfold listCondition
  cases c.quantity with
  | scalar => exact fun V v => Sql.notIf?_not negated _
  | array =>
    cases negated with
    | false => exact .self_not _
    | true => exact (Expr.IsComplement.self_not _).symm

section
variable {columns : TaxonColumns}

/-- The condition of a group is that of its filters between parentheses, negated or not. -/
theorem condition_group {any negate : Bool} {cs : List FilterClause} {e : Expr}
    (h : (group any cs negate).condition columns = .ok e) :
    ∃ d ds, conditions columns cs = .ok (d :: ds) ∧
      e = (if negate then Expr.not else id)
        (.paren (ds.foldl (if any then Expr.or else Expr.and) d)) := by
  rw [condition] at h
  obtain ⟨es, hes, h⟩ := Result.bind_eq_ok.1 h
  cases es with
  | nil => cases h
  | cons d ds =>
    refine ⟨d, ds, hes, ?_⟩
    cases h
    cases negate <;> rfl

mutual

/-- The dual has the complement of the condition where no array is held against a value for
equality. -/
theorem isComplement_dual : (c : FilterClause) → (∀ p ∈ c.parts, ¬p.EquatesArray columns) →
    ∀ {e e'}, c.condition columns = .ok e → c.dual.condition columns = .ok e' → e.IsComplement e'
  | .group any cs negate, plain, e, e', h, h' => by
    rw [parts, List.forall_mem_cons] at plain
    obtain ⟨d, ds, hds, rfl⟩ := condition_group h
    obtain ⟨d', ds', hds', rfl⟩ := condition_group h'
    cases isComplement_dualAll cs plain.2 hds hds' with
    | cons first rest =>
      have grouped := (first.foldl any rest).paren
      cases negate with
      | false => exact grouped
      | true => exact grouped.not
  | .value t o v?, plain, e, e', h, h' => by
    rw [parts, List.forall_mem_singleton] at plain
    rw [condition] at h
    rw [dual, condition] at h'
    obtain ⟨c, hc, h⟩ := Result.bind_eq_ok.1 h
    rw [hc] at h'
    refine FilterOperator.isComplement_condition (fun equality some array => ?_) h h'
    exact plain ⟨⟨c, columnOf_eq_ok.1 hc, array⟩, equality, fun null => some (by rw [null]; rfl)⟩
  | .taxons t r o, plain, e, e', h, h' => by
    rw [parts, List.forall_mem_singleton] at plain
    rw [condition] at h
    rw [dual, condition] at h'
    obtain ⟨c, hc, h⟩ := Result.bind_eq_ok.1 h
    obtain ⟨right, hr, h⟩ := Result.bind_eq_ok.1 h
    rw [hc] at h'
    change columnOf columns r >>= _ = _ at h'
    rw [hr] at h'
    refine FilterOperator.isComplement_condition (fun equality _ array => ?_) h h'
    exact plain ⟨⟨c, columnOf_eq_ok.1 hc, array⟩, equality⟩
  | .among t negated vs, _, e, e', h, h' => by
    rw [condition] at h
    rw [dual, condition] at h'
    split at h
    · cases h
    · rename_i filled
      rw [if_neg filled] at h'
      obtain ⟨c, hc, rfl⟩ := Result.map_eq_ok.1 h
      obtain ⟨c', hc', rfl⟩ := Result.map_eq_ok.1 h'
      cases hc.symm.trans hc'
      exact isComplement_listCondition c negated _

theorem isComplement_dualAll : (cs : List FilterClause) →
    (∀ p ∈ partsAll cs, ¬p.EquatesArray columns) → ∀ {es es'}, conditions columns cs = .ok es →
      conditions columns (dualAll cs) = .ok es' → List.Forall₂ Expr.IsComplement es es'
  | [], _, es, es', h, h' => by
    rw [conditions] at h
    rw [dualAll, conditions] at h'
    cases h
    cases h'
    exact .nil
  | c :: cs, plain, es, es', h, h' => by
    rw [partsAll, List.forall_mem_append] at plain
    rw [conditions] at h
    rw [dualAll, conditions] at h'
    obtain ⟨e, he, h⟩ := Result.bind_eq_ok.1 h
    obtain ⟨rest, hrest, h⟩ := Result.bind_eq_ok.1 h
    obtain ⟨e', he', h'⟩ := Result.bind_eq_ok.1 h'
    obtain ⟨rest', hrest', h'⟩ := Result.bind_eq_ok.1 h'
    cases h
    cases h'
    exact .cons (isComplement_dual c plain.1 he he') (isComplement_dualAll cs plain.2 hrest hrest')

end

theorem not_isComplement_dual {c : FilterClause} (array : c.EquatesArray columns) {e e' : Expr}
    (h : c.condition columns = .ok e) (h' : c.dual.condition columns = .ok e') :
    ¬e.IsComplement e' := by
  cases c with
  | group any cs negate => cases array
  | among t negated vs => cases array
  | value t o v? =>
    obtain ⟨⟨c, hc, array⟩, equality, some⟩ := array
    obtain ⟨v, rfl⟩ := Option.ne_none_iff_exists'.1 some
    rw [condition, columnOf_eq_ok.2 hc] at h
    rw [dual, condition, columnOf_eq_ok.2 hc] at h'
    exact FilterOperator.not_isComplement_condition equality array h h'
  | taxons t r o =>
    obtain ⟨⟨c, hc, array⟩, equality⟩ := array
    rw [condition, columnOf_eq_ok.2 hc] at h
    rw [dual, condition, columnOf_eq_ok.2 hc] at h'
    change columnOf columns r >>= _ = _ at h
    change columnOf columns r >>= _ = _ at h'
    obtain ⟨right, hr, h⟩ := Result.bind_eq_ok.1 h
    rw [hr] at h'
    exact FilterOperator.not_isComplement_condition equality array h h'

theorem areComplements_toggled {any negate : Bool} {cs : List FilterClause}
    (h : ∃ e, (group any cs negate).condition columns = .ok e) :
    AreComplements columns (.group any cs negate) (.group any cs (!negate)) := by
  have toggled : ∃ e, (group any cs (!negate)).condition columns = .ok e :=
    exists_condition_group_iff.2 (exists_condition_group_iff.1 h)
  obtain ⟨e, h⟩ := h
  obtain ⟨e', h'⟩ := toggled
  refine ⟨e, e', h, h', ?_⟩
  obtain ⟨d, ds, hds, rfl⟩ := condition_group h
  obtain ⟨d', ds', hds', rfl⟩ := condition_group h'
  cases hds.symm.trans hds'
  cases negate with
  | false => exact .self_not _
  | true => exact (Expr.IsComplement.self_not _).symm

/-- Of a filter that has a condition, the dual has one, too.  All its parts and their duals are
complements exactly if none holds an array against a value or a taxon for equality, and a group is
the complement of the same group with the negation toggled. -/
theorem complements_iff {c : FilterClause} {e : Expr} (h : c.condition columns = .ok e) :
    (∃ e', c.dual.condition columns = .ok e') ∧
      ((∀ p ∈ c.parts, AreComplements columns p p.dual) ↔
        ∀ p ∈ c.parts, ¬p.EquatesArray columns) ∧
      ∀ any cs negate, group any cs negate ∈ c.parts →
        AreComplements columns (.group any cs negate) (.group any cs (!negate)) := by
  have each := exists_condition_of_mem_parts c ⟨e, h⟩
  refine ⟨exists_condition_dual ⟨e, h⟩, ⟨fun complements p hp array => ?_, fun plain => ?_⟩,
    fun any cs negate hp => areComplements_toggled (each _ hp)⟩
  · obtain ⟨d, d', hd, hd', complement⟩ := complements p hp
    exact not_isComplement_dual array hd hd' complement
  · intro p hp
    obtain ⟨d, hd⟩ := each p hp
    obtain ⟨d', hd'⟩ := exists_condition_dual ⟨d, hd⟩
    refine ⟨d, d', hd, hd', isComplement_dual p (fun q hq => plain q ?_) hd hd'⟩
    exact parts_subset_of_mem c hp hq

end

/-- `spend > 1 AND NOT (tags IN ('x') OR tags IS NULL)` and
`spend <= 1 OR NOT (tags NOT IN ('x') AND tags IS NOT NULL)`. -/
theorem complements_iff_spend :
    let columns : TaxonColumns :=
      .ofList [("spend", .ofSql (.col "spend")), ("tags", ⟨.col "tags", none, .array⟩)]
    let c : FilterClause :=
      .group false
        [.value "spend" .gt (some (.int 1)),
          .group true [.among "tags" false [.text "x"], .value "tags" .eq none] true] false
    AreComplements columns c c.dual := by
  intro columns c
  have checked : (c.condition columns).toOption.any (fun _ => true) = true := by decide +kernel
  obtain ⟨e, h, -⟩ := Result.ok_of_any checked
  obtain ⟨-, complements, -⟩ := complements_iff h
  refine complements.2 ?_ c (List.mem_cons_self ..)
  simp [c, parts, partsAll, EquatesArray, FilterOperator.IsEquality]

/-- A row whose tags are a list of texts; other columns are null. -/
def taggedRow (tags : List String) : Valuation (String ⊕ List String) where
  operand
    | .literal (.string s) => some (.inl s)
    | .column none "tags" => some (.inr tags)
    | _ => none
  compare a b := if a = b then .eq else .lt
  fits _ _ _ _ := false
  items
    | .inl _ => []
    | .inr ss => ss.map .inl

/-- A list that contains `'x'` equals `'x'` and differs from it. -/
theorem not_areComplements_tags :
    let columns : TaxonColumns := .ofList [("tags", ⟨.col "tags", none, .array⟩)]
    let c : FilterClause := .value "tags" .eq (some (.text "x"))
    ¬AreComplements columns c c.dual ∧ ∃ e e', c.condition columns = .ok e ∧
      c.dual.condition columns = .ok e' ∧ (taggedRow ["x"]).truth? e = some true ∧
        (taggedRow ["x"]).truth? e' = some true := by
  intro columns c
  have h : c.condition columns =
      .ok (.func "array_contains" [.func "to_variant" [.string "x"], .col "tags"]) := rfl
  have h' : c.dual.condition columns = .ok ((Expr.col "tags").ne (.string "x")) := rfl
  refine ⟨?_, _, _, h, h', by decide +kernel, by decide +kernel⟩
  rintro ⟨e, e', he, he', complement⟩
  cases h.symm.trans he
  cases h'.symm.trans he'
  exact absurd (complement _ (taggedRow ["x"])) (by decide +kernel)

end FilterClause

end SemanticLayer
