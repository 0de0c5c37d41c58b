import SemanticLayer.Proofs.Sql.Writing
import SemanticLayer.Sql.Query

/-!
# Parentheses of a statement

What is written closes every parenthesis that it opens.  So the clauses of a query stand on a level
of their own: the queries that it reads and the windows of its expressions are in parentheses.

* `TokenStream.IsNested`: closed parentheses, with none of some keywords outside of them;
* `TokenStream.outside`: what stands outside of parentheses;
* `Expr.isNested_tokens`: an expression has no clause of a query outside of its parentheses;
* `Query.isNested_bodyTokens`: the same for all that a query reads from, and for unions.
-/

namespace SemanticLayer.Sql

/-- The clauses that order and limit the rows of a query. -/
def Keyword.clauses : List Keyword := [.orderBy, .limit, .offset]

/-- Whether a token is no parenthesis, begins no list of common tables, and is none of some
keywords. -/
def Token.IsPlain (ks : List Keyword) : Token → Prop
  | .keyword k => k ≠ .withTables ∧ k ∉ ks
  | .symbol s => s ≠ .openParen ∧ s ≠ .closeParen
  | _ => True

instance (ks : List Keyword) : DecidablePred (Token.IsPlain ks) := fun t => by
  unfold Token.IsPlain
  cases t <;> infer_instance

namespace TokenStream

/-- Whether all parentheses are closed, no list of common tables begins anywhere, and outside of
parentheses there is none of some keywords. -/
inductive IsNested : List Keyword → TokenStream → Prop
  | nil {ks : List Keyword} : IsNested ks []
  | token {ks : List Keyword} {t : Token} (ht : t.IsPlain ks) : IsNested ks [t]
  | append {ks : List Keyword} {ts us : TokenStream} (hts : IsNested ks ts)
      (hus : IsNested ks us) : IsNested ks (ts ++ us)
  | parens {ks : List Keyword} {ts : TokenStream} (hts : IsNested [] ts) : IsNested ks (parens ts)

/-- What stands outside of parentheses, after so many that are still open. -/
def outside : Nat → TokenStream → TokenStream
  | _, [] => []
  | depth, t :: ts =>
    if t = .symbol .openParen then outside (depth + 1) ts
    else if t = .symbol .closeParen then outside (depth - 1) ts
    else if depth = 0 then t :: outside depth ts
    else outside depth ts

namespace IsNested

variable {ks : List Keyword} {ts us : TokenStream} {t : Token}

theorem words (h : ∀ t ∈ ts, t.IsPlain ks) : IsNested ks ts := by
  induction ts with
  | nil => exact .nil
  | cons t ts ih =>
    obtain ⟨first, rest⟩ := List.forall_mem_cons.1 h
    exact .append (.token first) (ih rest)

theorem cons (ht : t.IsPlain ks) (h : IsNested ks ts) : IsNested ks (t :: ts) :=
  .append (.token ht) h

/-- Streams in which some keywords are left out are ones in which fewer are. -/
theorem forget (h : IsNested ks ts) : IsNested [] ts := by
  induction h with
  | nil => exact .nil
  | @token ks t ht =>
    refine .token ?_
    cases t with
    | keyword k => exact ⟨ht.1, List.not_mem_nil⟩
    | symbol s => exact ht
    | _ => trivial
  | append _ _ hts hus => exact .append hts hus
  | parens hts => exact .parens hts

theorem parensIf {needed : Bool} (h : IsNested ks ts) : IsNested ks (parensIf needed ts) := by
  unfold TokenStream.parensIf
  split
  · exact .parens h.forget
  · exact h

theorem separated {separator : TokenStream} (hs : IsNested ks separator) :
    ∀ {tss : List TokenStream}, (∀ ts ∈ tss, IsNested ks ts) →
      IsNested ks (separated separator tss)
  | [], _ => .nil
  | [ts], h => h ts (List.mem_singleton_self ts)
  | ts :: _ :: _, h =>
    .append (.append (h ts (List.mem_cons_self ..)) hs)
      (separated hs fun vs hvs => h vs (List.mem_cons_of_mem _ hvs))

theorem commas {tss : List TokenStream} (h : ∀ ts ∈ tss, IsNested ks ts) :
    IsNested ks (commas tss) :=
  separated (words (by simp [Token.IsPlain])) h

theorem outside_append (h : IsNested ks ts) :
    (∀ us, outside 0 (ts ++ us) = outside 0 ts ++ outside 0 us) ∧
      ∀ depth us, outside (depth + 1) (ts ++ us) = outside (depth + 1) us := by
  induction h with
  | nil => exact ⟨fun us => rfl, fun depth us => rfl⟩
  | @token ks t ht =>
    have opens : t ≠ .symbol .openParen := by
      rintro rfl
      exact ht.1 rfl
    have closes : t ≠ .symbol .closeParen := by
      rintro rfl
      exact ht.2 rfl
    simp [outside, opens, closes]
  | @append ks ts us _ _ hts hus =>
    refine ⟨fun vs => ?_, fun depth vs => ?_⟩
    · rw [List.append_assoc, hts.1, hus.1, hts.1, List.append_assoc]
    · rw [List.append_assoc, hts.2, hus.2]
  | @parens ks ts _ hts =>
    have inner (depth : Nat) (us : TokenStream) :
        outside depth (TokenStream.parens ts ++ us) = outside depth us := by
      simp only [TokenStream.parens, List.append_assoc, List.cons_append, List.nil_append, outside,
        if_true, hts.2]
      rw [if_neg (by decide)]
      rfl
    refine ⟨fun us => ?_, fun depth us => inner _ us⟩
    have alone := inner 0 []
    rw [List.append_nil] at alone
    rw [inner, alone]
    rfl

theorem outside_parens (h : IsNested [] ts) : outside 0 (TokenStream.parens ts) = [] := by
  simp only [TokenStream.parens, List.cons_append, outside, if_true, h.outside_append.2]
  rfl

/-- The keywords that are left out do not stand outside of parentheses. -/
theorem notMem_outside (h : IsNested ks ts) {k : Keyword} (hk : k ∈ ks) :
    Token.keyword k ∉ outside 0 ts := by
  induction h with
  | nil => exact List.not_mem_nil
  | @token ks t ht =>
    intro h
    have h : Token.keyword k ∈ [t] := by
      simp only [outside] at h
      split at h
      · cases h
      · split at h
        · cases h
        · exact h
    cases List.mem_singleton.1 h
    exact ht.2 hk
  | append hts _ ihts ihus =>
    rw [hts.outside_append.1, List.mem_append, not_or]
    exact ⟨ihts hk, ihus hk⟩
  | parens hts =>
    rw [outside_parens hts]
    exact List.not_mem_nil

end IsNested

theorem isNested_orderSuffix (d : Dialect) (direction? : Option SortDirection)
    (nulls? : Option NullsPlacement) : IsNested Keyword.clauses (orderSuffix d direction? nulls?) := by
  refine .words ?_
  unfold orderSuffix
  rcases direction? with _ | (_ | _) <;> rcases nulls? with _ | (_ | _) <;>
    cases d.ordersNulls <;> decide

theorem isNested_frame (f : Frame) : IsNested [] f.tokens := by
  have bound (b : FrameBound) : IsNested [] b.tokens := by
    cases b <;> exact .words (by decide)
  unfold Frame.tokens
  split
  · exact .append (.words (by decide)) (bound _)
  · exact .append (.append (.append (.words (by decide)) (bound _)) (.words (by decide))) (bound _)

/-- A window has an order of its own, within its parentheses. -/
theorem isNested_windowParts {partition order : List TokenStream} (frame? : Option Frame)
    (hp : ∀ ts ∈ partition, IsNested [] ts) (ho : ∀ ts ∈ order, IsNested [] ts) :
    IsNested [] (windowParts partition order frame?) := by
  refine .separated (.words (by decide)) fun ts hts => ?_
  rcases List.mem_append.1 hts with hts | hts
  · rcases List.mem_append.1 hts with hts | hts <;> split at hts
    · cases hts
    · rw [List.mem_singleton.1 hts]
      exact .append (.words (by decide)) (.commas hp)
    · cases hts
    · rw [List.mem_singleton.1 hts]
      exact .append (.words (by decide)) (.commas ho)
  · split at hts
    · rw [List.mem_singleton.1 hts]
      exact isNested_frame _
    · cases hts

end TokenStream

open TokenStream (IsNested isNested_orderSuffix)

namespace Expr

variable {d : Dialect}

theorem isNested_branchTokens {bs : List (Expr × Expr)}
    (h : ∀ b ∈ bs, IsNested Keyword.clauses (b.1.tokens d) ∧ IsNested Keyword.clauses (b.2.tokens d)) :
    IsNested Keyword.clauses (branchTokens d bs) := by
  induction bs with
  | nil => exact .nil
  | cons b bs ih =>
    obtain ⟨⟨condition, value⟩, rest⟩ := List.forall_mem_cons.1 h
    exact .append (.append (.append (.append (.words (by decide)) condition) (.words (by decide)))
      value) (ih rest)

/-- An expression holds no query, and windows stand in parentheses. -/
theorem isNested_tokens (d : Dialect) (e : Expr) : IsNested Keyword.clauses (e.tokens d) := by
  induction e using parts_induction with
  | step e ih =>
    have each {es : List Expr} (h : es ⊆ e.parts) :
        ∀ ts ∈ tokensEach d es, IsNested Keyword.clauses ts := by
      intro ts hts
      rw [tokensEach_eq] at hts
      obtain ⟨x, hx, rfl⟩ := List.mem_map.1 hts
      exact ih x (h hx)
    cases e with
    | binary l op r =>
      have left := ih l (List.mem_cons_self ..)
      have right := ih r (List.mem_cons_of_mem _ (List.mem_cons_self ..))
      rw [tokens]
      exact .append (.append left.parensIf (.words (by cases op <;> decide))) right.parensIf
    | unary op e =>
      have operand := ih e (List.mem_cons_self ..)
      cases op with
      | not =>
        rw [tokens]
        exact .append (.words (by decide)) operand.parensIf
      | minus =>
        rw [tokens]
        exact .cons (by decide) operand.parensIf
    | call n args distinct =>
      have args := IsNested.commas (each fun _ => id)
      rw [tokens]
      refine .cons trivial (.parens (.append ?_ args.forget))
      cases distinct <;> exact .words (by decide)
    | case operand? branches otherwise? =>
      have after (lead : TokenStream) (hl : IsNested Keyword.clauses lead) {x? : Option Expr}
          (h : ∀ x ∈ x?, IsNested Keyword.clauses (x.tokens d)) :
          IsNested Keyword.clauses (tokensAfter d lead x?) := by
        cases x? with
        | none => exact .nil
        | some x => exact .append hl (h x rfl)
      have branch (b : Expr × Expr) (hb : b ∈ branches) :
          IsNested Keyword.clauses (b.1.tokens d) ∧ IsNested Keyword.clauses (b.2.tokens d) := by
        refine ⟨ih _ ?_, ih _ ?_⟩ <;> simp only [parts, List.mem_append, List.mem_flatMap]
        · exact .inl (.inr ⟨b, hb, List.mem_cons_self ..⟩)
        · exact .inl (.inr ⟨b, hb, List.mem_cons_of_mem _ (List.mem_cons_self ..)⟩)
      have operand := after [.space] (.words (by decide)) fun x (hx : x ∈ operand?) =>
        ih x (by simp [parts, Option.mem_def.1 hx])
      have otherwise := after [.space, .keyword .elseValue, .space] (.words (by decide))
        fun x (hx : x ∈ otherwise?) => ih x (by simp [parts, Option.mem_def.1 hx])
      rw [tokens]
      exact .append (.append (.append (.cons (by decide) operand) (isNested_branchTokens branch))
        otherwise) (.words (by decide))
    | cast e t =>
      have operand := ih e (List.mem_cons_self ..)
      rw [tokens]
      exact .cons (by decide) (.parens (.append operand.forget (.words (by simp [Token.IsPlain]))))
    | extract f e =>
      have operand := ih e (List.mem_cons_self ..)
      rw [tokens]
      exact .cons (by decide) (.parens (.append (.words (by simp [Token.IsPlain])) operand.forget))
    | inList e vs negated =>
      have operand := ih e (List.mem_cons_self ..)
      have values := IsNested.commas (each (List.subset_cons_self e vs))
      rw [tokens]
      split
      · cases negated <;> exact .words (by decide)
      · refine .append (.append (.append operand ?_) (.words (by decide))) (.parens values.forget)
        cases negated <;> exact .words (by decide)
    | isNull e negated =>
      have operand := ih e (List.mem_cons_self ..)
      rw [tokens]
      refine .append operand.parensIf ?_
      cases negated <;> exact .words (by decide)
    | like e p c negated ignoreCase =>
      have value := ih e (List.mem_cons_self ..)
      have pattern := ih p (List.mem_cons_of_mem _ (List.mem_cons_self ..))
      rw [tokens]
      refine .append (.append (.append (.append value ?_) ?_) pattern) (.words ?_)
      · cases negated <;> exact .words (by decide)
      · cases ignoreCase <;> exact .words (by decide)
      · simp [Token.IsPlain, Keyword.clauses]
    | paren e =>
      rw [tokens]
      exact .parens (ih e (List.mem_cons_self ..)).forget
    | window f ps os frame? =>
      have function := ih f (List.mem_cons_self ..)
      have order : ∀ ts ∈ orderTokens d os, IsNested [] ts := by
        intro ts hts
        rw [orderTokens_eq] at hts
        obtain ⟨o, ho, rfl⟩ := List.mem_map.1 hts
        refine .append (IsNested.forget (ih o.key ?_)) (isNested_orderSuffix d _ _).forget
        exact List.mem_cons_of_mem _ (List.mem_append_right _ (List.mem_map_of_mem ho))
      have partition : ps ⊆ (window f ps os frame?).parts := fun x hx =>
        List.mem_cons_of_mem _ (List.mem_append_left _ hx)
      rw [tokens]
      refine .append (.append function (.words (by decide))) (.parens ?_)
      exact TokenStream.isNested_windowParts frame? (fun ts hts => (each partition ts hts).forget)
        order
    | list es =>
      rw [tokens]
      exact .commas (each fun _ => id)
    | column | literal | dialectCall | placeholder | raw =>
      rw [tokens]
      exact .token trivial

end Expr

namespace Query

variable {d : Dialect}

theorem isNested_orderTokens (d : Dialect) (order : List (Ordered Expr)) :
    IsNested Keyword.clauses (TokenStream.commas (Expr.orderTokens d order)) := by
  refine .commas fun ts hts => ?_
  rw [Expr.orderTokens_eq] at hts
  obtain ⟨o, _, rfl⟩ := List.mem_map.1 hts
  exact .append (o.key.isNested_tokens d) (isNested_orderSuffix d _ _)

theorem isNested_conditionTokens (d : Dialect) (condition? : Option Expr) (grouping : List Expr) :
    IsNested Keyword.clauses (conditionTokens d condition? grouping []) := by
  have groups : IsNested Keyword.clauses (TokenStream.commas (grouping.map (Expr.tokens d))) :=
    .commas fun ts hts => by
      obtain ⟨e, _, rfl⟩ := List.mem_map.1 hts
      exact e.isNested_tokens d
  unfold conditionTokens
  refine .append (.append ?_ ?_) .nil
  · split
    · exact .append (.words (by decide)) (Expr.isNested_tokens d _)
    · exact .nil
  · split
    · exact .nil
    · exact .append (.words (by decide)) groups

theorem isNested_itemTokens (d : Dialect) (items : List SelectItem) :
    IsNested Keyword.clauses (itemTokens d items) := by
  have item (i : SelectItem) : IsNested Keyword.clauses (i.tokens d) := by
    unfold SelectItem.tokens
    refine .append (i.expr.isNested_tokens d) ?_
    split
    · exact .words (by simp [Token.IsPlain, Keyword.clauses])
    · exact .nil
  unfold itemTokens
  refine .cons (by decide) ?_
  split
  · exact .words (by decide)
  · refine .append (.words (by decide)) (.separated (.words (by decide)) fun ts hts => ?_)
    obtain ⟨i, _, rfl⟩ := List.mem_map.1 hts
    exact item i

theorem isNested_pagingTokens (limit? offset? : Option UInt64) :
    IsNested [] (pagingTokens limit? offset?) := by
  refine .words ?_
  unfold pagingTokens
  split <;> simp [countToken, Token.IsPlain]

/-- The clauses of a selection before its order. -/
def frontTokens (d : Dialect) (q : Query) : TokenStream :=
  itemTokens d q.items ++ sourceTokens? d q.source? ++ joinTokens d q.joins ++
    conditionTokens d q.condition? q.grouping []

/-- The order of a selection. -/
def orderClause (d : Dialect) (order : List (Ordered Expr)) : TokenStream :=
  if order.isEmpty then []
  else clause .orderBy (TokenStream.commas (Expr.orderTokens d order))

theorem bodyTokens_of_select {q : Query} (h : q.union? = none) :
    q.bodyTokens d =
      q.frontTokens d ++ orderClause d q.order ++ pagingTokens q.limit? q.offset? := by
  obtain ⟨_, items, source?, joins, condition?, grouping, order, limit?, offset?, union?⟩ := q
  cases h
  rw [bodyTokens, unionTokens, frontTokens, orderClause]
  simp [conditionTokens, List.append_assoc]

theorem bodyTokens_of_union {q : Query} {qs : List Query} (h : q.union? = some qs) :
    q.bodyTokens d = TokenStream.separated [.newline, .keyword .union, .space, .keyword .all, .newline]
      (bodiesInParens d qs) := by
  obtain ⟨_, items, source?, joins, condition?, grouping, order, limit?, offset?, union?⟩ := q
  cases h
  rw [bodyTokens, unionTokens]

theorem isNested_orderClause (d : Dialect) (order : List (Ordered Expr)) :
    IsNested [] (orderClause d order) := by
  unfold orderClause
  split
  · exact .nil
  · exact .append (.words (by decide)) (isNested_orderTokens d order).forget

mutual

/-- The parentheses of a query are closed. -/
theorem isNested_bodyTokens (d : Dialect) : ∀ q : Query, IsNested [] (q.bodyTokens d)
  | ⟨tables, items, source?, joins, condition?, grouping, order, limit?, offset?, none⟩ => by
    rw [bodyTokens_of_select rfl, frontTokens]
    have front := IsNested.append (IsNested.append (IsNested.append (isNested_itemTokens d items)
      (isNested_sourceTokens? d source?)) (isNested_joinTokens d joins))
      (isNested_conditionTokens d condition? grouping)
    exact .append (.append front.forget (isNested_orderClause d order))
      (isNested_pagingTokens limit? offset?)
  | ⟨_, _, _, _, _, _, _, _, _, some qs⟩ => by
    rw [bodyTokens_of_union rfl]
    exact (IsNested.separated (.words (by decide)) (isNested_bodiesInParens d qs)).forget

/-- The queries of a union stand in parentheses. -/
theorem isNested_bodiesInParens (d : Dialect) :
    ∀ qs : List Query, ∀ ts ∈ bodiesInParens d qs, IsNested Keyword.clauses ts
  | [] => by
    rw [bodiesInParens]
    exact List.forall_mem_nil _
  | q :: qs => by
    rw [bodiesInParens]
    exact List.forall_mem_cons.2
      ⟨.parens (isNested_bodyTokens d q), isNested_bodiesInParens d qs⟩

theorem isNested_sourceTokens? (d : Dialect) :
    ∀ t? : Option TableRef, IsNested Keyword.clauses (sourceTokens? d t?)
  | none => by
    rw [sourceTokens?]
    exact .nil
  | some t => by
    rw [sourceTokens?]
    exact .append (.words (by decide)) (isNested_refTokens d t)

theorem isNested_refTokens (d : Dialect) :
    ∀ t : TableRef, IsNested Keyword.clauses (refTokens d t)
  | ⟨source, alias?⟩ => by
    rw [refTokens]
    refine .append (isNested_sourceTokens d source) ?_
    cases alias? <;> exact .words (by simp [aliasTokens, Token.IsPlain, Keyword.clauses])

theorem isNested_sourceTokens (d : Dialect) :
    ∀ s : TableSource, IsNested Keyword.clauses (sourceTokens d s)
  | .table parts => by
    rw [sourceTokens]
    refine .separated (.words (by decide)) fun ts hts => ?_
    obtain ⟨p, _, rfl⟩ := List.mem_map.1 hts
    exact .token trivial
  | .subquery q => by
    rw [sourceTokens]
    exact .parens (.append (.append (.words (by decide)) (isNested_bodyTokens d q))
      (.words (by decide)))

theorem isNested_joinTokens (d : Dialect) :
    ∀ js : List Join, IsNested Keyword.clauses (joinTokens d js)
  | [] => by
    rw [joinTokens]
    exact .nil
  | ⟨kind, table, condition⟩ :: js => by
    rw [joinTokens]
    exact .append (.append (.append (.append (.words (by cases kind <;> decide))
      (isNested_refTokens d table)) (.words (by decide))) (condition.isNested_tokens d))
      (isNested_joinTokens d js)

end

/-- The clauses of a selection before its order have no order and no count of their own. -/
theorem isNested_frontTokens (d : Dialect) (q : Query) :
    IsNested Keyword.clauses (q.frontTokens d) :=
  .append (.append (.append (isNested_itemTokens d q.items) (isNested_sourceTokens? d q.source?))
    (isNested_joinTokens d q.joins)) (isNested_conditionTokens d q.condition? q.grouping)

/-- A union has no order and no count of its own. -/
theorem isNested_bodyTokens_union {q : Query} {qs : List Query} (h : q.union? = some qs) :
    IsNested Keyword.clauses (q.bodyTokens d) := by
  rw [bodyTokens_of_union h]
  exact .separated (.words (by decide)) (isNested_bodiesInParens d qs)

theorem isNested_tableTokens (d : Dialect) (t : CommonTable) :
    IsNested Keyword.clauses (tableTokens d t) :=
  .append (.words (by simp [Token.IsPlain, Keyword.clauses]))
    (.parens (.append (.append (.words (by decide)) (isNested_bodyTokens d t.query))
      (.words (by decide))))

end Query

end SemanticLayer.Sql
