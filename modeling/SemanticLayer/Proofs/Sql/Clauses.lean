import Mathlib.Data.List.Infix
import SemanticLayer.Proofs.Sql.Nesting
import SemanticLayer.Proofs.Sql.Parts

/-!
# Orders and counts of a statement

A selection is ordered and limited at its end, on its own level.  A union is written as its members
only, without an order or counts of its own, and a count is written as a number with a sign.

* `Query.ShowsClauses`: whether a statement shows what its query is ordered and limited by;
* `Query.KeepsClauses`: whether a query has no order and no counts that go missing;
* `Query.showsClauses_iff`: the body of a query shows its clauses exactly then;
* `Query.Writes`: the queries whose bodies stand in parentheses within a statement;
* `Query.tokens_showClauses_iff`: the clauses of a statement and of all queries in it.
-/

namespace SemanticLayer.Sql

namespace TokenStream

/-- Whether a stream has no order and no count outside of parentheses, and closes all of these. -/
def LeavesClauses (lead : TokenStream) : Prop :=
  ∃ own, (∀ k ∈ Keyword.clauses, Token.keyword k ∉ own) ∧
    ∀ us, outside 0 (lead ++ us) = own ++ outside 0 us

namespace LeavesClauses

variable {lead ts us : TokenStream}

theorem of_isNested (h : IsNested Keyword.clauses ts) : LeavesClauses ts :=
  ⟨outside 0 ts, fun _ hk => h.notMem_outside hk, h.outside_append.1⟩

theorem append (hts : LeavesClauses ts) (hus : LeavesClauses us) : LeavesClauses (ts ++ us) := by
  obtain ⟨own, none, first⟩ := hts
  obtain ⟨own', none', rest⟩ := hus
  refine ⟨own ++ own', fun k hk => ?_, fun vs => ?_⟩
  · rw [List.mem_append, not_or]
    exact ⟨none k hk, none' k hk⟩
  · rw [List.append_assoc, first, rest, List.append_assoc]

/-- A list of common tables may begin before it. -/
theorem withTables (h : LeavesClauses ts) : LeavesClauses (.keyword .withTables :: ts) := by
  obtain ⟨own, none, rest⟩ := h
  refine ⟨.keyword .withTables :: own, fun k hk => ?_, fun us => ?_⟩
  · rw [List.mem_cons, not_or]
    refine ⟨?_, none k hk⟩
    rintro ⟨⟩
    revert hk
    decide
  · simp [outside, rest]

theorem count_outside (h : LeavesClauses lead) {k : Keyword} (hk : k ∈ Keyword.clauses) :
    (outside 0 (lead ++ ts)).count (.keyword k) = (outside 0 ts).count (.keyword k) := by
  obtain ⟨own, none, rest⟩ := h
  rw [rest, List.count_append, List.count_eq_zero.2 (none k hk), Nat.zero_add]

end LeavesClauses

end TokenStream

namespace Query

open TokenStream (outside IsNested LeavesClauses)

variable {d : Dialect} {q s t : Query} {ts : TokenStream}

/-! ## Counts -/

/-- A count in decimal. -/
def decimal (n : UInt64) : String := toString n.toNat

/-- Whether a stream says how many rows are taken and left out, in decimal. -/
def SaysPaging (d : Dialect) : Option UInt64 → Option UInt64 → TokenStream → Prop
  | none, none, ts => ts = []
  | some n, none, ts => ∃ t, t.text d = decimal n ∧ ts = [.newline, .keyword .limit, .space, t]
  | none, some m, ts => ∃ u, u.text d = decimal m ∧ ts = [.newline, .keyword .offset, .space, u]
  | some n, some m, ts => ∃ t u, t.text d = decimal n ∧ u.text d = decimal m ∧
      ts = [.newline, .keyword .limit, .space, t, .space, .keyword .offset, .space, u]

theorem toInt_toInt64 (n : UInt64) :
    n.toInt64.toInt =
      if n.toNat < 0x8000000000000000 then (n.toNat : Int) else n.toNat - 0x10000000000000000 := by
  have value : n.toInt64.toInt = if 2 * n.toNat < 0x10000000000000000 then (n.toNat : Int)
      else n.toNat - (0x10000000000000000 : Nat) := BitVec.toInt_eq_toNat_cond n.toBitVec
  rw [value]
  by_cases small : n.toNat < 0x8000000000000000
  · rw [if_pos small, if_pos (by omega)]
  · rw [if_neg small, if_neg (by omega)]
    rfl

/-- A count is written in decimal as long as the sign bit is not needed for it. -/
theorem text_countToken_iff {n : UInt64} :
    (countToken n).text d = decimal n ↔ n.toNat < 0x8000000000000000 := by
  change toString n.toInt64.toInt = decimal n ↔ _
  rw [toInt_toInt64]
  split
  · rename_i small
    exact iff_of_true rfl small
  · rename_i large
    refine iff_of_false (fun same => ?_) large
    have bound := n.toNat_lt
    obtain ⟨k, negative⟩ : ∃ k, (n.toNat : Int) - 0x10000000000000000 = Int.negSucc k :=
      Int.eq_negSucc_of_lt_zero (by omega)
    rw [negative] at same
    have signed : '-' ∈ (decimal n).toList := by
      rw [← same]
      change '-' ∈ ("-" ++ toString (k + 1)).toList
      rw [String.toList_append]
      exact List.mem_append_left _ (List.mem_singleton_self _)
    have digits : (decimal n).toList = Nat.toDigits 10 n.toNat := String.toList_ofList
    rw [digits] at signed
    exact absurd (Nat.isDigit_of_mem_toDigits (by decide) (by decide) signed) (by decide)

theorem saysPaging_iff {limit? offset? : Option UInt64} :
    SaysPaging d limit? offset? (pagingTokens limit? offset?) ↔
      ∀ n, limit? = some n ∨ offset? = some n → n.toNat < 0x8000000000000000 := by
  have one {n : UInt64} {k : Keyword} : (∃ t : Token, t.text d = decimal n ∧
      ([.newline, .keyword k, .space, countToken n] : TokenStream) =
        [.newline, .keyword k, .space, t]) ↔ n.toNat < 0x8000000000000000 := by
    rw [← text_countToken_iff (d := d)]
    constructor
    · rintro ⟨t, said, same⟩
      cases same
      exact said
    · exact fun said => ⟨_, said, rfl⟩
  cases limit? with
  | none =>
    cases offset? with
    | none =>
      refine iff_of_true rfl fun n h => ?_
      rcases h with h | h <;> cases h
    | some m =>
      refine one.trans ⟨fun small n h => ?_, fun h => h m (.inr rfl)⟩
      rcases h with h | h <;> cases h
      exact small
  | some n =>
    cases offset? with
    | none =>
      refine one.trans ⟨fun small n h => ?_, fun h => h n (.inl rfl)⟩
      rcases h with h | h <;> cases h
      exact small
    | some m =>
      constructor
      · rintro ⟨t, u, first, second, same⟩
        cases same
        intro n h
        rcases h with h | h <;> cases h
        · exact text_countToken_iff.1 first
        · exact text_countToken_iff.1 second
      · intro h
        exact ⟨_, _, text_countToken_iff.2 (h n (.inl rfl)), text_countToken_iff.2 (h m (.inr rfl)),
          rfl⟩

theorem SaysPaging.length {limit? offset? : Option UInt64} (h : SaysPaging d limit? offset? ts) :
    ts.length = (pagingTokens limit? offset?).length := by
  cases limit? with
  | none =>
    cases offset? with
    | none =>
      cases h
      rfl
    | some m =>
      obtain ⟨u, _, rfl⟩ := h
      rfl
  | some n =>
    cases offset? with
    | none =>
      obtain ⟨t, _, rfl⟩ := h
      rfl
    | some m =>
      obtain ⟨t, u, _, _, rfl⟩ := h
      rfl

/-! ## The clauses of one query -/

/-- Whether a stream shows what a query is ordered and limited by: all of it at the end, with counts
in decimal, and outside of parentheses each keyword once if it is set, and else not at all. -/
structure ShowsClauses (d : Dialect) (q : Query) (ts : TokenStream) : Prop where
  ends : ∃ front paging, ts = front ++ orderClause d q.order ++ paging ∧
    SaysPaging d q.limit? q.offset? paging
  order : (outside 0 ts).count (.keyword .orderBy) = if q.order = [] then 0 else 1
  limit : (outside 0 ts).count (.keyword .limit) = if q.limit? = none then 0 else 1
  offset : (outside 0 ts).count (.keyword .offset) = if q.offset? = none then 0 else 1

/-- Whether a query has no order and no counts that go missing: none as a union, and none that needs
the sign bit. -/
structure KeepsClauses (q : Query) : Prop where
  union : q.union?.isSome = true → q.order = [] ∧ q.limit? = none ∧ q.offset? = none
  counts : ∀ n, q.limit? = some n ∨ q.offset? = some n → n.toNat < 0x8000000000000000

theorem outside_orderClause (d : Dialect) (order : List (Ordered Expr)) {k : Keyword}
    (hk : k ∈ Keyword.clauses) :
    (outside 0 (orderClause d order)).count (.keyword k) =
      if k = .orderBy ∧ order ≠ [] then 1 else 0 := by
  have keys := List.count_eq_zero.2 ((isNested_orderTokens d order).notMem_outside hk)
  unfold orderClause
  cases order with
  | nil => simp [outside]
  | cons o order =>
    rw [List.isEmpty_cons, if_neg Bool.false_ne_true, clause]
    simp only [List.cons_append, List.nil_append, outside, reduceCtorEq, if_false, if_true,
      List.count_cons, keys]
    by_cases own : k = .orderBy
    · simp [own]
    · have other : Token.keyword .orderBy ≠ .keyword k := fun same => own (Token.keyword.inj same).symm
      simp [own, other]

theorem outside_pagingTokens (limit? offset? : Option UInt64) :
    outside 0 (pagingTokens limit? offset?) = pagingTokens limit? offset? := by
  unfold pagingTokens countToken
  split <;> simp [outside]

/-- The keywords of a selection outside of its parentheses. -/
theorem count_outside_select {lead : TokenStream} (hl : LeavesClauses lead)
    (select : q.union? = none) {k : Keyword} (hk : k ∈ Keyword.clauses) :
    (outside 0 (lead ++ q.bodyTokens d)).count (.keyword k) =
      (if k = .orderBy ∧ q.order ≠ [] then 1 else 0) +
        (pagingTokens q.limit? q.offset?).count (.keyword k) := by
  have front := LeavesClauses.of_isNested (isNested_frontTokens d q)
  rw [hl.count_outside hk, bodyTokens_of_select select, List.append_assoc, front.count_outside hk,
    (isNested_orderClause d q.order).outside_append.1, List.count_append,
    outside_orderClause d q.order hk, outside_pagingTokens]

/-- After a lead without clauses, the body of a query shows its order and counts exactly if none of
them goes missing. -/
theorem showsClauses_iff {lead : TokenStream} (hl : LeavesClauses lead) :
    ShowsClauses d q (lead ++ q.bodyTokens d) ↔ q.KeepsClauses := by
  cases union : q.union? with
  | none =>
    have body := bodyTokens_of_select (d := d) union
    constructor
    · intro h
      obtain ⟨front, paging, same, paged⟩ := h.ends
      refine ⟨fun some => absurd some (by rw [union]; decide), ?_⟩
      rw [body, ← List.append_assoc] at same
      obtain ⟨_, rfl⟩ := List.append_inj' same paged.length.symm
      exact saysPaging_iff.1 paged
    · intro h
      have each {k : Keyword} (hk : k ∈ Keyword.clauses) :=
        count_outside_select (d := d) hl union hk
      refine ⟨⟨lead ++ q.frontTokens d, _, ?_, saysPaging_iff.2 h.counts⟩, ?_, ?_, ?_⟩
      · rw [body]
        simp only [List.append_assoc]
      · rw [each (by decide)]
        unfold pagingTokens
        cases q.order <;> cases q.limit? <;> cases q.offset? <;> simp [countToken]
      · rw [each (by decide)]
        unfold pagingTokens
        cases q.limit? <;> cases q.offset? <;> simp [countToken]
      · rw [each (by decide)]
        unfold pagingTokens
        cases q.limit? <;> cases q.offset? <;> simp [countToken]
  | some qs =>
    have body : IsNested Keyword.clauses (q.bodyTokens d) := isNested_bodyTokens_union union
    have absent {k : Keyword} (hk : k ∈ Keyword.clauses) :
        (outside 0 (lead ++ q.bodyTokens d)).count (.keyword k) = 0 := by
      rw [hl.count_outside hk]
      exact List.count_eq_zero.2 (body.notMem_outside hk)
    constructor
    · intro h
      have order := h.order
      have limit := h.limit
      have offset := h.offset
      rw [absent (by decide)] at order limit offset
      have unset {p : Prop} [Decidable p] (h : 0 = if p then 0 else 1) : p := by
        by_contra set
        rw [if_neg set] at h
        cases h
      refine ⟨fun _ => ⟨unset order, unset limit, unset offset⟩, fun n set => ?_⟩
      rw [unset limit, unset offset] at set
      rcases set with set | set <;> cases set
    · intro h
      obtain ⟨order, limit, offset⟩ := h.union (by rw [union]; rfl)
      refine ⟨⟨lead ++ q.bodyTokens d, [], ?_, ?_⟩, ?_, ?_, ?_⟩
      · rw [order, List.append_nil]
        exact (List.append_nil _).symm
      · rw [limit, offset]
        rfl
      · rw [absent (by decide), if_pos order]
      · rw [absent (by decide), if_pos limit]
      · rw [absent (by decide), if_pos offset]

/-! ## The queries within a statement -/

/-- The queries that are written directly in the body of a query: the members of a union, else those
that a selection reads. -/
def bodies (q : Query) : List Query :=
  match q.union? with
  | some qs => qs
  | none => q.sources.filterMap TableSource.query?

/-- Whether a query is written within the body of another, however deep. -/
inductive Encloses : Query → Query → Prop
  | here {q s : Query} (h : s ∈ q.bodies) : Encloses q s
  | deeper {q s t : Query} (h : s ∈ q.bodies) (below : Encloses s t) : Encloses q t

/-- Whether a query is written within the statement of another: within its body, as one of its common
tables, or within one of these. -/
inductive Writes (q : Query) : Query → Prop
  | body {s : Query} (h : q.Encloses s) : Writes q s
  | table {t : CommonTable} (ht : t ∈ q.allTables []) : Writes q t.query
  | inTable {t : CommonTable} {s : Query} (ht : t ∈ q.allTables []) (h : t.query.Encloses s) :
    Writes q s

/-- Whether the body of a query stands in parentheses of its own in a stream. -/
def StandsIn (d : Dialect) (s : Query) (ts : TokenStream) : Prop :=
  ∃ gap : TokenStream, (gap = [] ∨ gap = [.newline]) ∧
    TokenStream.parens (gap ++ s.bodyTokens d ++ gap) <:+: ts

namespace StandsIn

theorem trans {us : TokenStream} (h : s.StandsIn d ts) (hts : ts <:+: us) : s.StandsIn d us := by
  obtain ⟨gap, blank, stands⟩ := h
  exact ⟨gap, blank, stands.trans hts⟩

theorem isInfix (h : s.StandsIn d ts) : s.bodyTokens d <:+: ts := by
  obtain ⟨gap, _, stands⟩ := h
  refine List.IsInfix.trans ?_ stands
  refine ⟨.symbol .openParen :: gap, gap ++ [.symbol .closeParen], ?_⟩
  simp [TokenStream.parens]

end StandsIn

theorem isInfix_separated {separator : TokenStream} {tss : List TokenStream} (h : ts ∈ tss) :
    ts <:+: TokenStream.separated separator tss := by
  induction tss with
  | nil => cases h
  | cons us tss ih =>
    cases tss with
    | nil =>
      cases List.mem_singleton.1 h
      exact List.infix_rfl
    | cons vs tss =>
      rcases List.mem_cons.1 h with rfl | h
      · exact ((List.prefix_append _ _).trans (List.prefix_append _ _)).isInfix
      · exact (ih h).trans (List.suffix_append _ _).isInfix

theorem mem_bodiesInParens {qs : List Query} (h : s ∈ qs) :
    TokenStream.parens (s.bodyTokens d) ∈ bodiesInParens d qs := by
  induction qs with
  | nil => cases h
  | cons q qs ih =>
    rw [bodiesInParens]
    rcases List.mem_cons.1 h with rfl | h
    · exact List.mem_cons_self ..
    · exact List.mem_cons_of_mem _ (ih h)

theorem isInfix_joinTokens {js : List Join} {j : Join} (h : j ∈ js) :
    refTokens d j.table <:+: joinTokens d js := by
  induction js with
  | nil => cases h
  | cons k js ih =>
    obtain ⟨kind, table, condition⟩ := k
    rw [joinTokens]
    rcases List.mem_cons.1 h with rfl | h
    · rw [List.append_assoc, List.append_assoc]
      exact List.infix_append _ _ _
    · exact (ih h).trans (List.suffix_append _ _).isInfix

/-- What a selection reads is written before its order. -/
theorem isInfix_frontTokens {t : TableRef} (h : t ∈ q.source?.toList ++ q.joins.map (·.table)) :
    refTokens d t <:+: q.frontTokens d := by
  unfold frontTokens
  rcases List.mem_append.1 h with h | h
  · have source : refTokens d t <:+: sourceTokens? d q.source? := by
      rw [Option.mem_toList] at h
      rw [h, sourceTokens?]
      exact (List.suffix_append _ _).isInfix
    rw [List.append_assoc, List.append_assoc]
    exact source.trans (List.infix_append' _ _ _)
  · obtain ⟨j, hj, rfl⟩ := List.mem_map.1 h
    rw [List.append_assoc]
    exact (isInfix_joinTokens hj).trans (List.infix_append' _ _ _)

theorem standsIn_of_mem_bodies (h : s ∈ q.bodies) : s.StandsIn d (q.bodyTokens d) := by
  unfold bodies at h
  split at h
  · rename_i qs union
    rw [bodyTokens_of_union union]
    refine ⟨[], .inl rfl, ?_⟩
    rw [List.nil_append, List.append_nil]
    exact isInfix_separated (mem_bodiesInParens h)
  · rename_i select
    obtain ⟨source, hsource, own⟩ := List.mem_filterMap.1 h
    obtain ⟨⟨read, alias?⟩, ht, rfl⟩ := List.mem_map.1 hsource
    cases read with
    | table parts => cases own
    | subquery q' =>
      cases own
      have written := isInfix_frontTokens (d := d) ht
      rw [refTokens, sourceTokens] at written
      rw [bodyTokens_of_select select, List.append_assoc]
      refine ⟨[.newline], .inr rfl, ?_⟩
      exact ((List.prefix_append _ _).isInfix.trans written).trans (List.prefix_append _ _).isInfix

theorem Encloses.standsIn (h : q.Encloses s) : s.StandsIn d (q.bodyTokens d) := by
  induction h with
  | here h => exact standsIn_of_mem_bodies h
  | deeper h _ ih => exact ih.trans (standsIn_of_mem_bodies h).isInfix

theorem standsIn_tableTokens (t : CommonTable) : t.query.StandsIn d (tableTokens d t) :=
  ⟨[.newline], .inr rfl, (List.suffix_append _ _).isInfix⟩

theorem isInfix_tokens {t : CommonTable} (ht : t ∈ q.allTables []) :
    tableTokens d t <:+: q.tokens d := by
  unfold tokens
  have some : (q.allTables []).isEmpty = false := by
    cases tables : q.allTables [] with
    | nil =>
      rw [tables] at ht
      cases ht
    | cons => rfl
  simp only [some, Bool.false_eq_true, if_false]
  have listed : tableTokens d t <:+: TokenStream.separated [.symbol .comma, .newline]
      ((q.allTables []).map (tableTokens d)) := isInfix_separated (List.mem_map_of_mem ht)
  refine listed.trans ?_
  rw [List.append_assoc]
  exact List.infix_append _ _ _

theorem Writes.standsIn (h : q.Writes s) : s.StandsIn d (q.tokens d) := by
  cases h with
  | body h => exact h.standsIn.trans (List.suffix_append _ _).isInfix
  | table ht => exact (standsIn_tableTokens _).trans (isInfix_tokens ht)
  | @inTable t s ht h =>
    exact (h.standsIn.trans (standsIn_tableTokens t).isInfix).trans (isInfix_tokens ht)

/-- Before the body of a query stand only its common tables. -/
theorem exists_lead (d : Dialect) (q : Query) :
    ∃ lead, LeavesClauses lead ∧ q.tokens d = lead ++ q.bodyTokens d := by
  refine ⟨_, ?_, rfl⟩
  split
  · exact .of_isNested .nil
  · refine .append (.append (.withTables (.of_isNested (.words (by decide)))) ?_)
      (.of_isNested (.words (by decide)))
    refine .of_isNested (.separated (.words (by decide)) fun ts hts => ?_)
    obtain ⟨t, _, rfl⟩ := List.mem_map.1 hts
    exact isNested_tableTokens d t

/-- A statement shows the order and counts of its query exactly if none of them goes missing: none is
set on a union, and no count needs the sign bit.  The same holds of each query within the statement,
whose body stands in parentheses of its own. -/
theorem tokens_showClauses_iff (d : Dialect) (q : Query) :
    (ShowsClauses d q (q.tokens d) ↔ q.KeepsClauses) ∧
      ∀ s, q.Writes s → s.StandsIn d (q.tokens d) ∧
        (ShowsClauses d s (s.bodyTokens d) ↔ s.KeepsClauses) := by
  obtain ⟨lead, leaves, written⟩ := exists_lead d q
  refine ⟨?_, fun s hs => ⟨hs.standsIn, ?_⟩⟩
  · rw [written]
    exact showsClauses_iff leaves
  · exact showsClauses_iff (d := d) (q := s) (.of_isNested .nil)

/-- The first rows of a table in the order of a column. -/
def topRows (table : String) : Query :=
  (((empty.fromTable (.named table)).orderBy [⟨.col "cost", some .desc, none⟩]).limit 5).offset 2

theorem tokens_showClauses_topRows (d : Dialect) :
    (unionAll [topRows "ads", topRows "costs"]).Writes (topRows "ads") ∧
      ShowsClauses d (topRows "ads") ((topRows "ads").bodyTokens d) := by
  have member : (unionAll [topRows "ads", topRows "costs"]).Writes (topRows "ads") :=
    .body (.here (List.mem_cons_self ..))
  obtain ⟨_, within⟩ := tokens_showClauses_iff d (unionAll [topRows "ads", topRows "costs"])
  refine ⟨member, (within _ member).2.2 ⟨nofun, fun n set => ?_⟩⟩
  rcases set with set | set <;> cases set <;> decide

/-- The rows of two tables in one order. -/
def topOfBoth : Query := (unionAll [topRows "ads", topRows "costs"]).orderBy (topRows "ads").order

/-- The order of a union is not written, and the greatest count reads as minus one. -/
theorem topOfBoth_not_showsClauses :
    ¬ ShowsClauses .snowflake topOfBoth (topOfBoth.tokens .snowflake) ∧
      (empty.limit 18446744073709551615).text .snowflake = "SELECT *\nLIMIT -1" := by
  constructor
  · intro shows
    have order := shows.order
    revert order
    decide +kernel
  · decide +kernel

end Query

end SemanticLayer.Sql
