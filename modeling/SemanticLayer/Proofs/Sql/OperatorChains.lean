import SemanticLayer.Formula.Parser
import SemanticLayer.Proofs.Sql.Binding

/-!
# SQL that reads back as its expression

The text of an expression, read by the precedences of SQL, groups as the tree does exactly if each
operator takes its operands as a whole and no minus starts a comment.

Among columns, constants, calls, casts, cases and binary operators, tokens read back as the tree
unless a chain on the right of its operator begins with another operator of the same precedence:
`a * (b / c * d)` is written without the parentheses that it needs.

* `Spelling.HasComment`: a minus directly before a word that begins with another;
* `Expr.ReadsBack`: the text can be read, and only as the tree says;
* `Expr.readsBack_iff`: when it does;
* `TokenStream.words`: the words that a stream of tokens has;
* `Expr.IsPlain`: only such expressions, at any depth;
* `Expr.KeepsChain`: what the chain on the right of an operator begins with;
* `Expr.tokensReadBack_iff`: when the tokens read back.
-/

namespace SemanticLayer.Sql

/-! ## Comments -/

namespace Spelling

/-- Whether a minus stands directly before a word that begins with another one. -/
def HasComment (d : Dialect) (s : Spelling) : Prop :=
  ∃ w : Word, w.isSigned d = true ∧ [some .minus, some w] <:+: s

theorem not_hasComment_singleton (d : Dialect) (w : Option Word) : ¬HasComment d [w] := by
  rintro ⟨v, -, within⟩
  simpa using within.length_le

theorem hasComment_cons (d : Dialect) (w v : Option Word) (s : Spelling) :
    HasComment d (w :: v :: s) ↔
      (w = some .minus ∧ v.any (·.isSigned d) = true) ∨ HasComment d (v :: s) := by
  constructor
  · rintro ⟨x, signed, within⟩
    rcases List.infix_cons_iff.mp within with here | later
    · rw [List.cons_prefix_cons, List.cons_prefix_cons] at here
      obtain ⟨rfl, rfl, -⟩ := here
      exact .inl ⟨rfl, signed⟩
    · exact .inr ⟨x, signed, later⟩
  · rintro (⟨rfl, signed⟩ | ⟨x, signed, within⟩)
    · cases v with
      | none => cases signed
      | some x => exact ⟨x, signed, [], s, rfl⟩
    · exact ⟨x, signed, List.infix_cons within⟩

theorem shown_eq (d : Dialect) (s : Spelling) (h : ¬HasComment d s) : s.shown d = s := by
  induction s with
  | nil => rfl
  | cons w s ih =>
    cases s with
    | nil => rfl
    | cons v s =>
      rw [hasComment_cons, not_or] at h
      rw [shown, if_neg h.1, ih h.2]

/-- A comment hides more than parentheses. -/
theorem wordCount_shown_lt (d : Dialect) (s : Spelling) (h : HasComment d s) :
    wordCount (s.shown d).reduceOption < wordCount s.reduceOption := by
  induction s with
  | nil =>
    obtain ⟨w, -, within⟩ := h
    simp at within
  | cons w s ih =>
    cases s with
    | nil => exact absurd h (not_hasComment_singleton d w)
    | cons v s =>
      rw [shown]
      split
      · rename_i here
        rw [here.1, List.reduceOption_cons_of_some, wordCount_cons_of_depth rfl]
        exact Nat.succ_pos _
      · rename_i here
        have rest := ih (((hasComment_cons d w v s).mp h).resolve_left here)
        cases w with
        | none => exact rest
        | some x =>
          rw [List.reduceOption_cons_of_some, List.reduceOption_cons_of_some, wordCount, wordCount,
            List.countP_cons, List.countP_cons]
          exact Nat.add_lt_add_right rest _

end Spelling

theorem readsAs_shown_iff (d : Dialect) (p : Phrase) :
    ReadsAs (p.spelling.shown d).reduceOption p ↔ p.Fits ∧ ¬p.spelling.HasComment d := by
  by_cases h : p.spelling.HasComment d
  · refine iff_of_false (fun readsAs => ?_) fun both => both.2 h
    obtain ⟨q, reading, same⟩ := readsAs_iff.mp readsAs
    have fewer := Spelling.wordCount_shown_lt d p.spelling h
    rw [p.reduceOption_spelling, ← reading.words] at fewer
    have size := congrArg Phrase.size same
    rw [q.size_normal, p.size_normal, Phrase.size, Phrase.size] at size
    omega
  · rw [Spelling.shown_eq d _ h, p.reduceOption_spelling, and_iff_left h]
    exact readsAs_words_iff p

namespace Expr

/-- Whether the text of the expression, as far as a reader sees it, can be read, and only as the
tree has it. -/
def ReadsBack (d : Dialect) (e : Expr) : Prop :=
  ReadsAs ((e.spelling d).shown d).reduceOption (e.tree d)

/-- The spelling is that of the SQL text, and it reads back exactly if the operators take their
operands as a whole everywhere in the expression and no minus starts a comment. -/
theorem readsBack_iff (d : Dialect) (e : Expr) :
    (e.spelling d).text d = e.text d ∧
      (e.ReadsBack d ↔
        Everywhere (operands d) (Binds d) e ∧ ¬(e.spelling d).HasComment d) := by
  refine ⟨text_written d e, ?_⟩
  rw [ReadsBack, ← readsAs_congr (same_phrase true d e), ← fits_written_iff]
  exact readsAs_shown_iff d (e.written d)

/-- `NOT a IS NULL` is a test of `NOT a` among formulas, and among SQL the negation of a test. -/
theorem not_readsBack_isNull_not :
    (match Formula.parse "NOT a IS NULL" with
      | .ok (.isNull (.not (.taxon a _) _) false _) => a.slug == "a"
      | _ => false) = true ∧
    ¬(isNull (.not (.col "a")) false).ReadsBack .snowflake := by
  refine ⟨by decide +kernel, fun readsBack => ?_⟩
  have reading : IsReading
      (((isNull (.not (.col "a")) false).spelling .snowflake).shown .snowflake).reduceOption
      (.prefixed .not (.tested (.atom (.column none "a")) false)) :=
    ⟨⟨⟨trivial, by decide⟩, by decide⟩, rfl⟩
  cases readsBack.2 _ reading

end Expr

/-! ## Words of tokens -/

def Symbol.word : Symbol → Word
  | .comma => .joint (.separator .comma)
  | .openParen => .opening .paren
  | .closeParen => .closing .paren
  | .minus => .minus
  | .eq => .joint (.binary .eq)
  | .ne => .joint (.binary .ne)
  | .lt => .joint (.binary .lt)
  | .gt => .joint (.binary .gt)
  | .le => .joint (.binary .le)
  | .ge => .joint (.binary .ge)
  | .plus => .joint (.binary .add)
  | .times => .joint (.binary .mul)
  | .divide => .joint (.binary .div)
  | s => .atom (.symbol s)

def Keyword.word : Keyword → Word
  | .and => .joint (.binary .and)
  | .or => .joint (.binary .or)
  | .not => .not
  | .isNull => .isNull false
  | .isNotNull => .isNull true
  | .inValues => .joint (.inValues false)
  | .like => .joint (.like false false)
  | .ilike => .joint (.like false true)
  | .escape => .joint .escape
  | .overRows => .joint .over
  | .case => .opening .case
  | .endCase => .closing .case
  | .whenCase => .joint (.separator .whenCase)
  | .thenValue => .joint (.separator .thenValue)
  | .elseValue => .joint (.separator .elseValue)
  | .distinct => .joint (.separator .distinct)
  | .asName => .joint (.separator .asName)
  | .fromTable => .joint (.separator .fromTable)
  | .partitionBy => .joint (.separator .partitionBy)
  | .orderBy => .joint (.separator .orderBy)
  | .asc => .joint (.separator (.direction .asc))
  | .desc => .joint (.separator (.direction .desc))
  | .nullsFirst => .joint (.separator (.nulls .first))
  | .nullsLast => .joint (.separator (.nulls .last))
  | k => .atom (.keyword k)

/-- The word of a token, none for a blank. -/
def Token.word? : Token → Option Word
  | .space => none
  | .newline => none
  | .indent _ => none
  | .keyword k => some k.word
  | .symbol s => some s.word
  | t => some (.atom t)

namespace TokenStream

def words (ts : TokenStream) : List Word := ts.filterMap Token.word?

theorem words_append (ts us : TokenStream) : words (ts ++ us) = words ts ++ words us :=
  List.filterMap_append

theorem words_parens (ts : TokenStream) :
    words (parens ts) = .opening .paren :: (words ts ++ [.closing .paren]) := by
  rw [parens, ← List.singleton_append, words_append, words_append]
  rfl

theorem words_parensIf {ts : TokenStream} {p : Phrase} (needed : Bool) (h : words ts = p.words) :
    words (parensIf needed ts) = (Phrase.groupIf needed p).words := by
  cases needed with
  | false => exact h
  | true =>
    rw [parensIf, if_pos rfl, words_parens, h]
    rfl

end TokenStream

open TokenStream (words_append)

namespace Expr

/-! ## Plain expressions -/

def isPlainNode : Expr → Bool
  | .column .. => true
  | .literal _ => true
  | .binary .. => true
  | .call .. => true
  | .cast .. => true
  | .case .. => true
  | .paren _ => true
  | _ => false

/-- Whether the expression consists of columns, constants, calls, casts, cases, parentheses and
binary operators. -/
def IsPlain (e : Expr) : Prop := Everywhere parts (fun x => x.isPlainNode = true) e

theorem everywhere_binary {P : Expr → Prop} {l r : Expr} {op : BinaryOperator} :
    Everywhere parts P (.binary l op r) ↔
      P (.binary l op r) ∧ Everywhere parts P l ∧ Everywhere parts P r := by
  rw [everywhere_iff]
  simp [parts]

theorem everywhere_column {P : Expr → Prop} {table? : Option String} {name : String} :
    Everywhere parts P (.column table? name) ↔ P (.column table? name) := by
  rw [everywhere_iff]
  simp [parts]

theorem words_commas {d : Dialect} {es : List Expr}
    (h : ∀ x ∈ es, TokenStream.words (x.tokens d) = (x.written d).words) :
    TokenStream.words (TokenStream.commas (tokensEach d es)) =
      (Phrase.commas (phraseEach true d es)).words := by
  induction es with
  | nil => rfl
  | cons e rest ih =>
    obtain ⟨first, others⟩ := List.forall_mem_cons.mp h
    cases rest with
    | nil => exact first
    | cons e' rest =>
      rw [tokensEach, phraseEach, tokensEach, phraseEach, TokenStream.commas,
        TokenStream.separated, words_append, words_append, first, Phrase.commas, Phrase.words]
      have rest := ih others
      rw [tokensEach, phraseEach, TokenStream.commas] at rest
      rw [rest, List.append_assoc]
      rfl

theorem words_branchTokens {d : Dialect} {bs : List (Expr × Expr)}
    (h : ∀ b ∈ bs, TokenStream.words (b.1.tokens d) = (b.1.written d).words ∧
      TokenStream.words (b.2.tokens d) = (b.2.written d).words) (before : Phrase) :
    (branchPhrase true d before bs).words =
      before.words ++ TokenStream.words (branchTokens d bs) := by
  induction bs generalizing before with
  | nil => exact (List.append_nil _).symm
  | cons b bs ih =>
    obtain ⟨⟨first, second⟩, rest⟩ := List.forall_mem_cons.mp h
    obtain ⟨w, t⟩ := b
    rw [branchPhrase, ih rest, branchTokens]
    simp only [words_append, first, second, Phrase.words, List.append_assoc]
    rfl

/-- The tokens of a plain expression are the words of its phrase. -/
theorem words_tokens {d : Dialect} {e : Expr} (h : e.IsPlain) :
    TokenStream.words (e.tokens d) = (e.written d).words := by
  induction h with
  | @intro e here inside ih =>
    cases e with
    | column t n => rfl
    | literal l => rfl
    | binary l op r =>
      rw [written, phrase, Phrase.words, tokens, words_append, words_append,
        TokenStream.words_parensIf _ (ih l (by simp [parts])),
        TokenStream.words_parensIf _ (ih r (by simp [parts])), List.append_assoc]
      cases op <;> rfl
    | call n args distinct =>
      have list : TokenStream.words (TokenStream.commas (tokensEach d args)) =
          (Phrase.commas (phraseEach true d args)).words := words_commas ih
      rw [tokens, ← List.singleton_append, words_append, TokenStream.words_parens, words_append,
        list]
      cases distinct <;> rfl
    | case operand? branches otherwise? =>
      have each : ∀ b ∈ branches, TokenStream.words (b.1.tokens d) = (b.1.written d).words ∧
          TokenStream.words (b.2.tokens d) = (b.2.written d).words :=
        fun b hb => ⟨ih b.1 (mem_parts_case hb).1, ih b.2 (mem_parts_case hb).2⟩
      have operand : TokenStream.words (tokensAfter d [.space] operand?) =
          (operandPhrase true d operand?).words := by
        cases operand? with
        | none => rfl
        | some e =>
          rw [tokensAfter, words_append, ih e (by simp [parts])]
          rfl
      have otherwise : ∀ before : Phrase, (elsePhrase true d before otherwise?).words =
          before.words ++
            TokenStream.words (tokensAfter d [.space, .keyword .elseValue, .space] otherwise?) := by
        intro before
        cases otherwise? with
        | none => exact (List.append_nil _).symm
        | some e =>
          rw [elsePhrase, Phrase.words, tokensAfter, words_append, ih e (by simp [parts])]
          rfl
      rw [written, phrase, Phrase.words, otherwise, words_branchTokens each, tokens, ← List.singleton_append,
        ← operand]
      simp only [words_append, List.append_assoc]
      rfl
    | cast e t =>
      rw [tokens, ← List.singleton_append, words_append, TokenStream.words_parens, words_append,
        ih e (by simp [parts])]
      rfl
    | paren e =>
      rw [tokens, TokenStream.words_parens, ih e (by simp [parts])]
      rfl
    | _ => cases here

/-! ## Chains -/

/-- Where a chain of the operator begins. -/
def chainHead (op : BinaryOperator) : Expr → Expr
  | .binary l op' r => if op' = op then l.chainHead op else .binary l op' r
  | e => e

/-- The operator of a binary operation. -/
def operator? : Expr → Option BinaryOperator
  | .binary _ op _ => some op
  | _ => none

/-- Whether a chain that continues an associative operator on its right begins with no other
operator of the same precedence. -/
def KeepsChain : Expr → Prop
  | .binary _ op r =>
    op.groupsFreely = true → r.operator? = some op →
      ∀ op' ∈ (r.chainHead op).operator?, op'.precedence ≠ op.precedence
  | _ => True

theorem precedence_eq_strength (op : BinaryOperator) : op.precedence = op.strength := by
  cases op <;> rfl

theorem groupsFreely_eq (op : BinaryOperator) : op.groupsFreely = op.isAssociative := by
  cases op <;> rfl

theorem IsPlain.left {l r : Expr} {op : BinaryOperator} (h : (binary l op r).IsPlain) : l.IsPlain :=
  (everywhere_iff.mp h).2 l (by simp [parts])

theorem IsPlain.right {l r : Expr} {op : BinaryOperator} (h : (binary l op r).IsPlain) :
    r.IsPlain := (everywhere_iff.mp h).2 r (by simp [parts])

/-- The precedence of the operator at the top, above all others where there is none. -/
def rank (e : Expr) : Nat := (e.operator?.map (·.precedence)).getD 10

theorem rank_binary (l r : Expr) (op : BinaryOperator) : (binary l op r).rank = op.precedence := rfl

/-- Whether the expression, as it is written, cannot be taken apart by an operator next to it. -/
structure IsClosed (e : Expr) : Prop where
  operator?_eq : e.operator? = none
  needsParens_eq : ∀ op onRight, needsParens e op onRight = false
  lead_eq : e.lead = 10
  tail_eq : e.tail = 10
  chainLead_eq : ∀ op, e.chainLead op = 10
  chainHead_eq : ∀ op, e.chainHead op = e

theorem binary_or_isClosed {e : Expr} (plain : e.isPlainNode = true) :
    (∃ l op r, e = .binary l op r) ∨ e.IsClosed := by
  cases e with
  | binary l op r => exact .inl ⟨l, op, r, rfl⟩
  | column _ _ => exact .inr ⟨rfl, fun _ _ => rfl, rfl, rfl, fun _ => rfl, fun _ => rfl⟩
  | literal _ => exact .inr ⟨rfl, fun _ _ => rfl, rfl, rfl, fun _ => rfl, fun _ => rfl⟩
  | call _ _ _ => exact .inr ⟨rfl, fun _ _ => rfl, rfl, rfl, fun _ => rfl, fun _ => rfl⟩
  | cast _ _ => exact .inr ⟨rfl, fun _ _ => rfl, rfl, rfl, fun _ => rfl, fun _ => rfl⟩
  | case _ _ _ => exact .inr ⟨rfl, fun _ _ => rfl, rfl, rfl, fun _ => rfl, fun _ => rfl⟩
  | paren _ => exact .inr ⟨rfl, fun _ _ => rfl, rfl, rfl, fun _ => rfl, fun _ => rfl⟩
  | _ => cases plain

theorem IsClosed.rank_eq {e : Expr} (h : e.IsClosed) : e.rank = 10 := by
  rw [rank, h.operator?_eq]
  rfl

/-- A plain operand is put into parentheses if it is weaker than the operator, or as strong on its
right without continuing a chain. -/
theorem needsParens_iff {e : Expr} (plain : e.isPlainNode = true) (op : BinaryOperator)
    (onRight : Bool) :
    needsParens e op onRight = true ↔
      e.rank < op.precedence ∨ onRight = true ∧ e.rank = op.precedence ∧
        ¬(op.groupsFreely = true ∧ e.operator? = some op) := by
  rcases binary_or_isClosed plain with ⟨l, op', r, rfl⟩ | closed
  · cases free : op.isAssociative <;>
      simp [needsParens, rank_binary, precedence_eq_strength, groupsFreely_eq, operator?, free,
        and_assoc]
  · have weak := precedence_lt_ten op
    rw [closed.needsParens_eq, closed.rank_eq, closed.operator?_eq]
    simp
    omega

theorem IsPlain.node {e : Expr} (h : e.IsPlain) : e.isPlainNode = true := (everywhere_iff.mp h).1

theorem IsPlain.lead_eq {e : Expr} (h : e.IsPlain) : e.lead = e.rank ∧ e.tail = e.rank := by
  induction h with
  | @intro e here inside ih =>
    rcases binary_or_isClosed here with ⟨l, op, r, rfl⟩ | closed
    · obtain ⟨left, -⟩ := ih l (by simp [parts])
      obtain ⟨-, right⟩ := ih r (by simp [parts])
      have l' := needsParens_iff (IsPlain.node (inside l (by simp [parts]))) op false
      have r' := needsParens_iff (IsPlain.node (inside r (by simp [parts]))) op true
      have weak := precedence_lt_ten op
      rw [lead, tail, left, right, rank_binary]
      constructor
      · split
        · omega
        · simp_all
      · split
        · omega
        · simp_all
    · exact ⟨closed.lead_eq.trans closed.rank_eq.symm, closed.tail_eq.trans closed.rank_eq.symm⟩

/-- The beginning of a chain goes with the operator before it unless another operator of the same
precedence stands there. -/
theorem IsPlain.lt_chainLead_iff {e : Expr} (h : e.IsPlain) {op : BinaryOperator}
    (free : op.groupsFreely = true) :
    needsParens e op false = true ∨ op.precedence < e.chainLead op ↔
      ∀ op' ∈ (e.chainHead op).operator?, op'.precedence ≠ op.precedence := by
  have weak := precedence_lt_ten op
  induction h with
  | @intro e here inside ih =>
    rcases binary_or_isClosed here with ⟨l, op', r, rfl⟩ | closed
    · by_cases same : op' = op
      · subst same
        have none : needsParens (binary l op' r) op' false = false := by
          rw [← Bool.not_eq_true, needsParens_iff here, rank_binary]
          simp
        have chains : (Joint.binary op').chains (.binary op') = true := by
          simpa [Joint.chains] using free
        rw [none, chainLead, if_pos chains, chainHead, if_pos rfl]
        refine Iff.trans ?_ (ih l (by simp [parts]))
        cases needsParens l op' false <;> simp [weak]
      · have alone : (Joint.binary op).chains (.binary op') = false := by
          simp [Joint.chains, Ne.symm same]
        rw [needsParens_iff here, chainLead, if_neg (by simp [alone]), chainHead, if_neg same,
          (lead_eq (.intro here inside)).1, rank_binary]
        simp only [operator?, Option.mem_some_iff, forall_eq', Bool.false_eq_true, false_and,
          or_false, ne_eq]
        omega
    · rw [closed.chainLead_eq, closed.chainHead_eq, closed.operator?_eq]
      simp [weak]

theorem IsPlain.chainLead_eq {e : Expr} (h : e.IsPlain) {op : BinaryOperator}
    (alone : ¬(op.groupsFreely = true ∧ e.operator? = some op)) : e.chainLead op = e.lead := by
  rcases binary_or_isClosed h.node with ⟨l, op', r, rfl⟩ | closed
  · rw [chainLead, if_neg]
    intro chains
    rw [Joint.chains, Bool.and_eq_true, beq_iff_eq] at chains
    exact alone ⟨chains.2, congrArg some chains.1.symm⟩
  · rw [closed.chainLead_eq, closed.lead_eq]

/-- The operators of a plain expression take their operands as a whole exactly if it keeps its
chains. -/
theorem IsPlain.binds_iff {e : Expr} (h : e.IsPlain) (d : Dialect) : e.Binds d ↔ e.KeepsChain := by
  rcases binary_or_isClosed h.node with ⟨l, op, r, rfl⟩ | closed
  · have left : needsParens l op false = true ∨ op.precedence ≤ l.tail := by
      rw [needsParens_iff h.left.node, h.left.lead_eq.2]
      omega
    rw [Binds, KeepsChain, and_iff_right left]
    by_cases continues : op.groupsFreely = true ∧ r.operator? = some op
    · obtain ⟨free, same⟩ := continues
      rw [← h.right.lt_chainLead_iff free, forall_prop_of_true free, forall_prop_of_true same]
      have (b : Bool) : needsParens r op b = true ↔ False := by
        rw [needsParens_iff h.right.node]
        simp [rank, same, free]
      rw [this, this]
    · have parens : needsParens r op true = true ∨ op.precedence < r.chainLead op := by
        rw [needsParens_iff h.right.node]
        rcases Nat.lt_trichotomy r.rank op.precedence with weaker | equal | stronger
        · exact .inl (.inl weaker)
        · exact .inl (.inr ⟨rfl, equal, continues⟩)
        · rw [h.right.chainLead_eq continues, h.right.lead_eq.1]
          exact .inr stronger
      exact iff_of_true parens fun free same => absurd ⟨free, same⟩ continues
  · cases e with
    | binary l op r => cases closed.operator?_eq
    | _ => first | exact Iff.rfl | cases h.node

theorem IsPlain.everywhere_iff {e : Expr} (h : e.IsPlain) (d : Dialect) :
    Everywhere (operands d) (Binds d) e ↔ Everywhere parts KeepsChain e := by
  induction h with
  | @intro e here inside ih =>
    have same : e.operands d = e.parts := by
      cases e <;> first | rfl | cases here
    rw [Expr.everywhere_iff, Expr.everywhere_iff, same, IsPlain.binds_iff (.intro here inside)]
    exact and_congr_right fun _ => forall₂_congr ih

/-! ## Reading the tokens -/

/-- Whether the tokens of the expression can be read, and only as the tree has it. -/
def TokensReadBack (d : Dialect) (e : Expr) : Prop :=
  ReadsAs (TokenStream.words (e.tokens d)) (e.tree d)

/-- The tokens of a plain expression read back exactly if no chain on the right of its operator
begins with another operator of the same precedence. -/
theorem tokensReadBack_iff (d : Dialect) {e : Expr} (h : e.IsPlain) :
    e.TokensReadBack d ↔ Everywhere parts KeepsChain e := by
  rw [TokensReadBack, words_tokens h, ← readsAs_congr (same_phrase true d e), readsAs_words_iff,
    fits_written_iff, h.everywhere_iff]

/-- A product that is divided by gets the parentheses it needs. -/
theorem tokensReadBack_quotient :
    (binary (.col "a") .div (.binary (.col "b") .mul (.col "c"))).IsPlain ∧
      (binary (.col "a") .div (.binary (.col "b") .mul (.col "c"))).TokensReadBack .snowflake := by
  have plain : (binary (.col "a") .div (.binary (.col "b") .mul (.col "c"))).IsPlain := by
    simp only [IsPlain, everywhere_binary, col, everywhere_column, isPlainNode, and_self]
  refine ⟨plain, (tokensReadBack_iff .snowflake plain).mpr ?_⟩
  simp [everywhere_binary, col, everywhere_column, KeepsChain, operator?]

/-- `a * (b / c * d)` is written without parentheses and reads as `a * b / c * d`. -/
theorem not_tokensReadBack_product :
    let quotient := Expr.binary (.col "b") .div (.col "c")
    let product := Expr.binary (.col "a") .mul (.binary quotient .mul (.col "d"))
    product.IsPlain ∧ ¬product.TokensReadBack .snowflake := by
  intro quotient product
  have plain : product.IsPlain := by
    simp only [product, quotient, IsPlain, everywhere_binary, col, everywhere_column, isPlainNode,
      and_self]
  refine ⟨plain, fun readsAs => ?_⟩
  let a : Phrase := .atom (.column none "a")
  let b : Phrase := .atom (.column none "b")
  let c : Phrase := .atom (.column none "c")
  let d : Phrase := .atom (.column none "d")
  have reading : IsReading (TokenStream.words (product.tokens .snowflake))
      (.joined (.joined (.joined a (.binary .mul) b) (.binary .div) c) (.binary .mul) d) :=
    ⟨by simp [a, b, c, d, Phrase.IsGrouped, Phrase.lead, Phrase.tail, Joint.precedence,
      BinaryOperator.precedence], rfl⟩
  cases readsAs.2 _ reading

end Expr

end SemanticLayer.Sql
