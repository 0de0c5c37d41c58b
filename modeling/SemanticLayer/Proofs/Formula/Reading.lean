import SemanticLayer.Proofs.Formula.Levels
import SemanticLayer.Proofs.Formula.Lexing

/-!
# Reading follows the grammar

A formula is read exactly if the rules make one of its tokens, and then it is read as what they
make, so no tokens are two formulas.

* `expression_sound`: by what is read, from the outside in: anything shorter is read by the rules;
* `expression_reads`: by the rules; a level takes its operands as far as they go, since no token
  that continues a level starts the next operand;
* `read_eq_ok_iff`: both, for a whole text.
-/

namespace SemanticLayer.Formula

namespace Tree

open Grammar

variable {ls rest : List Lexeme} {left t : Tree}

/-! ## What is read has the rules' form -/

/-- What is read as an expression is one. -/
def IsSound (ls : List Lexeme) : Prop :=
  ∀ t rest, Yields (expression ls) t rest → ∃ ts, Uses ls rest ts ∧ Expression ts t.phrase

/-- Whether anything shorter is read by the rules. -/
def IsSoundBelow (ls : List Lexeme) : Prop := ∀ ks : List Lexeme, ks.length < ls.length → IsSound ks

theorem IsSoundBelow.mono {ks : List Lexeme} (h : IsSoundBelow ls) (shorter : ks.length ≤ ls.length) :
    IsSoundBelow ks :=
  fun js hjs => h js (Nat.lt_of_lt_of_le hjs shorter)

theorem arguments_sound {ls rest : List Lexeme} {acc args : List Tree} {stop : Nat}
    {h : rest.length < ls.length} (inner : IsSound ls) (below : IsSoundBelow ls)
    (e : arguments acc ls = .ok (args, stop, ⟨rest, h⟩)) :
    ∃ ts added, Uses ls rest (ts ++ [.closeParen]) ∧ Arguments ts added ∧
      args.map phrase = acc.reverse.map phrase ++ added := by
  obtain ⟨t, mid, first, last | more⟩ := arguments_eq_ok.1 ⟨_, _, e⟩
  · obtain ⟨last, rfl⟩ := last
    obtain ⟨ts, uses, expr⟩ := inner t mid first
    exact ⟨ts, [t.phrase], uses.trans last, .last expr, by simp⟩
  · obtain ⟨after, comma, stop, h, further⟩ := more
    obtain ⟨ts, uses, expr⟩ := inner t mid first
    have shorter : after.length < ls.length := by
      have := first.left
      have := comma.length_le
      omega
    obtain ⟨us, added, uses', args', eq⟩ := arguments_sound (below after shorter)
      (below.mono (Nat.le_of_lt shorter)) further
    refine ⟨ts ++ .comma :: us, t.phrase :: added, ?_, .more expr args', by simp [eq]⟩
    simpa using (uses.trans comma).trans uses'
termination_by ls.length

theorem atom_sound (below : IsSoundBelow ls) (h : Yields (atom ls) t rest) :
    ∃ ts, Uses ls rest ts ∧ Atom ts t.phrase := by
  obtain ⟨h', e⟩ := h
  rw [atom.eq_def] at e
  split at e
  · cases e
    exact ⟨_, by simp, .callEmpty _⟩
  · rename_i after _
    obtain ⟨⟨args, stop, _, _⟩, read, same⟩ := Result.map_eq_ok.1 e
    cases same
    obtain ⟨ts, added, uses, args, eq⟩ := arguments_sound (below _ (by simp only [List.length_cons]; omega))
      (below.mono (by simp; omega)) read
    rw [phrase, phrases_eq, eq]
    exact ⟨_, by simpa using uses, .call _ args⟩
  · obtain ⟨⟨_, _, _⟩, read, same⟩ := Result.map_eq_ok.1 e
    cases same
    obtain ⟨parts, optional, uses, eq⟩ := taxonAfter_sound ⟨_, read⟩
    rw [eq]
    exact ⟨_, by simpa [taxonTokens, questionTokens] using uses, .taxon (some _) _ parts optional⟩
  · cases unexpected_ne_ok e
  · obtain ⟨⟨_, _, _⟩, read, same⟩ := Result.map_eq_ok.1 e
    cases same
    obtain ⟨parts, optional, uses, eq⟩ := taxonAfter_sound ⟨_, read⟩
    rw [eq]
    exact ⟨_, by simpa [taxonTokens, questionTokens] using uses, .taxon none _ parts optional⟩
  · cases e
    exact ⟨_, by simp, .truth _⟩
  · cases e
    exact ⟨_, by simp, .singleQuoted _⟩
  · cases e
    exact ⟨_, by simp, .doubleQuoted _⟩
  · cases e
    rw [phrase_ofDigits]
    exact ⟨_, by simp, .number (.digits _)⟩
  · cases e
    rw [phrase_ofDecimal]
    exact ⟨_, by simp, .number (.decimal _)⟩
  · cases e
    rw [phrase_ofDigits]
    exact ⟨_, by simp, .number (.minusDigits _)⟩
  · cases e
    rw [phrase_ofDecimal]
    exact ⟨_, by simp, .number (.minusDecimal _)⟩
  · cases unexpected_ne_ok e
  · split at e
    · cases e
    · rename_i inner mid hmid read
      obtain ⟨⟨_, _, _⟩, close, same⟩ := Result.map_eq_ok.1 e
      cases same
      obtain ⟨ts, uses, expr⟩ := below _ (by simp) _ _ ⟨hmid, read⟩
      exact ⟨_, by simpa using uses.trans (yields_closing.1 ⟨_, _, close⟩), .paren expr⟩
  · cases unexpected_ne_ok e

theorem operand_sound {ls rest : List Lexeme} {t : Tree} (below : IsSoundBelow ls)
    (h : Yields (operand ls) t rest) : ∃ ts, Uses ls rest ts ∧ Operand ts t.phrase := by
  have length := h.left
  obtain ⟨_, e⟩ := h
  rw [operand.eq_def] at e
  split at e
  · rename_i more
    obtain ⟨⟨t', _, h'⟩, read, same⟩ := Result.map_eq_ok.1 e
    cases same
    obtain ⟨ts, uses, operand⟩ := operand_sound (below.mono (by simp)) ⟨h', read⟩
    exact ⟨.not :: ts, by simpa using uses, .not operand⟩
  · obtain ⟨ts, uses, atom⟩ := atom_sound below ⟨_, e⟩
    exact ⟨ts, uses, .atom atom⟩
termination_by ls.length

theorem productTail_sound {ls rest : List Lexeme} {left t : Tree} (below : IsSoundBelow ls)
    (h : Yields (productTail left ls) t rest) :
    ∃ us, Uses ls rest us ∧ ∀ ts, Product ts left.phrase → Product (ts ++ us) t.phrase := by
  obtain ⟨_, rfl, rfl⟩ | ⟨l, more, op, right, mid, rfl, operator, first, tail⟩ :=
    yields_productTail.1 h
  · exact ⟨[], by simp⟩
  · have shorter : mid.length < (l :: more).length := Nat.lt_succ_of_lt first.left
    obtain ⟨us, uses, operand⟩ := operand_sound (below.mono (by simp)) first
    obtain ⟨vs, uses', joins⟩ := productTail_sound (below.mono (Nat.le_of_lt shorter)) tail
    refine ⟨l.token :: us ++ vs, by simpa using ⟨mid, uses, uses'⟩, fun ts left => ?_⟩
    simpa using joins _ (.operation left operator operand)
termination_by ls.length

theorem product_sound (below : IsSoundBelow ls) (h : Yields (product ls) t rest) :
    ∃ ts, Uses ls rest ts ∧ Product ts t.phrase := by
  obtain ⟨left, mid, first, tail⟩ := yields_product.1 h
  obtain ⟨ts, uses, operand⟩ := operand_sound below first
  obtain ⟨us, uses', joins⟩ := productTail_sound (below.mono (Nat.le_of_lt first.left)) tail
  exact ⟨ts ++ us, uses.trans uses', joins ts (.operand operand)⟩

theorem sumTail_sound {ls rest : List Lexeme} {left t : Tree} (below : IsSoundBelow ls)
    (h : Yields (sumTail left ls) t rest) :
    ∃ us, Uses ls rest us ∧ ∀ ts, Sum ts left.phrase → Sum (ts ++ us) t.phrase := by
  obtain ⟨_, rfl, rfl⟩ | ⟨l, more, op, right, mid, rfl, operator, first, tail⟩ :=
    yields_sumTail.1 h
  · exact ⟨[], by simp⟩
  · have shorter : mid.length < (l :: more).length := Nat.lt_succ_of_lt first.left
    obtain ⟨us, uses, product⟩ := product_sound (below.mono (by simp)) first
    obtain ⟨vs, uses', joins⟩ := sumTail_sound (below.mono (Nat.le_of_lt shorter)) tail
    refine ⟨l.token :: us ++ vs, by simpa using ⟨mid, uses, uses'⟩, fun ts left => ?_⟩
    simpa using joins _ (.operation left operator product)
termination_by ls.length

theorem sum_sound (below : IsSoundBelow ls) (h : Yields (sum ls) t rest) :
    ∃ ts, Uses ls rest ts ∧ Sum ts t.phrase := by
  obtain ⟨left, mid, first, tail⟩ := yields_sum.1 h
  obtain ⟨ts, uses, product⟩ := product_sound below first
  obtain ⟨us, uses', joins⟩ := sumTail_sound (below.mono (Nat.le_of_lt first.left)) tail
  exact ⟨ts ++ us, uses.trans uses', joins ts (.product product)⟩

theorem expressionTail_sound {ls rest : List Lexeme} {left t : Tree} (below : IsSoundBelow ls)
    (h : Yields (expressionTail left ls) t rest) :
    ∃ us, Uses ls rest us ∧ ∀ ts, Expression ts left.phrase → Expression (ts ++ us) t.phrase := by
  obtain ⟨_, rfl, rfl⟩ | ⟨l, more, op, right, mid, rfl, operator, first, tail⟩ |
      ⟨l, more, negated, stop, mid, hmid, rfl, isIs, test, tail⟩ := yields_expressionTail.1 h
  · exact ⟨[], by simp⟩
  · have shorter : mid.length < (l :: more).length := Nat.lt_succ_of_lt first.left
    obtain ⟨us, uses, sum⟩ := sum_sound (below.mono (by simp)) first
    obtain ⟨vs, uses', joins⟩ := expressionTail_sound (below.mono (Nat.le_of_lt shorter)) tail
    refine ⟨l.token :: us ++ vs, by simpa using ⟨mid, uses, uses'⟩, fun ts left => ?_⟩
    simpa using joins _ (.operation left operator sum)
  · have shorter : mid.length < (l :: more).length := Nat.lt_succ_of_lt hmid
    have uses := nullTest_eq_ok.1 ⟨_, _, test⟩
    obtain ⟨vs, uses', joins⟩ := expressionTail_sound (below.mono (Nat.le_of_lt shorter)) tail
    refine ⟨.is :: nullTokens negated ++ vs, by simpa [isIs] using ⟨mid, uses, uses'⟩,
      fun ts left => ?_⟩
    cases negated with
    | false => simpa [nullTokens] using joins _ (.isNull left)
    | true => simpa [nullTokens] using joins _ (.isNotNull left)
termination_by ls.length

theorem expression_sound (ls : List Lexeme) : IsSound ls := by
  intro t rest h
  have below : IsSoundBelow ls := fun ks _ => expression_sound ks
  obtain ⟨left, mid, first, tail⟩ := yields_expression.1 h
  obtain ⟨ts, uses, sum⟩ := sum_sound below first
  obtain ⟨us, uses', joins⟩ := expressionTail_sound (below.mono (Nat.le_of_lt first.left)) tail
  exact ⟨ts ++ us, uses.trans uses', joins ts (.sum sum)⟩
termination_by ls.length

/-! ## What has the rules' form is read -/

/-- The tokens after which a name or a call goes on. -/
def ContinuesAtom (t : Token) : Prop := t ∈ [.openParen, .bar, .colon, .question]

def ContinuesProduct (t : Token) : Prop := ContinuesAtom t ∨ (productOperator? t).isSome

def ContinuesSum (t : Token) : Prop := ContinuesProduct t ∨ (sumOperator? t).isSome

def ContinuesExpression (t : Token) : Prop :=
  ContinuesSum t ∨ t = .is ∨ (logicalOperator? t).isSome

/-- Any tokens `ts` that an atom may end at are read as the atom `p`. -/
def ReadsAtom (ts : List Token) (p : Phrase) : Prop :=
  ∀ ls rest, Uses ls rest ts → Ends ContinuesAtom rest → ∃ t, Yields (atom ls) t rest ∧ t.phrase = p

def ReadsArguments (ts : List Token) (ps : List Phrase) : Prop :=
  ∀ acc ls rest, Uses ls rest (ts ++ [.closeParen]) →
    ∃ args stop h, arguments acc ls = .ok (args, stop, ⟨rest, h⟩) ∧
      args.map phrase = acc.reverse.map phrase ++ ps

def ReadsOperand (ts : List Token) (p : Phrase) : Prop :=
  ∀ ls rest, Uses ls rest ts → Ends ContinuesAtom rest →
    ∃ t, Yields (operand ls) t rest ∧ t.phrase = p

/-- A product goes on from the tokens as from any tree of what they say. -/
def ReadsProduct (ts : List Token) (p : Phrase) : Prop :=
  ∀ ls mid, Uses ls mid ts → Ends ContinuesAtom mid →
    ∃ left, left.phrase = p ∧
      ∀ t rest, Yields (productTail left mid) t rest → Yields (product ls) t rest

def ReadsSum (ts : List Token) (p : Phrase) : Prop :=
  ∀ ls mid, Uses ls mid ts → Ends ContinuesProduct mid →
    ∃ left, left.phrase = p ∧
      ∀ t rest, Yields (sumTail left mid) t rest → Yields (sum ls) t rest

def ReadsExpression (ts : List Token) (p : Phrase) : Prop :=
  ∀ ls mid, Uses ls mid ts → Ends ContinuesSum mid →
    ∃ left, left.phrase = p ∧
      ∀ t rest, Yields (expressionTail left mid) t rest → Yields (expression ls) t rest

theorem ReadsProduct.whole {ts : List Token} {p : Phrase} (h : ReadsProduct ts p)
    (uses : Uses ls rest ts) (ends : Ends ContinuesProduct rest) :
    ∃ t, Yields (product ls) t rest ∧ t.phrase = p := by
  obtain ⟨left, same, next⟩ := h ls rest uses fun l hl h => ends l hl (.inl h)
  exact ⟨left, next _ _ (yields_productTail.2 (.inl ⟨fun l hl h => ends l hl (.inr h), rfl, rfl⟩)),
    same⟩

theorem ReadsSum.whole {ts : List Token} {p : Phrase} (h : ReadsSum ts p)
    (uses : Uses ls rest ts) (ends : Ends ContinuesSum rest) :
    ∃ t, Yields (sum ls) t rest ∧ t.phrase = p := by
  obtain ⟨left, same, next⟩ := h ls rest uses fun l hl h => ends l hl (.inl h)
  exact ⟨left, next _ _ (yields_sumTail.2 (.inl ⟨fun l hl h => ends l hl (.inr h), rfl, rfl⟩)), same⟩

theorem ReadsExpression.whole {ts : List Token} {p : Phrase} (h : ReadsExpression ts p)
    (uses : Uses ls rest ts) (ends : Ends ContinuesExpression rest) :
    ∃ t, Yields (expression ls) t rest ∧ t.phrase = p := by
  obtain ⟨left, same, next⟩ := h ls rest uses fun l hl h => ends l hl (.inl h)
  exact ⟨left,
    next _ _ (yields_expressionTail.2 (.inl ⟨fun l hl h => ends l hl (.inr h), rfl, rfl⟩)), same⟩

/-! ### Operations -/

variable {ts us : List Token} {token : Token} {op : Operator} {p q : Phrase}

theorem ends_cons {continues : Token → Prop} {l : Lexeme} {more : List Lexeme} :
    Ends continues (l :: more) ↔ ¬ continues l.token := by
  simp [Ends]

theorem ReadsProduct.operation (left : ReadsProduct ts p)
    (operator : productOperator? token = some op) (right : ReadsOperand us q) :
    ReadsProduct (ts ++ token :: us) (.binary op p q) := by
  intro ls mid uses ends
  obtain ⟨_, first, second⟩ := Uses.append_iff.1 uses
  obtain ⟨l, more, rfl, rfl, further⟩ := Uses.cons_iff.1 second
  have stops : Ends ContinuesAtom (l :: more) := by
    rw [ends_cons]
    cases h : l.token <;> simp_all [ContinuesAtom, productOperator?]
  obtain ⟨a, rfl, next⟩ := left ls _ first stops
  obtain ⟨b, read, rfl⟩ := right more mid further ends
  exact ⟨.operation op a b, rfl, fun t rest tail =>
    next t rest (yields_productTail.2 (.inr ⟨l, more, op, b, mid, rfl, operator, read, tail⟩))⟩

theorem ReadsSum.operation (left : ReadsSum ts p)
    (operator : sumOperator? token = some op) (right : ReadsProduct us q) :
    ReadsSum (ts ++ token :: us) (.binary op p q) := by
  intro ls mid uses ends
  obtain ⟨_, first, second⟩ := Uses.append_iff.1 uses
  obtain ⟨l, more, rfl, rfl, further⟩ := Uses.cons_iff.1 second
  have stops : Ends ContinuesProduct (l :: more) := by
    rw [ends_cons]
    cases h : l.token <;> simp_all [ContinuesProduct, ContinuesAtom, productOperator?, sumOperator?]
  obtain ⟨a, rfl, next⟩ := left ls _ first stops
  obtain ⟨b, read, rfl⟩ := right.whole further ends
  exact ⟨.operation op a b, rfl, fun t rest tail =>
    next t rest (yields_sumTail.2 (.inr ⟨l, more, op, b, mid, rfl, operator, read, tail⟩))⟩

theorem ReadsExpression.operation (left : ReadsExpression ts p)
    (operator : logicalOperator? token = some op) (right : ReadsSum us q) :
    ReadsExpression (ts ++ token :: us) (.binary op p q) := by
  intro ls mid uses ends
  obtain ⟨_, first, second⟩ := Uses.append_iff.1 uses
  obtain ⟨l, more, rfl, rfl, further⟩ := Uses.cons_iff.1 second
  have stops : Ends ContinuesSum (l :: more) := by
    rw [ends_cons]
    cases h : l.token <;>
      simp_all [ContinuesSum, ContinuesProduct, ContinuesAtom, productOperator?, sumOperator?,
        logicalOperator?]
  obtain ⟨a, rfl, next⟩ := left ls _ first stops
  obtain ⟨b, read, rfl⟩ := right.whole further ends
  exact ⟨.operation op a b, rfl, fun t rest tail => next t rest
    (yields_expressionTail.2 (.inr (.inl ⟨l, more, op, b, mid, rfl, operator, read, tail⟩)))⟩

theorem ReadsExpression.isNull (left : ReadsExpression ts p) (negated : Bool) :
    ReadsExpression (ts ++ .is :: nullTokens negated) (.isNull p negated) := by
  intro ls mid uses _
  obtain ⟨_, first, second⟩ := Uses.append_iff.1 uses
  obtain ⟨l, more, rfl, isIs, further⟩ := Uses.cons_iff.1 second
  have stops : Ends ContinuesSum (l :: more) := by
    rw [ends_cons, isIs]
    simp [ContinuesSum, ContinuesProduct, ContinuesAtom, productOperator?, sumOperator?]
  obtain ⟨a, rfl, next⟩ := left ls _ first stops
  obtain ⟨stop, h, test⟩ := nullTest_eq_ok.2 further
  exact ⟨.isNull a negated ⟨a.span.start, stop⟩, rfl, fun t rest tail => next t rest
    (yields_expressionTail.2 (.inr (.inr ⟨l, more, negated, stop, mid, h, rfl, isIs, test, tail⟩)))⟩

theorem ReadsOperand.product (h : ReadsOperand ts p) : ReadsProduct ts p := by
  intro ls mid uses ends
  obtain ⟨t, read, same⟩ := h ls mid uses ends
  exact ⟨t, same, fun u rest tail => yields_product.2 ⟨t, mid, read, tail⟩⟩

theorem ReadsProduct.sum (h : ReadsProduct ts p) : ReadsSum ts p := by
  intro ls mid uses ends
  obtain ⟨t, read, same⟩ := h.whole uses ends
  exact ⟨t, same, fun u rest tail => yields_sum.2 ⟨t, mid, read, tail⟩⟩

theorem ReadsSum.expression (h : ReadsSum ts p) : ReadsExpression ts p := by
  intro ls mid uses ends
  obtain ⟨t, read, same⟩ := h.whole uses ends
  exact ⟨t, same, fun u rest tail => yields_expression.2 ⟨t, mid, read, tail⟩⟩

theorem yields_not (text : String) (start : Nat) (h : Yields (operand ls) t rest) :
    Yields (operand (⟨.not, text, start⟩ :: ls)) (.not t ⟨start, t.span.stop⟩) rest := by
  obtain ⟨shorter, read⟩ := h
  refine ⟨Nat.lt_succ_of_lt shorter, ?_⟩
  rw [operand.eq_def]
  dsimp only
  rw [read]
  rfl

theorem ReadsOperand.not (h : ReadsOperand ts p) : ReadsOperand (.not :: ts) (.not p) := by
  intro ls rest uses ends
  obtain ⟨⟨_, text, start⟩, more, rfl, rfl, further⟩ := Uses.cons_iff.1 uses
  obtain ⟨t, read, rfl⟩ := h more rest further ends
  exact ⟨.not t ⟨start, t.span.stop⟩, yields_not text start read, rfl⟩

/-! ### Atoms -/

theorem yields_operand (h : Yields (atom ls) t rest) : Yields (operand ls) t rest := by
  obtain ⟨shorter, read⟩ := h
  refine ⟨shorter, ?_⟩
  rw [operand.eq_def]
  split
  · rw [atom.eq_def] at read
    cases unexpected_ne_ok read
  · exact read

theorem ReadsAtom.operand (h : ReadsAtom ts p) : ReadsOperand ts p := by
  intro ls rest uses ends
  obtain ⟨t, read, same⟩ := h ls rest uses ends
  exact ⟨t, yields_operand read, same⟩

theorem not_yields_closeParen {text : String} {start : Nat} :
    ¬ Yields (expression (⟨.closeParen, text, start⟩ :: ls)) t rest := by
  have none : atom (⟨.closeParen, text, start⟩ :: ls) = .error (some ⟨.closeParen, text, start⟩) := by
    rw [atom.eq_def]
    rfl
  rw [expression.eq_def, sum.eq_def, product.eq_def, operand.eq_def]
  dsimp only
  rw [none]
  exact Yields.error_iff.1

theorem not_continues_closeParen : ¬ ContinuesExpression .closeParen := by
  simp [ContinuesExpression, ContinuesSum, ContinuesProduct, ContinuesAtom, productOperator?,
    sumOperator?, logicalOperator?]

theorem not_continues_comma : ¬ ContinuesExpression .comma := by
  simp [ContinuesExpression, ContinuesSum, ContinuesProduct, ContinuesAtom, productOperator?,
    sumOperator?, logicalOperator?]

theorem readsArguments_last (h : ReadsExpression ts p) : ReadsArguments ts [p] := by
  intro acc ls rest uses
  obtain ⟨mid, first, close⟩ := Uses.append_iff.1 uses
  obtain ⟨l, more, rfl, isClose, last⟩ := Uses.cons_iff.1 close
  have ends : Ends ContinuesExpression (l :: more) := by
    rw [ends_cons, isClose]
    exact not_continues_closeParen
  obtain ⟨t, read, rfl⟩ := h.whole first ends
  obtain ⟨stop, shorter, e⟩ := arguments_eq_ok.2 ⟨t, _, read, .inl ⟨close, rfl⟩⟩
  exact ⟨_, stop, shorter, e, by simp⟩

theorem readsArguments_more {ps : List Phrase} (h : ReadsExpression ts p)
    (further : ReadsArguments us ps) : ReadsArguments (ts ++ .comma :: us) (p :: ps) := by
  intro acc ls rest uses
  obtain ⟨mid, first, second⟩ := Uses.append_iff.1 (by simpa only [List.append_assoc] using uses)
  obtain ⟨l, more, rfl, isComma, others⟩ := Uses.cons_iff.1 second
  have ends : Ends ContinuesExpression (l :: more) := by
    rw [ends_cons, isComma]
    exact not_continues_comma
  obtain ⟨t, read, rfl⟩ := h.whole first ends
  obtain ⟨args, _, _, e, same⟩ := further (t :: acc) more rest others
  have comma : Uses (l :: more) more [.comma] := by simp [isComma]
  obtain ⟨stop, shorter, e⟩ := arguments_eq_ok.2 ⟨t, _, read, .inr ⟨more, comma, _, _, e⟩⟩
  exact ⟨args, stop, shorter, e, by simp [same]⟩

theorem yields_call {name text text' : String} {start start' stop : Nat} {args : List Tree}
    {h : rest.length < ls.length} (e : arguments [] ls = .ok (args, stop, ⟨rest, h⟩)) :
    Yields (atom (⟨.word name, text, start⟩ :: ⟨.openParen, text', start'⟩ :: ls))
      (.call name args ⟨start, stop⟩) rest := by
  refine ⟨by simp; omega, ?_⟩
  rw [atom, e]
  · rfl
  · rintro text last after rfl
    obtain ⟨_, _, read, _⟩ := arguments_eq_ok.1 ⟨_, _, e⟩
    exact not_yields_closeParen read

theorem readsAtom_call {ps : List Phrase} (name : String) (h : ReadsArguments ts ps) :
    ReadsAtom (.word name :: .openParen :: ts ++ [.closeParen]) (.call name ps) := by
  intro ls rest uses ends
  obtain ⟨⟨_, _, start⟩, _, rfl, rfl, second⟩ := Uses.cons_iff.1 uses
  obtain ⟨⟨_, _, _⟩, more, rfl, rfl, inner⟩ := Uses.cons_iff.1 second
  obtain ⟨args, stop, shorter, e, same⟩ := h [] more rest inner
  refine ⟨.call name args ⟨start, stop⟩, yields_call e, ?_⟩
  rw [phrase, phrases_eq, same, List.reverse_nil, List.map_nil, List.nil_append]

theorem yields_paren {text : String} {start stop : Nat} {mid : List Lexeme}
    (h : Yields (expression ls) t mid) (close : Yields (closing mid) stop rest) :
    Yields (atom (⟨.openParen, text, start⟩ :: ls)) (.paren t ⟨start, stop⟩) rest := by
  obtain ⟨_, read⟩ := h
  obtain ⟨_, closed⟩ := close
  refine ⟨by simp; omega, ?_⟩
  rw [atom.eq_def]
  dsimp only
  rw [read]
  dsimp only
  rw [closed]
  rfl

theorem readsAtom_paren (h : ReadsExpression ts p) :
    ReadsAtom (.openParen :: ts ++ [.closeParen]) (.paren p) := by
  intro ls rest uses ends
  obtain ⟨⟨_, _, start⟩, more, rfl, rfl, inner⟩ := Uses.cons_iff.1 uses
  obtain ⟨mid, first, close⟩ := Uses.append_iff.1 inner
  have ends : Ends ContinuesExpression mid := by
    obtain ⟨l, _, rfl, isClose, _⟩ := Uses.cons_iff.1 close
    rw [ends_cons, isClose]
    exact not_continues_closeParen
  obtain ⟨t, read, rfl⟩ := h.whole first ends
  obtain ⟨stop, closed⟩ := yields_closing.2 close
  exact ⟨.paren t ⟨start, stop⟩, yields_paren read closed, rfl⟩

theorem yields_ownedTaxon {ns name text text' text'' : String} {start start' nameStart : Nat}
    (h : Yields (taxonAfter (some ns) ⟨.word name, text, nameStart⟩ name start ls) t rest) :
    Yields (atom (⟨.word ns, text', start⟩ :: ⟨.bar, text'', start'⟩ ::
      ⟨.word name, text, nameStart⟩ :: ls)) t rest := by
  obtain ⟨_, read⟩ := h
  refine ⟨by simp; omega, ?_⟩
  rw [atom, read]
  rfl

theorem yields_taxon {name text : String} {start : Nat}
    (h : Yields (taxonAfter none ⟨.word name, text, start⟩ name start ls) t rest)
    (next : Ends (· ∈ [.openParen, .bar]) ls) :
    Yields (atom (⟨.word name, text, start⟩ :: ls)) t rest := by
  obtain ⟨_, read⟩ := h
  refine ⟨by simp; omega, ?_⟩
  rw [atom, read]
  · rfl
  all_goals
    intros
    subst_vars
    exact next _ rfl (by simp)

theorem readsAtom_taxon (dataSource? : Option String) (first : String) (parts : List String)
    (optional : Bool) :
    ReadsAtom (taxonTokens dataSource? first parts optional)
      (.taxon ⟨dataSource?, ":".intercalate (first :: parts), optional⟩) := by
  intro ls rest uses ends
  have stops : Ends (· ∈ [.colon, .question]) rest := fun l hl h =>
    ends l hl (by simp at h; simp [ContinuesAtom, h])
  cases dataSource? with
  | some ns =>
    obtain ⟨⟨_, _, start⟩, _, rfl, rfl, second⟩ := Uses.cons_iff.1 uses
    obtain ⟨⟨_, _, _⟩, _, rfl, rfl, third⟩ := Uses.cons_iff.1 second
    obtain ⟨⟨_, text, nameStart⟩, more, rfl, rfl, further⟩ := Uses.cons_iff.1 third
    obtain ⟨t, read, same⟩ := taxonAfter_complete further stops
    exact ⟨t, yields_ownedTaxon read, same⟩
  | none =>
    obtain ⟨⟨_, text, start⟩, more, rfl, rfl, further⟩ := Uses.cons_iff.1 uses
    obtain ⟨t, read, same⟩ := taxonAfter_complete further stops
    refine ⟨t, yields_taxon read ?_, same⟩
    -- What follows a name without a data source is a colon, a question mark or no part of it.
    intro l hl h
    obtain ⟨mid, named, question⟩ := Uses.append_iff.1 further
    rcases parts with _ | ⟨part, parts⟩
    · obtain rfl := Uses.nil_iff.1 named
      cases optional with
      | false =>
        obtain rfl := Uses.nil_iff.1 question
        exact ends l hl (by simp at h; rcases h with h | h <;> simp [ContinuesAtom, h])
      | true =>
        obtain ⟨_, _, rfl, isQuestion, _⟩ := Uses.cons_iff.1 question
        cases hl
        simp [isQuestion] at h
    · obtain ⟨_, _, rfl, isColon, _⟩ := Uses.cons_iff.1 named
      cases hl
      simp [isColon] at h

theorem readsAtom_number (h : Number ts p) : ReadsAtom ts p := by
  intro ls rest uses ends
  cases h with
  | digits s =>
    obtain ⟨⟨_, text, start⟩, _, rfl, rfl, last⟩ := Uses.cons_iff.1 uses
    obtain rfl := Uses.nil_iff.1 last
    exact ⟨_, ⟨by simp, by rw [atom.eq_def]⟩, phrase_ofDigits ..⟩
  | decimal s =>
    obtain ⟨⟨_, text, start⟩, _, rfl, rfl, last⟩ := Uses.cons_iff.1 uses
    obtain rfl := Uses.nil_iff.1 last
    exact ⟨_, ⟨by simp, by rw [atom.eq_def]⟩, phrase_ofDecimal ..⟩
  | minusDigits s =>
    obtain ⟨⟨_, _, start⟩, _, rfl, rfl, digits⟩ := Uses.cons_iff.1 uses
    obtain ⟨⟨_, text, n⟩, _, rfl, rfl, last⟩ := Uses.cons_iff.1 digits
    obtain rfl := Uses.nil_iff.1 last
    exact ⟨_, ⟨by simp only [List.length_cons]; omega, by rw [atom.eq_def]⟩, phrase_ofDigits ..⟩
  | minusDecimal s =>
    obtain ⟨⟨_, _, start⟩, _, rfl, rfl, digits⟩ := Uses.cons_iff.1 uses
    obtain ⟨⟨_, text, n⟩, _, rfl, rfl, last⟩ := Uses.cons_iff.1 digits
    obtain rfl := Uses.nil_iff.1 last
    exact ⟨_, ⟨by simp only [List.length_cons]; omega, by rw [atom.eq_def]⟩, phrase_ofDecimal ..⟩

theorem readsAtom_single {token : Token} (make : Span → Tree) (same : ∀ s, (make s).phrase = p)
    (read : ∀ text start rest, ∃ h, atom (⟨token, text, start⟩ :: rest) =
      .ok (make ⟨start, start + text.utf8ByteSize⟩, ⟨rest, h⟩)) :
    ReadsAtom [token] p := by
  intro ls rest uses ends
  obtain ⟨⟨_, text, start⟩, _, rfl, rfl, last⟩ := Uses.cons_iff.1 uses
  obtain rfl := Uses.nil_iff.1 last
  exact ⟨_, read text start _, same _⟩

theorem yields_callEmpty {name text text' text'' : String} {start start' last : Nat} :
    Yields (atom (⟨.word name, text, start⟩ :: ⟨.openParen, text', start'⟩ ::
      ⟨.closeParen, text'', last⟩ :: rest)) (.call name [] ⟨start, last + text''.utf8ByteSize⟩) rest :=
  ⟨by simp; omega, by rw [atom]⟩

theorem readsAtom_callEmpty (name : String) :
    ReadsAtom [.word name, .openParen, .closeParen] (.call name []) := by
  intro ls rest uses ends
  obtain ⟨⟨_, _, start⟩, _, rfl, rfl, second⟩ := Uses.cons_iff.1 uses
  obtain ⟨⟨_, _, _⟩, _, rfl, rfl, third⟩ := Uses.cons_iff.1 second
  obtain ⟨⟨_, text, stop⟩, _, rfl, rfl, last⟩ := Uses.cons_iff.1 third
  obtain rfl := Uses.nil_iff.1 last
  exact ⟨.call name [] ⟨start, stop + text.utf8ByteSize⟩, yields_callEmpty, rfl⟩

/-! ### Every form -/

mutual

theorem atom_reads {ts : List Token} {p : Phrase} : Atom ts p → ReadsAtom ts p
  | .callEmpty name => readsAtom_callEmpty name
  | .call name h => readsAtom_call name (arguments_read h)
  | .taxon dataSource? first parts optional => readsAtom_taxon dataSource? first parts optional
  | .truth b => readsAtom_single (.bool b) (fun _ => rfl) fun _ _ _ => ⟨by simp, by rw [atom]⟩
  | .paren h => readsAtom_paren (expression_reads h)
  | .singleQuoted s =>
    readsAtom_single (.singleQuoted s) (fun _ => rfl) fun _ _ _ => ⟨by simp, by rw [atom]⟩
  | .doubleQuoted s =>
    readsAtom_single (.doubleQuoted s) (fun _ => rfl) fun _ _ _ => ⟨by simp, by rw [atom]⟩
  | .number h => readsAtom_number h

theorem arguments_read {ts : List Token} {ps : List Phrase} : Arguments ts ps → ReadsArguments ts ps
  | .last h => readsArguments_last (expression_reads h)
  | .more h further => readsArguments_more (expression_reads h) (arguments_read further)

theorem operand_reads {ts : List Token} {p : Phrase} : Operand ts p → ReadsOperand ts p
  | .atom h => (atom_reads h).operand
  | .not h => (operand_reads h).not

theorem product_reads {ts : List Token} {p : Phrase} : Product ts p → ReadsProduct ts p
  | .operand h => (operand_reads h).product
  | .operation left operator right => (product_reads left).operation operator (operand_reads right)

theorem sum_reads {ts : List Token} {p : Phrase} : Sum ts p → ReadsSum ts p
  | .product h => (product_reads h).sum
  | .operation left operator right => (sum_reads left).operation operator (product_reads right)

theorem expression_reads {ts : List Token} {p : Phrase} : Expression ts p → ReadsExpression ts p
  | .sum h => (sum_reads h).expression
  | .operation left operator right => (expression_reads left).operation operator (sum_reads right)
  | .isNull h => (expression_reads h).isNull false
  | .isNotNull h => (expression_reads h).isNull true

end

theorem ofLexemes_eq_ok : ofLexemes ls = .ok t ↔ Yields (expression ls) t [] := by
  unfold ofLexemes
  constructor
  · intro e
    split at e
    · cases e
    · rename_i t' rest read
      obtain ⟨rest, h⟩ := rest
      cases rest with
      | nil =>
        cases e
        exact ⟨h, read⟩
      | cons l rest => cases e
  · rintro ⟨_, read⟩
    rw [read]

/-- The lexemes that are read as a formula are those whose tokens the rules make it of. -/
theorem ofLexemes_eq_ok_iff (ls : List Lexeme) (p : Phrase) :
    (∃ t, ofLexemes ls = .ok t ∧ t.phrase = p) ↔ Expression (ls.map Lexeme.token) p := by
  have whole (ts : List Token) : Uses ls [] ts ↔ ls.map Lexeme.token = ts := by
    constructor
    · rintro ⟨used, rfl, rfl⟩
      rw [List.append_nil]
    · rintro rfl
      exact ⟨ls, (List.append_nil ls).symm, rfl⟩
  simp only [ofLexemes_eq_ok]
  constructor
  · rintro ⟨t, read, rfl⟩
    obtain ⟨ts, uses, expr⟩ := expression_sound ls t [] read
    rwa [← (whole ts).1 uses] at expr
  · intro h
    exact (expression_reads h).whole ((whole _).2 rfl) (by simp [Ends])

/-- No tokens are two formulas. -/
theorem expression_unique (hp : Expression ts p) (hq : Expression ts q) : p = q := by
  have tokens : (ts.map fun t => (⟨t, "", 0⟩ : Lexeme)).map Lexeme.token = ts := by
    simp [Function.comp_def]
  obtain ⟨t, read, rfl⟩ := (ofLexemes_eq_ok_iff _ p).2 (tokens.symm ▸ hp)
  obtain ⟨u, read', rfl⟩ := (ofLexemes_eq_ok_iff _ q).2 (tokens.symm ▸ hq)
  cases read.symm.trans read'
  rfl

theorem read_eq_ok {text : String} :
    Tree.read text = .ok t ↔
      ∃ ls, Lexeme.lex 0 text.toList = .ok ls ∧ Yields (expression ls) t [] := by
  unfold Tree.read
  simp only [← ofLexemes_eq_ok]
  constructor
  · intro e
    split at e
    · cases e
    · rename_i ls lexed
      split at e <;> cases e
      rename_i read
      exact ⟨ls, lexed, read⟩
  · rintro ⟨ls, lexed, read⟩
    rw [lexed]
    dsimp only
    rw [read]

/-- A formula is read exactly if its text splits into tokens of which the rules make one, and what
is read is what they make. -/
theorem read_eq_ok_iff (text : String) (p : Phrase) :
    (∃ t, Tree.read text = .ok t ∧ t.phrase = p) ↔
      ∃ ts, Splits text.toList ts ∧ Expression ts p := by
  simp only [read_eq_ok, ← ofLexemes_eq_ok]
  constructor
  · rintro ⟨t, ⟨ls, lexed, read⟩, rfl⟩
    exact ⟨_, (Lexeme.lex_eq_ok_iff 0).1 ⟨ls, lexed, rfl⟩, (ofLexemes_eq_ok_iff ls _).1 ⟨t, read, rfl⟩⟩
  · rintro ⟨ts, splits, expr⟩
    obtain ⟨ls, lexed, rfl⟩ := (Lexeme.lex_eq_ok_iff 0).2 splits
    obtain ⟨t, read, same⟩ := (ofLexemes_eq_ok_iff ls p).2 expr
    exact ⟨t, ⟨ls, lexed, read⟩, same⟩

end Tree

theorem parse_eq_ok {text : String} {t : Tree} : parse text = .ok t ↔ Tree.read text = .ok t := by
  unfold parse
  cases Tree.read text with
  | error e => exact iff_of_false nofun nofun
  | ok u => exact ⟨fun h => congrArg Except.ok (Except.ok.inj h), fun h => by rw [h]; rfl⟩

end SemanticLayer.Formula
