import SemanticLayer.Proofs.Sql.Writing

/-!
# The spelling of expressions

The written phrase of an expression spells its SQL.

* `Phrase.tokens`: the tokens of a phrase, with a lemma for each way to build one;
* `text_callPhrase`: a dialect splices the texts of the arguments into the text of its phrase;
* `Expr.text_written`: the written phrase has the text of the expression.
-/

namespace SemanticLayer.Sql

namespace TokenStream

variable {d : Dialect}

theorem text_append (d : Dialect) (ts us : TokenStream) :
    text d (ts ++ us) = text d ts ++ text d us := by
  simp [text]

theorem text_cons (d : Dialect) (t : Token) (ts : TokenStream) :
    text d (t :: ts) = t.text d ++ text d ts := by
  simp [text]

theorem text_nil (d : Dialect) : text d [] = "" := rfl

theorem text_singleton (d : Dialect) (t : Token) : text d [t] = t.text d := by
  rw [text_cons, text_nil, String.append_empty]

theorem text_separated (separator : TokenStream) (tss : List TokenStream) :
    text d (separated separator tss) = (text d separator).intercalate (tss.map (text d)) := by
  induction tss with
  | nil => rfl
  | cons ts rest ih =>
    cases rest with
    | nil => rfl
    | cons us rest =>
      rw [separated, text_append, text_append, ih]
      simp only [List.map_cons, String.intercalate_cons_cons]

theorem text_commas (tss : List TokenStream) :
    text d (commas tss) = ", ".intercalate (tss.map (text d)) := text_separated _ tss

theorem text_parens (ts : TokenStream) : text d (parens ts) = "(" ++ text d ts ++ ")" := by
  rw [parens, text_append, text_cons, text_cons, text_nil, String.append_empty]
  rfl

theorem text_parensIf_congr {ts us : TokenStream} (needed : Bool) (h : text d ts = text d us) :
    text d (parensIf needed ts) = text d (parensIf needed us) := by
  cases needed with
  | false => exact h
  | true => exact (text_parens ts).trans (h ▸ (text_parens us).symm)

end TokenStream

open TokenStream (text_append text_cons text_nil)

theorem text_windowParts_congr {d : Dialect} {ps qs ks ls : List TokenStream}
    (hp : ps.map (TokenStream.text d) = qs.map (TokenStream.text d))
    (hk : ks.map (TokenStream.text d) = ls.map (TokenStream.text d)) (frame? : Option Frame) :
    TokenStream.text d (windowParts ps ks frame?) =
      TokenStream.text d (windowParts qs ls frame?) := by
  have partition : ps.isEmpty = qs.isEmpty := by
    rw [← List.isEmpty_map (f := TokenStream.text d), hp, List.isEmpty_map]
  have order : ks.isEmpty = ls.isEmpty := by
    rw [← List.isEmpty_map (f := TokenStream.text d), hk, List.isEmpty_map]
  simp only [windowParts, TokenStream.text_separated, List.map_append, partition, order]
  congr 3
  · split
    · rfl
    · simp only [List.map_cons, List.map_nil, text_append, TokenStream.text_commas, hp]
  · split
    · rfl
    · simp only [List.map_cons, List.map_nil, text_append, TokenStream.text_commas, hk]

namespace Phrase

def tokens (p : Phrase) : TokenStream := p.spelling.tokens

theorem tokens_empty : empty.tokens = [] := rfl

theorem tokens_joined (l : Phrase) (j : Joint) (r : Phrase) :
    (joined l j r).tokens = l.tokens ++ (j.spelling l.isEmpty).tokens ++ r.tokens := by
  simp [tokens, spelling, Spelling.tokens]

theorem tokens_prefixed (op : UnaryOperator) (e : Phrase) :
    (prefixed op e).tokens = op.spelling.tokens ++ e.tokens := by
  simp [tokens, spelling, Spelling.tokens]

theorem tokens_tested (e : Phrase) (negated : Bool) :
    (tested e negated).tokens =
      e.tokens ++ [.space, .keyword (if negated then .isNotNull else .isNull)] := by
  simp [tokens, spelling, Spelling.tokens, Word.tokens]

theorem tokens_paren (h e : Phrase) :
    (bracketed h .paren e).tokens = h.tokens ++ TokenStream.parens e.tokens := by
  simp [tokens, spelling, Spelling.tokens, Word.tokens, Bracket.closingSpelling, TokenStream.parens]

theorem tokens_index (h e : Phrase) :
    (bracketed h .index e).tokens = h.tokens ++ .raw "[" :: e.tokens ++ [.raw "]"] := by
  simp [tokens, spelling, Spelling.tokens, Word.tokens, Bracket.closingSpelling]

theorem tokens_case (e : Phrase) :
    (bracketed .empty .case e).tokens =
      .keyword .case :: (if e.startsEmpty then [] else [.space]) ++ e.tokens ++
        [.space, .keyword .endCase] := by
  cases h : e.startsEmpty <;>
    simp [tokens, spelling, Spelling.tokens, Word.tokens, Bracket.closingSpelling, h]

theorem tokens_groupIf (needed : Bool) (p : Phrase) :
    (groupIf needed p).tokens = TokenStream.parensIf needed p.tokens := by
  cases needed with
  | false => rfl
  | true => exact tokens_paren .empty p

theorem tokens_commas (ps : List Phrase) :
    (commas ps).tokens = TokenStream.commas (ps.map tokens) := by
  induction ps with
  | nil => rfl
  | cons p rest ih =>
    cases rest with
    | nil => rfl
    | cons q rest =>
      rw [commas, tokens_joined, ih]
      rfl

/-- A separator with nothing behind it. -/
theorem tokens_joined_empty (l : Phrase) (j : Joint) :
    (joined l j .empty).tokens = l.tokens ++ (j.spelling l.isEmpty).tokens := by
  rw [tokens_joined]
  exact List.append_nil _

theorem tokens_ordered (d : Dialect) (key : Phrase) (direction? : Option SortDirection)
    (nulls? : Option NullsPlacement) :
    (ordered d key direction? nulls?).tokens = key.tokens ++ orderSuffix d direction? nulls? := by
  cases direction? <;> cases nulls? <;> cases d <;>
    simp [ordered, orderSuffix, Dialect.ordersNulls, tokens_joined_empty, Joint.spelling,
      Spelling.tokens, Word.tokens, Separator.tokens]

theorem tokens_windowParts (partition order : List Phrase) (frame? : Option Frame) :
    (windowParts partition order frame?).tokens =
      Sql.windowParts (partition.map tokens) (order.map tokens) frame? := by
  cases partition <;> cases order <;> cases frame? <;>
    simp [windowParts, Sql.windowParts, tokens_joined, tokens_empty, tokens_commas, Joint.spelling,
      isEmpty, clause, Spelling.tokens, Word.tokens, Separator.tokens, TokenStream.separated]

end Phrase

/-! ## Calls -/

theorem text_call (d : Dialect) (name : String) (ps : List Phrase) :
    TokenStream.text d (Phrase.call name ps).tokens =
      Dialect.plainCall name (ps.map fun p => TokenStream.text d p.tokens) := by
  rw [Phrase.call, Phrase.tokens_paren, text_append, TokenStream.text_parens, Phrase.tokens_commas,
    TokenStream.text_commas, List.map_map]
  simp [Dialect.plainCall, Phrase.tokens, Phrase.spelling, Spelling.tokens, Word.tokens, text_cons,
    text_nil, Token.text, Function.comp_def, String.append_assoc]

theorem text_atom (d : Dialect) (t : Token) :
    TokenStream.text d (Phrase.atom t).tokens = t.text d := by
  simp [Phrase.tokens, Phrase.spelling, Spelling.tokens, Word.tokens, text_cons, text_nil]

theorem text_group (d : Dialect) (p : Phrase) :
    TokenStream.text d p.group.tokens = "(" ++ TokenStream.text d p.tokens ++ ")" := by
  rw [Phrase.tokens_paren, Phrase.tokens_empty, List.nil_append, TokenStream.text_parens]

theorem text_atTimeZone (d : Dialect) (p q : Phrase) :
    TokenStream.text d (Phrase.joined p .atTimeZone q).tokens =
      TokenStream.text d p.tokens ++ " AT TIME ZONE " ++ TokenStream.text d q.tokens := by
  rw [Phrase.tokens_joined, text_append, text_append]
  rfl

theorem text_castToDate (d : Dialect) (p : Phrase) :
    TokenStream.text d (Phrase.bracketed (.atom (.keyword .cast)) .paren
        (.joined p (.separator .asName) (.atom (.raw "DATE")))).tokens =
      "CAST(" ++ TokenStream.text d p.tokens ++ " AS DATE)" := by
  rw [Phrase.tokens_paren, text_append, TokenStream.text_parens, Phrase.tokens_joined, text_append,
    text_append, text_atom, text_atom, ← String.toList_inj]
  simp [Joint.spelling, Spelling.tokens, Word.tokens, Separator.tokens, text_cons, text_nil,
    Token.text, Keyword.text]

theorem text_extractDifference (d : Dialect) (unit : String) (p q : Phrase) :
    TokenStream.text d (Phrase.bracketed (.atom (.keyword .extract)) .paren
        (.joined (.atom (.raw unit)) (.separator .fromTable)
          (.group (.joined p (.binary .sub) q)))).tokens =
      "EXTRACT(" ++ unit ++ " FROM (" ++ TokenStream.text d p.tokens ++ " - " ++
        TokenStream.text d q.tokens ++ "))" := by
  rw [Phrase.tokens_paren, text_append, TokenStream.text_parens, Phrase.tokens_joined, text_append,
    text_append, text_atom, text_atom, text_group, Phrase.tokens_joined, text_append, text_append,
    ← String.toList_inj]
  simp [Joint.spelling, Spelling.tokens, Word.tokens, Separator.tokens, text_cons, text_nil,
    Token.text, Keyword.text, BinaryOperator.token, Symbol.text]

theorem text_splitPart (d : Dialect) (p q : Phrase) :
    TokenStream.text d (Phrase.bracketed p .index q).tokens =
      TokenStream.text d p.tokens ++ "[" ++ TokenStream.text d q.tokens ++ "]" := by
  rw [Phrase.tokens_index, text_append, text_append, text_cons]
  simp [text_cons, text_nil, Token.text, String.append_assoc]

/-- A dialect splices the texts of the arguments as its phrase takes the phrases. -/
theorem text_callPhrase (d : Dialect) (f : DialectFunction) (ps : List Phrase) :
    TokenStream.text d
        (d.callPhrase ((ps.map fun p => TokenStream.text d p.tokens).headD "") f ps).tokens =
      d.dialectCall f (ps.map fun p => TokenStream.text d p.tokens) := by
  rw [← String.toList_inj]
  rcases ps with _ | ⟨p, _ | ⟨q, _ | ⟨r, _ | ⟨s, rest⟩⟩⟩⟩ <;> cases d <;> cases f <;>
    simp [Dialect.callPhrase, Dialect.snowflakePhrase, Dialect.bigQueryPhrase,
      Dialect.postgresPhrase, Dialect.mySqlPhrase, Dialect.dialectCall, Dialect.snowflakeCall,
      Dialect.bigQueryCall, Dialect.postgresCall, Dialect.mySqlCall, text_call, text_atom,
      text_group, text_atTimeZone, text_castToDate, text_extractDifference, text_splitPart,
      Token.text]

/-! ## Expressions -/

namespace Expr

theorem exists_callPhrase_eq (d : Dialect) (unit : String) (f : DialectFunction)
    (ps : List Phrase) : ∃ h b e, d.callPhrase unit f ps = .bracketed h b e := by
  rcases ps with _ | ⟨p, _ | ⟨q, _ | ⟨r, _ | ⟨s, rest⟩⟩⟩⟩ <;> cases d <;> cases f <;>
    exact ⟨_, _, _, rfl⟩

theorem startsEmpty_phrase (parens : Bool) (d : Dialect) (e : Expr) :
    (e.phrase parens d).startsEmpty = false := by
  induction e using parts_induction with
  | step e ih =>
    cases e with
    | binary l op r =>
      rw [phrase, Phrase.startsEmpty, Phrase.groupIf]
      split
      · rfl
      · exact ih l (by simp [parts])
    | dialectCall f args =>
      obtain ⟨h, b, e, eq⟩ := exists_callPhrase_eq d _ f (phraseEach parens d args)
      rw [phrase, eq]
      rfl
    | inList e vs negated =>
      rw [phrase]
      split
      · rfl
      · exact ih e (by simp [parts])
    | like e p c negated ignoreCase => exact ih e (by simp [parts])
    | window f ps os frame? => exact ih f (by simp [parts])
    | list es =>
      rcases es with _ | ⟨e, _ | ⟨e', es⟩⟩
      · rfl
      · exact ih e (by simp [parts])
      · exact ih e (by simp [parts])
    | _ => rfl

theorem startsEmpty_branchPhrase (parens : Bool) (d : Dialect) (before : Phrase)
    (bs : List (Expr × Expr)) :
    (branchPhrase parens d before bs).startsEmpty = before.startsEmpty := by
  induction bs generalizing before with
  | nil => rfl
  | cons b bs ih => exact ih _

theorem text_branchPhrase {parens : Bool} {d : Dialect} {bs : List (Expr × Expr)}
    (h : ∀ b ∈ bs,
      TokenStream.text d (b.1.phrase parens d).tokens = TokenStream.text d (b.1.tokens d) ∧
      TokenStream.text d (b.2.phrase parens d).tokens = TokenStream.text d (b.2.tokens d))
    (before : Phrase) :
    TokenStream.text d (branchPhrase parens d before bs).tokens =
      TokenStream.text d before.tokens ++ TokenStream.text d (branchTokens d bs) := by
  induction bs generalizing before with
  | nil => exact (String.append_empty).symm
  | cons b bs ih =>
    obtain ⟨⟨first, second⟩, rest⟩ := List.forall_mem_cons.mp h
    obtain ⟨w, t⟩ := b
    rw [branchPhrase, ih rest, branchTokens, Phrase.tokens_joined, Phrase.tokens_joined]
    simp only [text_append, first, second, String.append_assoc]
    rfl

/-- The written phrase has the text of the expression. -/
theorem text_written (d : Dialect) (e : Expr) :
    TokenStream.text d (e.written d).tokens = e.text d := by
  unfold text
  induction e using parts_induction with
  | step e ih =>
    have each : ∀ es : List Expr, (∀ x ∈ es, x ∈ e.parts) →
        ((phraseEach true d es).map Phrase.tokens).map (TokenStream.text d) =
          (tokensEach d es).map (TokenStream.text d) := by
      intro es within
      rw [phraseEach_eq, tokensEach_eq, List.map_map, List.map_map, List.map_map]
      exact List.map_congr_left fun x hx => ih x (within x hx)
    have list : ∀ es : List Expr, (∀ x ∈ es, x ∈ e.parts) →
        TokenStream.text d (Phrase.commas (phraseEach true d es)).tokens =
          TokenStream.text d (TokenStream.commas (tokensEach d es)) := by
      intro es within
      rw [Phrase.tokens_commas, TokenStream.text_commas, TokenStream.text_commas, each es within]
    cases e with
    | column t n => exact text_atom d _
    | literal l => exact text_atom d _
    | placeholder n => exact text_atom d _
    | raw s => exact text_atom d _
    | binary l op r =>
      rw [written, phrase, tokens, Phrase.tokens_joined]
      simp only [text_append, Phrase.tokens_groupIf]
      rw [TokenStream.text_parensIf_congr _ (ih l (by simp [parts])),
        TokenStream.text_parensIf_congr _ (ih r (by simp [parts]))]
      rfl
    | unary op e =>
      rw [written, phrase, Phrase.tokens_prefixed, Phrase.tokens_groupIf, text_append,
        TokenStream.text_parensIf_congr _ (ih e (by simp [parts]))]
      cases op with
      | not =>
        rw [tokens, text_append]
        rfl
      | minus =>
        rw [tokens, text_cons]
        rfl
    | call n args distinct =>
      rw [written, phrase, tokens, Phrase.tokens_paren, text_append, text_atom, text_cons,
        TokenStream.text_parens, TokenStream.text_parens, text_append, ← list args fun _ hx => hx]
      cases distinct with
      | false => rfl
      | true =>
        rw [if_pos rfl, Phrase.tokens_joined, text_append]
        rfl
    | dialectCall f args =>
      have texts : (phraseEach true d args).map (fun p => TokenStream.text d p.tokens) =
          (tokensEach d args).map (TokenStream.text d) := by
        rw [← each args fun _ hx => hx, List.map_map]
        rfl
      rw [written, phrase, ← texts, text_callPhrase, tokens, texts, TokenStream.text_singleton]
      rfl
    | case operand? branches otherwise? =>
      have branched := text_branchPhrase fun b hb =>
        ⟨ih b.1 (mem_parts_case hb).1, ih b.2 (mem_parts_case hb).2⟩
      have lead : (operandPhrase true d operand?).startsEmpty = operand?.isNone ∧
          TokenStream.text d ((if operand?.isNone then [] else [Token.space]) ++
              (operandPhrase true d operand?).tokens) =
            TokenStream.text d (tokensAfter d [.space] operand?) := by
        cases operand? with
        | none => exact ⟨rfl, rfl⟩
        | some e =>
          refine ⟨startsEmpty_phrase true d e, ?_⟩
          rw [tokensAfter, text_append, text_append, ← ih e (by simp [parts])]
          rfl
      obtain ⟨starts, lead⟩ := lead
      rw [text_append] at lead
      rw [written, phrase, tokens, Phrase.tokens_case]
      cases otherwise? with
      | none =>
        rw [elsePhrase, startsEmpty_branchPhrase, starts]
        simp only [text_append, text_cons, branched, tokensAfter, text_nil, String.append_empty,
          ← lead, String.append_assoc]
      | some e =>
        rw [elsePhrase, Phrase.startsEmpty, startsEmpty_branchPhrase, starts, Phrase.tokens_joined]
        simp only [text_append, text_cons, branched, tokensAfter, ← lead, ih e (by simp [parts]),
          String.append_assoc]
        rfl
    | cast e t =>
      rw [written, phrase, tokens, Phrase.tokens_paren, text_append, text_atom, text_cons,
        TokenStream.text_parens, TokenStream.text_parens, Phrase.tokens_joined, text_append,
        text_append, text_append, ih e (by simp [parts])]
      simp [Joint.spelling, Spelling.tokens, Word.tokens, Separator.tokens, text_cons, text_nil,
        String.append_assoc, text_atom]
    | extract f e =>
      rw [written, phrase, tokens, Phrase.tokens_paren, text_append, text_atom, text_cons,
        TokenStream.text_parens, TokenStream.text_parens, Phrase.tokens_joined, text_append,
        text_append, text_append, ih e (by simp [parts])]
      simp [Joint.spelling, Spelling.tokens, Word.tokens, Separator.tokens, text_cons, text_nil,
        String.append_assoc, text_atom]
    | inList e vs negated =>
      cases vs with
      | nil => exact text_atom d _
      | cons v vs =>
        have values := list (v :: vs) fun x hx => List.mem_cons_of_mem _ hx
        rw [written, phrase, tokens, if_neg (by simp), if_neg (by simp), Phrase.tokens_joined]
        simp only [text_append, ih e (by simp [parts]), text_group, values, TokenStream.text_parens]
        cases negated <;>
          simp [Joint.spelling, Spelling.tokens, Word.tokens, text_cons, text_nil,
            String.append_assoc]
    | isNull e negated =>
      rw [written, phrase, tokens, Phrase.tokens_tested, Phrase.tokens_groupIf, text_append,
        text_append, TokenStream.text_parensIf_congr _ (ih e (by simp [parts]))]
      rfl
    | like e p c negated ignoreCase =>
      rw [written, phrase, tokens, Phrase.tokens_joined, Phrase.tokens_joined]
      simp only [text_append, ih e (by simp [parts]), ih p (by simp [parts])]
      cases negated <;>
        simp [Joint.spelling, Spelling.tokens, Word.tokens, text_cons, text_nil,
          String.append_assoc, text_atom]
    | paren e =>
      rw [written, phrase, text_group, tokens, TokenStream.text_parens, ih e (by simp [parts])]
    | window f ps os frame? =>
      have keys : ((orderPhrases true d os).map Phrase.tokens).map (TokenStream.text d) =
          (orderTokens d os).map (TokenStream.text d) := by
        rw [orderPhrases_eq, orderTokens_eq, List.map_map, List.map_map, List.map_map]
        refine List.map_congr_left fun o ho => ?_
        simp only [Function.comp_apply, Phrase.tokens_ordered, text_append]
        rw [ih o.key (by simp [parts]; exact .inr (.inr ⟨o, ho, rfl⟩))]
      have window := text_windowParts_congr (each ps fun x hx => by simp [parts, hx]) keys frame?
      rw [written, phrase, tokens, Phrase.tokens_joined, text_append, text_append, text_group,
        Phrase.tokens_windowParts, window, text_append, text_append, TokenStream.text_parens,
        ih f (by simp [parts])]
      rfl
    | list es =>
      cases es with
      | nil => exact text_atom d _
      | cons e es => exact list (e :: es) fun _ hx => hx

end Expr

end SemanticLayer.Sql
