import SemanticLayer.Formula.Parser
import SemanticLayer.Proofs.Result

/-!
# The grammar of formulas, read one level at a time

Which tokens are a formula, and what they say, as rules: a formula that the rules give is one,
however it is read.  Operations group from the left, since only their left operand can be one of the
same level.  Then what each step of reading takes from the lexemes and what it leaves, apart from how
it is shown to end.

* `Phrase`: what a formula says, without the places of its parts;
* `Grammar.Expression`: the rules, with those of the levels below;
* `Yields`: what is read and what is left, `Uses`: the tokens between, `Ends`: what may not come
  next;
* `yields_productTail`, `yields_sumTail`, `yields_expressionTail`: an operation is joined to what
  stands left of it, or reading stops there;
* `nameParts_eq_ok`, `taxonAfter_sound`, `taxonAfter_complete`: a name goes on as long as it can.
-/

namespace SemanticLayer.Formula

/-- A formula without the places of its parts. -/
inductive Phrase where
  | integer (n : Int64)
  | float (x : Double)
  | bool (b : Bool)
  | singleQuoted (s : String)
  | doubleQuoted (s : String)
  | taxon (ref : TaxonRef)
  | call (name : String) (args : List Phrase)
  | paren (inner : Phrase)
  | binary (op : Operator) (left right : Phrase)
  | not (operand : Phrase)
  | isNull (operand : Phrase) (negated : Bool)

namespace Tree

mutual

def phrase : Tree → Phrase
  | .integer n _ => .integer n
  | .float x _ => .float x
  | .bool b _ => .bool b
  | .singleQuoted s _ => .singleQuoted s
  | .doubleQuoted s _ => .doubleQuoted s
  | .taxon r _ => .taxon r
  | .call name args _ => .call name (phrases args)
  | .paren t _ => .paren t.phrase
  | .binary op l r _ => .binary op l.phrase r.phrase
  | .not t _ => .not t.phrase
  | .isNull t negated _ => .isNull t.phrase negated

def phrases : List Tree → List Phrase
  | [] => []
  | t :: ts => t.phrase :: phrases ts

end

theorem phrases_eq (ts : List Tree) : phrases ts = ts.map phrase := by
  induction ts with
  | nil => rw [phrases, List.map_nil]
  | cons t ts ih => rw [phrases, ih, List.map_cons]

end Tree

namespace Phrase

/-- The value of digits, wherever they stand. -/
def ofDigits (negative : Bool) (digits : String) : Phrase :=
  (Tree.ofDigits negative digits ⟨0, 0⟩).phrase

def ofDecimal (negative : Bool) (text : String) : Phrase :=
  (Tree.ofDecimal negative text ⟨0, 0⟩).phrase

end Phrase

@[simp] theorem Tree.phrase_ofDigits (negative : Bool) (digits : String) (s : Span) :
    (ofDigits negative digits s).phrase = .ofDigits negative digits := by
  unfold Phrase.ofDigits ofDigits
  dsimp only
  rw [apply_ite phrase, apply_ite phrase, phrase, phrase, phrase, phrase]

@[simp] theorem Tree.phrase_ofDecimal (negative : Bool) (text : String) (s : Span) :
    (ofDecimal negative text s).phrase = .ofDecimal negative text := by
  unfold Phrase.ofDecimal ofDecimal
  rw [phrase, phrase]

namespace Grammar

/-- A number and its value. -/
inductive Number : List Token → Phrase → Prop
  | digits (s : String) : Number [.digits s] (.ofDigits false s)
  | decimal (s : String) : Number [.decimal s] (.ofDecimal false s)
  | minusDigits (s : String) : Number [.minus, .digits s] (.ofDigits true s)
  | minusDecimal (s : String) : Number [.minus, .decimal s] (.ofDecimal true s)

/-- The further parts of a name, each after a colon. -/
def partTokens (parts : List String) : List Token := parts.flatMap fun part => [.colon, .word part]

/-- A taxon: an optional data source before a bar, a name, and a question mark if it is optional. -/
def taxonTokens (dataSource? : Option String) (first : String) (parts : List String)
    (optional : Bool) : List Token :=
  (match dataSource? with
    | some ns => [.word ns, .bar]
    | none => []) ++
  .word first :: partTokens parts ++ if optional then [.question] else []

mutual

inductive Atom : List Token → Phrase → Prop
  | callEmpty (name : String) : Atom [.word name, .openParen, .closeParen] (.call name [])
  | call {ts : List Token} {args : List Phrase} (name : String) (h : Arguments ts args) :
      Atom (.word name :: .openParen :: ts ++ [.closeParen]) (.call name args)
  | taxon (dataSource? : Option String) (first : String) (parts : List String) (optional : Bool) :
      Atom (taxonTokens dataSource? first parts optional)
        (.taxon ⟨dataSource?, ":".intercalate (first :: parts), optional⟩)
  | truth (b : Bool) : Atom [.truth b] (.bool b)
  | paren {ts : List Token} {p : Phrase} (h : Expression ts p) :
      Atom (.openParen :: ts ++ [.closeParen]) (.paren p)
  | singleQuoted (s : String) : Atom [.singleQuoted s] (.singleQuoted s)
  | doubleQuoted (s : String) : Atom [.doubleQuoted s] (.doubleQuoted s)
  | number {ts : List Token} {p : Phrase} (h : Number ts p) : Atom ts p

/-- Expressions with commas between them, at least one. -/
inductive Arguments : List Token → List Phrase → Prop
  | last {ts : List Token} {p : Phrase} (h : Expression ts p) : Arguments ts [p]
  | more {ts us : List Token} {p : Phrase} {ps : List Phrase} (h : Expression ts p)
      (rest : Arguments us ps) : Arguments (ts ++ .comma :: us) (p :: ps)

inductive Operand : List Token → Phrase → Prop
  | atom {ts : List Token} {p : Phrase} (h : Atom ts p) : Operand ts p
  | not {ts : List Token} {p : Phrase} (h : Operand ts p) : Operand (.not :: ts) (.not p)

inductive Product : List Token → Phrase → Prop
  | operand {ts : List Token} {p : Phrase} (h : Operand ts p) : Product ts p
  | operation {ts us : List Token} {t : Token} {op : Operator} {p q : Phrase} (left : Product ts p)
      (operator : Tree.productOperator? t = some op) (right : Operand us q) :
      Product (ts ++ t :: us) (.binary op p q)

inductive Sum : List Token → Phrase → Prop
  | product {ts : List Token} {p : Phrase} (h : Product ts p) : Sum ts p
  | operation {ts us : List Token} {t : Token} {op : Operator} {p q : Phrase} (left : Sum ts p)
      (operator : Tree.sumOperator? t = some op) (right : Product us q) :
      Sum (ts ++ t :: us) (.binary op p q)

inductive Expression : List Token → Phrase → Prop
  | sum {ts : List Token} {p : Phrase} (h : Sum ts p) : Expression ts p
  | operation {ts us : List Token} {t : Token} {op : Operator} {p q : Phrase}
      (left : Expression ts p) (operator : Tree.logicalOperator? t = some op) (right : Sum us q) :
      Expression (ts ++ t :: us) (.binary op p q)
  | isNull {ts : List Token} {p : Phrase} (h : Expression ts p) :
      Expression (ts ++ [.is, .null]) (.isNull p false)
  | isNotNull {ts : List Token} {p : Phrase} (h : Expression ts p) :
      Expression (ts ++ [.is, .not, .null]) (.isNull p true)

end

end Grammar

end SemanticLayer.Formula

namespace SemanticLayer.Formula

/-- What a reading yields and what it leaves. -/
def Yields {α : Type} {p : List Lexeme → Prop}
    (x : Except (Option Lexeme) (α × {rest : List Lexeme // p rest})) (a : α)
    (rest : List Lexeme) : Prop :=
  ∃ h, x = .ok (a, ⟨rest, h⟩)

/-- The lexemes before `rest` have the tokens `ts`. -/
def Uses (ls rest : List Lexeme) (ts : List Token) : Prop :=
  ∃ used, ls = used ++ rest ∧ used.map Lexeme.token = ts

/-- The next lexeme, if there is one, has none of some tokens. -/
def Ends (continues : Token → Prop) (ls : List Lexeme) : Prop :=
  ∀ l ∈ ls.head?, ¬ continues l.token

namespace Yields

variable {α : Type} {p : List Lexeme → Prop} {a : α} {rest : List Lexeme}
variable {x : Except (Option Lexeme) (α × {rest : List Lexeme // p rest})}

theorem left (h : Yields x a rest) : p rest := h.1

theorem unique {b : α} {rest' : List Lexeme} (h : Yields x a rest) (h' : Yields x b rest') : a = b := by
  obtain ⟨_, rfl⟩ := h
  obtain ⟨_, same⟩ := h'
  cases same
  rfl

@[simp] theorem error_iff {e : Option Lexeme} :
    Yields (.error e : Except (Option Lexeme) (α × {rest : List Lexeme // p rest})) a rest ↔
      False := by
  constructor
  · rintro ⟨_, e⟩
    cases e
  · exact False.elim

@[simp] theorem ok_iff {b : α} {rest' : List Lexeme} {h : p rest} :
    Yields (.ok (a, ⟨rest, h⟩) : Except (Option Lexeme) (α × {rest : List Lexeme // p rest})) b
      rest' ↔ b = a ∧ rest' = rest := by
  constructor
  · rintro ⟨_, e⟩
    cases e
    exact ⟨rfl, rfl⟩
  · rintro ⟨rfl, rfl⟩
    exact ⟨h, rfl⟩

/-- A reading that makes something else of what it yields leaves the same. -/
theorem map_iff {β : Type} {q : List Lexeme → Prop}
    {f : α × {rest : List Lexeme // p rest} → β}
    {keep : ∀ y : α × {rest : List Lexeme // p rest}, q y.2.val} {b : β} :
    Yields (x.map fun y => (f y, (⟨y.2.val, keep y⟩ : {rest : List Lexeme // q rest}))) b rest ↔
      ∃ a h, x = .ok (a, ⟨rest, h⟩) ∧ b = f (a, ⟨rest, h⟩) := by
  constructor
  · rintro ⟨_, e⟩
    obtain ⟨⟨a, rest', h⟩, yielded, same⟩ := Result.map_eq_ok.1 e
    cases same
    exact ⟨a, h, yielded, rfl⟩
  · rintro ⟨a, h, rfl, rfl⟩
    exact ⟨keep (a, ⟨rest, h⟩), rfl⟩

@[simp] theorem keep_iff {q : List Lexeme → Prop}
    {keep : ∀ y : α × {rest : List Lexeme // p rest}, q y.2.val} :
    Yields (x.map fun y => (y.1, (⟨y.2.val, keep y⟩ : {rest : List Lexeme // q rest}))) a rest ↔
      Yields x a rest := by
  rw [map_iff]
  constructor
  · rintro ⟨a, h, rfl, rfl⟩
    exact ⟨h, rfl⟩
  · rintro ⟨h, rfl⟩
    exact ⟨a, h, rfl, rfl⟩

end Yields

namespace Uses

variable {ls mid rest : List Lexeme} {ts us : List Token} {t : Token}

@[simp] theorem nil_iff : Uses ls rest [] ↔ ls = rest := by
  constructor
  · rintro ⟨used, rfl, none⟩
    rw [List.map_eq_nil_iff.1 none, List.nil_append]
  · rintro rfl
    exact ⟨[], rfl, rfl⟩

@[simp] theorem cons_iff :
    Uses ls rest (t :: ts) ↔ ∃ l more, ls = l :: more ∧ l.token = t ∧ Uses more rest ts := by
  constructor
  · rintro ⟨_ | ⟨l, used⟩, rfl, tokens⟩
    · cases tokens
    · obtain ⟨rfl, rfl⟩ := List.cons.inj tokens
      exact ⟨l, used ++ rest, rfl, rfl, used, rfl, rfl⟩
  · rintro ⟨l, _, rfl, rfl, used, rfl, rfl⟩
    exact ⟨l :: used, rfl, rfl⟩

@[simp] theorem append_iff : Uses ls rest (ts ++ us) ↔ ∃ mid, Uses ls mid ts ∧ Uses mid rest us := by
  constructor
  · rintro ⟨used, rfl, tokens⟩
    obtain ⟨first, second, rfl, rfl, rfl⟩ := List.map_eq_append_iff.1 tokens
    exact ⟨second ++ rest, ⟨first, by rw [List.append_assoc], rfl⟩, second, rfl, rfl⟩
  · rintro ⟨_, ⟨first, rfl, rfl⟩, second, rfl, rfl⟩
    exact ⟨first ++ second, by rw [List.append_assoc], by rw [List.map_append]⟩

theorem trans (h : Uses ls mid ts) (h' : Uses mid rest us) : Uses ls rest (ts ++ us) :=
  append_iff.2 ⟨mid, h, h'⟩

theorem length_le (h : Uses ls rest ts) : rest.length ≤ ls.length := by
  obtain ⟨used, rfl, _⟩ := h
  rw [List.length_append]
  omega

end Uses

namespace Tree

open Grammar

variable {ls rest : List Lexeme} {left t : Tree}

/-! ## One level at a time -/

@[simp] theorem unexpected_ne_ok {α : Type} {a : α} : unexpected ls ≠ .ok a := by
  cases ls <;> rintro ⟨⟩

theorem yields_product :
    Yields (product ls) t rest ↔
      ∃ left mid, Yields (operand ls) left mid ∧ Yields (productTail left mid) t rest := by
  rw [product.eq_def]
  rcases operand ls with e | ⟨left, mid, h⟩ <;> simp

theorem yields_productTail :
    Yields (productTail left ls) t rest ↔
      Ends (fun t => (productOperator? t).isSome) ls ∧ t = left ∧ rest = ls ∨
      ∃ l more op right mid, ls = l :: more ∧ productOperator? l.token = some op ∧
        Yields (operand more) right mid ∧
        Yields (productTail (operation op left right) mid) t rest := by
  rw [productTail.eq_def]
  cases ls with
  | nil => simp [Ends]
  | cons l more =>
    cases known : productOperator? l.token with
    | none => simp [Ends, known]
    | some op =>
      rcases next : operand more with e | ⟨right, mid, h⟩ <;> simp [Ends, known, next]

theorem yields_sum :
    Yields (sum ls) t rest ↔
      ∃ left mid, Yields (product ls) left mid ∧ Yields (sumTail left mid) t rest := by
  rw [sum.eq_def]
  rcases product ls with e | ⟨left, mid, h⟩ <;> simp

theorem yields_sumTail :
    Yields (sumTail left ls) t rest ↔
      Ends (fun t => (sumOperator? t).isSome) ls ∧ t = left ∧ rest = ls ∨
      ∃ l more op right mid, ls = l :: more ∧ sumOperator? l.token = some op ∧
        Yields (product more) right mid ∧
        Yields (sumTail (operation op left right) mid) t rest := by
  rw [sumTail.eq_def]
  cases ls with
  | nil => simp [Ends]
  | cons l more =>
    cases known : sumOperator? l.token with
    | none => simp [Ends, known]
    | some op =>
      rcases next : product more with e | ⟨right, mid, h⟩ <;> simp [Ends, known, next]

theorem yields_expression :
    Yields (expression ls) t rest ↔
      ∃ left mid, Yields (sum ls) left mid ∧ Yields (expressionTail left mid) t rest := by
  rw [expression.eq_def]
  rcases sum ls with e | ⟨left, mid, h⟩ <;> simp

/-- The tokens of a null test after `IS`. -/
def nullTokens (negated : Bool) : List Token := if negated then [.not, .null] else [.null]

theorem nullTest_eq_ok {negated : Bool} :
    (∃ stop h, nullTest ls = .ok (negated, stop, ⟨rest, h⟩)) ↔ Uses ls rest (nullTokens negated) := by
  constructor
  · rintro ⟨stop, h, e⟩
    unfold nullTest at e
    split at e
    · cases e
      simp [nullTokens]
    · cases e
      simp [nullTokens]
    · cases unexpected_ne_ok e
    · cases unexpected_ne_ok e
  · intro h
    cases negated with
    | false =>
      obtain ⟨⟨_, text, start⟩, _, rfl, rfl, h'⟩ := Uses.cons_iff.1 h
      obtain rfl := Uses.nil_iff.1 h'
      exact ⟨_, _, rfl⟩
    | true =>
      obtain ⟨⟨_, _, _⟩, _, rfl, rfl, h'⟩ := Uses.cons_iff.1 h
      obtain ⟨⟨_, text, start⟩, _, rfl, rfl, h''⟩ := Uses.cons_iff.1 h'
      obtain rfl := Uses.nil_iff.1 h''
      exact ⟨_, _, rfl⟩

theorem intercalate_append_cons (sep first second : String) (parts : List String) :
    sep.intercalate ((first ++ sep ++ second) :: parts) =
      sep.intercalate (first :: second :: parts) := by
  cases parts <;> simp [String.append_assoc]

theorem partTokens_cons (part : String) (parts : List String) :
    partTokens (part :: parts) = .colon :: .word part :: partTokens parts := rfl

theorem nameParts_eq_ok {name whole : String} {stop : Nat} :
    (∃ stop' h, nameParts name stop ls = .ok (whole, stop', ⟨rest, h⟩)) ↔
      ∃ parts, Uses ls rest (partTokens parts) ∧ Ends (· = .colon) rest ∧
        whole = ":".intercalate (name :: parts) := by
  fun_induction nameParts name stop ls with
  | case1 name stop _ _ part _ _ more ih =>
    constructor
    · rintro ⟨stop', h, e⟩
      obtain ⟨⟨_, _, _⟩, inner, same⟩ := Result.map_eq_ok.1 e
      cases same
      obtain ⟨parts, further, ends, rfl⟩ := ih.1 ⟨_, _, inner⟩
      exact ⟨part :: parts, by simp [partTokens_cons, further], ends,
        intercalate_append_cons _ _ _ _⟩
    · rintro ⟨_ | ⟨part', parts⟩, uses, ends, rfl⟩
      · obtain rfl := Uses.nil_iff.1 uses
        exact absurd rfl (ends _ rfl)
      · obtain ⟨rfl, further⟩ : part = part' ∧ Uses more rest (partTokens parts) := by
          simpa [partTokens_cons] using uses
        obtain ⟨stop', h, inner⟩ := ih.2 ⟨parts, further, ends, rfl⟩
        rw [inner, ← intercalate_append_cons]
        exact ⟨_, by simp only [List.length_cons]; omega, rfl⟩
  | case2 name stop _ _ more noWord =>
    constructor
    · rintro ⟨_, _, e⟩
      cases unexpected_ne_ok e
    · rintro ⟨_ | ⟨part, parts⟩, uses, ends, rfl⟩
      · obtain rfl := Uses.nil_iff.1 uses
        exact absurd rfl (ends _ rfl)
      · obtain ⟨⟨_, _, _⟩, _, same, rfl, _⟩ : ∃ l further, more = l :: further ∧
            l.token = .word part ∧ Uses further rest (partTokens parts) := by
          simpa [partTokens_cons] using uses
        exact (noWord _ _ _ _ same).elim
  | case3 name stop ls _ noColon =>
    have ends : Ends (· = .colon) ls := by
      rintro ⟨_, _, _⟩ h rfl
      cases ls with
      | nil => cases h
      | cons l more => cases h; exact noColon _ _ _ rfl
    constructor
    · rintro ⟨_, _, e⟩
      cases e
      exact ⟨[], Uses.nil_iff.2 rfl, ends, String.intercalate_singleton.symm⟩
    · rintro ⟨_ | ⟨part, parts⟩, uses, _, same⟩
      · obtain rfl := Uses.nil_iff.1 uses
        rw [String.intercalate_singleton] at same
        exact ⟨_, Nat.le_refl _, by rw [same]⟩
      · rw [partTokens_cons, Uses.cons_iff] at uses
        obtain ⟨l, more, rfl, colon, _⟩ := uses
        exact absurd colon (ends l rfl)

/-- The tokens of a question mark, if there is one. -/
def questionTokens (optional : Bool) : List Token := if optional then [.question] else []

theorem taxonAfter_sound {dataSource? : Option String} {first : Lexeme} {name : String} {start : Nat}
    (h : Yields (taxonAfter dataSource? first name start ls) t rest) :
    ∃ parts optional, Uses ls rest (partTokens parts ++ questionTokens optional) ∧
      t.phrase = .taxon ⟨dataSource?, ":".intercalate (name :: parts), optional⟩ := by
  obtain ⟨h', e⟩ := h
  obtain ⟨⟨whole, stop, mid, hmid⟩, named, same⟩ := Result.map_eq_ok.1 e
  obtain ⟨parts, uses, _, rfl⟩ := nameParts_eq_ok.1 ⟨_, _, named⟩
  refine ⟨parts, ?_⟩
  dsimp only at same
  split at same
  · cases same
    exact ⟨true, uses.trans (by simp [questionTokens]), rfl⟩
  · cases same
    exact ⟨false, uses.trans (by simp [questionTokens]), rfl⟩

theorem taxonAfter_complete {dataSource? : Option String} {first : Lexeme} {name : String}
    {start : Nat} {parts : List String} {optional : Bool}
    (uses : Uses ls rest (partTokens parts ++ questionTokens optional))
    (ends : Ends (· ∈ [.colon, .question]) rest) :
    ∃ t, Yields (taxonAfter dataSource? first name start ls) t rest ∧
      t.phrase = .taxon ⟨dataSource?, ":".intercalate (name :: parts), optional⟩ := by
  obtain ⟨mid, named, question⟩ := Uses.append_iff.1 uses
  cases optional with
  | false =>
    obtain rfl := Uses.nil_iff.1 question
    obtain ⟨stop, h, e⟩ := nameParts_eq_ok.2 ⟨parts, named, fun l hl h => ends l hl (by simp [h]), rfl⟩
    refine ⟨.taxon ⟨_, _, false⟩ ⟨start, stop⟩, ⟨h, ?_⟩, rfl⟩
    rw [taxonAfter, e]
    refine congrArg Except.ok ?_
    dsimp only
    split
    · exact absurd (by simp) (ends _ rfl)
    · rfl
  | true =>
    obtain ⟨⟨_, _, _⟩, _, rfl, rfl, more⟩ := Uses.cons_iff.1 question
    obtain rfl := Uses.nil_iff.1 more
    obtain ⟨stop, h, e⟩ := nameParts_eq_ok.2 ⟨parts, named, by simp [Ends], rfl⟩
    exact ⟨_, ⟨by simp at h; omega, by rw [taxonAfter, e]; rfl⟩, rfl⟩

theorem yields_closing_iff {stop : Nat} :
    Yields (closing ls) stop rest ↔ ∃ l, ls = l :: rest ∧ l.token = .closeParen ∧ l.stop = stop := by
  constructor
  · rintro ⟨_, e⟩
    unfold closing at e
    split at e
    · cases e
      exact ⟨_, rfl, rfl, rfl⟩
    · cases unexpected_ne_ok e
  · rintro ⟨⟨token, text, start⟩, rfl, rfl, rfl⟩
    exact ⟨_, rfl⟩

theorem yields_closing :
    (∃ stop, Yields (closing ls) stop rest) ↔ Uses ls rest [.closeParen] := by
  simp [yields_closing_iff]

theorem yields_afterArgument {stop? : Option Nat} :
    Yields (afterArgument ls) stop? rest ↔ ∃ l, ls = l :: rest ∧
      (l.token = .closeParen ∧ stop? = some l.stop ∨ l.token = .comma ∧ stop? = none) := by
  constructor
  · rintro ⟨_, e⟩
    unfold afterArgument at e
    split at e
    · cases e
      exact ⟨_, rfl, .inl ⟨rfl, rfl⟩⟩
    · cases e
      exact ⟨_, rfl, .inr ⟨rfl, rfl⟩⟩
    · cases unexpected_ne_ok e
  · rintro ⟨⟨token, text, start⟩, rfl, ⟨rfl, rfl⟩ | ⟨rfl, rfl⟩⟩
    · exact ⟨_, rfl⟩
    · exact ⟨_, rfl⟩

/-- Arguments are an expression and the closing parenthesis, or a comma and further arguments. -/
theorem arguments_iff {acc args : List Tree} {stop : Nat} :
    (∃ h, arguments acc ls = .ok (args, stop, ⟨rest, h⟩)) ↔
      ∃ t l mid, Yields (expression ls) t (l :: mid) ∧
        (l.token = .closeParen ∧ args = (t :: acc).reverse ∧ l.stop = stop ∧ mid = rest ∨
          l.token = .comma ∧ ∃ h, arguments (t :: acc) mid = .ok (args, stop, ⟨rest, h⟩)) := by
  rw [arguments.eq_def]
  constructor
  · rintro ⟨h, e⟩
    split at e
    · cases e
    · rename_i t mid hmid first
      split at e
      · cases e
      · rename_i after
        cases e
        obtain ⟨l, rfl, ⟨close, stops⟩ | ⟨_, none⟩⟩ := yields_afterArgument.1 ⟨_, after⟩
        · exact ⟨t, l, rest, ⟨hmid, first⟩, .inl ⟨close, rfl, (Option.some.inj stops).symm, rfl⟩⟩
        · cases none
      · rename_i after
        obtain ⟨⟨_, _, _⟩, more, same⟩ := Result.map_eq_ok.1 e
        cases same
        obtain ⟨l, rfl, ⟨_, some⟩ | ⟨comma, _⟩⟩ := yields_afterArgument.1 ⟨_, after⟩
        · cases some
        · exact ⟨t, l, _, ⟨hmid, first⟩, .inr ⟨comma, _, more⟩⟩
  · rintro ⟨t, l, mid, ⟨hmid, first⟩, ⟨close, rfl, rfl, rfl⟩ | ⟨comma, h, further⟩⟩
    · obtain ⟨_, after⟩ := yields_afterArgument.2 ⟨l, rfl, .inl ⟨close, rfl⟩⟩
      rw [first]
      dsimp only
      rw [after]
      exact ⟨by simp at hmid; omega, rfl⟩
    · obtain ⟨_, after⟩ := yields_afterArgument.2 ⟨l, rfl, .inr ⟨comma, rfl⟩⟩
      rw [first]
      dsimp only
      rw [after]
      dsimp only
      rw [further]
      exact ⟨by simp at hmid; omega, rfl⟩

theorem arguments_eq_ok {acc args : List Tree} :
    (∃ stop h, arguments acc ls = .ok (args, stop, ⟨rest, h⟩)) ↔
      ∃ t mid, Yields (expression ls) t mid ∧
        (Uses mid rest [.closeParen] ∧ args = (t :: acc).reverse ∨
          ∃ more, Uses mid more [.comma] ∧
            ∃ stop h, arguments (t :: acc) more = .ok (args, stop, ⟨rest, h⟩)) := by
  refine (exists_congr fun stop => arguments_iff).trans ?_
  constructor
  · rintro ⟨stop, t, l, mid, first, ⟨close, rfl, _, rfl⟩ | ⟨comma, h, further⟩⟩
    · exact ⟨t, _, first, .inl ⟨by simp [close], rfl⟩⟩
    · exact ⟨t, _, first, .inr ⟨mid, by simp [comma], stop, h, further⟩⟩
  · rintro ⟨t, mid, first, ⟨close, rfl⟩ | ⟨more, comma, stop, h, further⟩⟩
    · obtain ⟨l, _, rfl, isClose, none⟩ := Uses.cons_iff.1 close
      obtain rfl := Uses.nil_iff.1 none
      exact ⟨l.stop, t, l, _, first, .inl ⟨isClose, rfl, rfl, rfl⟩⟩
    · obtain ⟨l, _, rfl, isComma, none⟩ := Uses.cons_iff.1 comma
      obtain rfl := Uses.nil_iff.1 none
      exact ⟨stop, t, l, _, first, .inr ⟨isComma, h, further⟩⟩

theorem yields_expressionTail :
    Yields (expressionTail left ls) t rest ↔
      Ends (fun t => t = .is ∨ (logicalOperator? t).isSome) ls ∧ t = left ∧ rest = ls ∨
      (∃ l more op right mid, ls = l :: more ∧ logicalOperator? l.token = some op ∧
        Yields (sum more) right mid ∧
        Yields (expressionTail (operation op left right) mid) t rest) ∨
      ∃ l more negated stop mid h, ls = l :: more ∧ l.token = .is ∧
        nullTest more = .ok (negated, stop, ⟨mid, h⟩) ∧
        Yields (expressionTail (.isNull left negated ⟨left.span.start, stop⟩) mid) t rest := by
  rw [expressionTail.eq_def]
  split
  · simp [Ends]
  · rename_i more
    rcases test : nullTest more with e | ⟨negated | negated, stop, mid, h⟩ <;>
      simp [Ends, logicalOperator?, test]
    all_goals exact fun _ => h
  · rename_i l more isIs
    have noIs : l.token ≠ .is := by
      rintro h
      obtain ⟨_, _, _⟩ := l
      cases h
      exact isIs _ _ rfl
    cases known : logicalOperator? l.token with
    | none => simp [Ends, known, noIs]
    | some op =>
      rcases next : sum more with e | ⟨right, mid, h⟩ <;> simp [Ends, known, next, noIs]

end Tree

end SemanticLayer.Formula
