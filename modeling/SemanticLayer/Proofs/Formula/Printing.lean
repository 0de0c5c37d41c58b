import Mathlib
import SemanticLayer.Proofs.Formula.Reading

/-!
# Writing formulas

A formula that was read is written as tokens with spaces between them, and reading those gives the
same formula.  How a double is written is left open, since many digits are the same double.

* `Phrase.tokens`: a formula as tokens;
* `expression_reprints`: the rules that made a formula make it of its own tokens too;
* `read_follows_grammar`: what is read, and that writing it loses nothing.
-/

namespace SemanticLayer.Formula

open Grammar

def Operator.token : Operator → Token
  | .add => .plus
  | .sub => .minus
  | .mul => .star
  | .div => .slash
  | .and => .and
  | .or => .or
  | .eq => .eq
  | .ne => .ne
  | .gt => .gt
  | .ge => .ge
  | .lt => .lt
  | .le => .le

/-- A name's parts, which colons join. -/
def TaxonRef.parts (r : TaxonRef) : List String :=
  (r.name.toList.splitOn ':').map String.ofList

def TaxonRef.tokens (r : TaxonRef) : List Token :=
  match r.parts with
  | first :: parts => taxonTokens r.dataSource? first parts r.optional
  | [] => []

namespace Phrase

def integerTokens (n : Int64) : List Token :=
  (if n.toInt < 0 then [.minus] else []) ++ [.digits (Nat.repr n.toInt.natAbs)]

mutual

/-- The tokens of a formula, where `write` gives those of a double. -/
def tokens (write : Double → List Token) : Phrase → List Token
  | .integer n => integerTokens n
  | .float x => write x
  | .bool b => [.truth b]
  | .singleQuoted s => [.singleQuoted s]
  | .doubleQuoted s => [.doubleQuoted s]
  | .taxon ref => ref.tokens
  | .call name args => .word name :: .openParen :: argumentTokens write args ++ [.closeParen]
  | .paren p => .openParen :: tokens write p ++ [.closeParen]
  | .binary op l r => tokens write l ++ op.token :: tokens write r
  | .not p => .not :: tokens write p
  | .isNull p negated => tokens write p ++ .is :: Tree.nullTokens negated

def argumentTokens (write : Double → List Token) : List Phrase → List Token
  | [] => []
  | [p] => tokens write p
  | p :: q :: ps => tokens write p ++ .comma :: argumentTokens write (q :: ps)

end

mutual

def floats : Phrase → List Double
  | .integer _ => []
  | .float x => [x]
  | .bool _ => []
  | .singleQuoted _ => []
  | .doubleQuoted _ => []
  | .taxon _ => []
  | .call _ args => floatsOf args
  | .paren p => p.floats
  | .binary _ l r => l.floats ++ r.floats
  | .not p => p.floats
  | .isNull p _ => p.floats

def floatsOf : List Phrase → List Double
  | [] => []
  | p :: ps => p.floats ++ floatsOf ps

end

end Phrase

variable {write : Double → List Token} {ts us : List Token} {t : Token} {op : Operator} {p q : Phrase}

def AllWritten (ts : List Token) : Prop := ∀ t ∈ ts, t.IsWritten

/-- The double has tokens of which it is the value. -/
structure Writes (write : Double → List Token) (x : Double) : Prop where
  number : Number (write x) (.float x)
  written : AllWritten (write x)

namespace AllWritten

theorem append_iff : AllWritten (ts ++ us) ↔ AllWritten ts ∧ AllWritten us := List.forall_mem_append

theorem cons_iff : AllWritten (t :: ts) ↔ t.IsWritten ∧ AllWritten ts := List.forall_mem_cons

theorem nil : AllWritten [] := List.forall_mem_nil _

end AllWritten

/-! ## Numbers and names -/

theorem Token.isWritten_digits (n : Nat) : (Token.digits (Nat.repr n)).IsWritten := by
  have digits : ∀ c ∈ Nat.toDigits 10 n, c.isDigit = true := fun c hc =>
    Nat.isDigit_of_mem_toDigits (by decide) (by decide) hc
  rw [Nat.repr_eq_ofList_toDigits]
  exact isWritten_word Nat.toDigits_ne_nil
    (fun c hc => by simp [isWordChar, Char.isAlphanum, digits c hc]) (.digits digits)

theorem Grammar.number_integer (n : Int64) : Number (Phrase.integerTokens n) (.integer n) := by
  have range := And.intro n.minValue_le_toInt n.toInt_le
  have value (negative : Bool)
      (h : (if negative then -(n.toInt.natAbs : Int) else n.toInt.natAbs) = n.toInt) :
      Phrase.ofDigits negative (Nat.repr n.toInt.natAbs) = .integer n := by
    unfold Phrase.ofDigits Tree.ofDigits
    simp only [Nat.toNat?_repr, Option.getD_some]
    rw [h, if_pos range, Int64.ofInt_toInt, Tree.phrase]
  unfold Phrase.integerTokens
  split
  · rename_i negative
    rw [← value true (by rw [if_pos rfl]; omega)]
    exact .minusDigits _
  · rename_i positive
    rw [← value false (by rw [if_neg Bool.false_ne_true]; omega)]
    exact .digits _

theorem Phrase.integerTokens_written (n : Int64) : AllWritten (integerTokens n) := by
  unfold integerTokens
  refine AllWritten.append_iff.2 ⟨?_, AllWritten.cons_iff.2 ⟨Token.isWritten_digits _, .nil⟩⟩
  split
  · exact AllWritten.cons_iff.2 ⟨Token.isWritten_ofOne (c := '-') rfl, .nil⟩
  · exact .nil

theorem Phrase.ofDigits_cases (negative : Bool) (s : String) :
    (∃ n, ofDigits negative s = .integer n) ∨ ∃ x, ofDigits negative s = .float x := by
  unfold ofDigits Tree.ofDigits
  exact (ite_eq_or_eq _ _ _).imp (fun h => ⟨_, congrArg Tree.phrase h⟩)
    fun h => ⟨_, congrArg Tree.phrase h⟩

theorem Grammar.Number.cases_value (h : Number ts p) :
    (∃ n, p = .integer n) ∨ ∃ x, p = .float x := by
  cases h with
  | digits s => exact Phrase.ofDigits_cases _ s
  | decimal s => exact .inr ⟨_, rfl⟩
  | minusDigits s => exact Phrase.ofDigits_cases _ s
  | minusDecimal s => exact .inr ⟨_, rfl⟩

theorem Grammar.Number.rewrites (h : Number ts p) (writes : ∀ x ∈ p.floats, Writes write x) :
    Number (p.tokens write) p ∧ AllWritten (p.tokens write) := by
  obtain ⟨n, rfl⟩ | ⟨x, rfl⟩ := h.cases_value
  · rw [Phrase.tokens]
    exact ⟨number_integer n, Phrase.integerTokens_written n⟩
  · obtain ⟨number, written⟩ := writes x (by simp [Phrase.floats])
    rw [Phrase.tokens]
    exact ⟨number, written⟩

theorem TaxonRef.parts_intercalate {dataSource? : Option String} {optional : Bool} {first : String}
    {parts : List String} (h : ∀ part ∈ first :: parts, ':' ∉ part.toList) :
    TaxonRef.parts ⟨dataSource?, ":".intercalate (first :: parts), optional⟩ = first :: parts := by
  unfold TaxonRef.parts
  rw [String.toList_intercalate]
  have split : ([':'].intercalate ((first :: parts).map String.toList)).splitOn ':' =
      (first :: parts).map String.toList :=
    List.splitOn_intercalate ':' (by simpa using h) (by simp)
  rw [show ":".toList = [':'] from rfl, split, List.map_map]
  simp [Function.comp_def]

/-! ## Formulas -/

namespace Grammar

open Phrase

theorem token_of_productOperator (h : Tree.productOperator? t = some op) : t = op.token := by
  unfold Tree.productOperator? at h
  split at h <;> cases h <;> rfl

theorem token_of_sumOperator (h : Tree.sumOperator? t = some op) : t = op.token := by
  unfold Tree.sumOperator? at h
  split at h <;> cases h <;> rfl

theorem token_of_logicalOperator (h : Tree.logicalOperator? t = some op) : t = op.token := by
  unfold Tree.logicalOperator? at h
  split at h <;> cases h <;> rfl

theorem argumentTokens_cons {ps : List Phrase} (h : Arguments ts ps) :
    argumentTokens write (p :: ps) = p.tokens write ++ .comma :: argumentTokens write ps := by
  cases h <;> rfl

theorem taxon_reprints {dataSource? : Option String} {first : String} {parts : List String}
    {optional : Bool} (written : AllWritten (taxonTokens dataSource? first parts optional)) :
    (TaxonRef.mk dataSource? (":".intercalate (first :: parts)) optional).tokens =
      taxonTokens dataSource? first parts optional := by
  have words : ∀ part ∈ first :: parts, ':' ∉ part.toList := by
    intro part hp colon
    have mem : .word part ∈ taxonTokens dataSource? first parts optional := by
      simp only [taxonTokens, partTokens]
      rcases List.mem_cons.1 hp with rfl | hp
      · simp
      · simp [hp]
    have wordChar := (Splits.word_of_mem (written _ mem) (List.mem_singleton_self _)).2 _ colon
    cases wordChar
  unfold TaxonRef.tokens
  rw [TaxonRef.parts_intercalate words]

/-- Tokens that make the formula, each of which some text has, show that its own tokens do. -/
def Reprints (write : Double → List Token) (rule : List Token → Phrase → Prop) (ts : List Token)
    (p : Phrase) : Prop :=
  AllWritten ts → (∀ x ∈ p.floats, Writes write x) →
    rule (p.tokens write) p ∧ AllWritten (p.tokens write)

def ArgumentsReprint (write : Double → List Token) (ts : List Token) (ps : List Phrase) : Prop :=
  AllWritten ts → (∀ x ∈ floatsOf ps, Writes write x) →
    Arguments (argumentTokens write ps) ps ∧ AllWritten (argumentTokens write ps)

variable {rule rule' : List Token → Phrase → Prop}

theorem Reprints.mono (h : Reprints write rule ts p) (weaker : ∀ ts, rule ts p → rule' ts p) :
    Reprints write rule' ts p := by
  intro written writes
  obtain ⟨same, written'⟩ := h written writes
  exact ⟨weaker _ same, written'⟩

theorem Reprints.operation (left : Reprints write rule ts p) (symbol : t = op.token)
    (right : Reprints write rule' us q)
    (joins : ∀ ts us, rule ts p → rule' us q → rule (ts ++ t :: us) (.binary op p q)) :
    Reprints write rule (ts ++ t :: us) (.binary op p q) := by
  intro written writes
  obtain ⟨first, second⟩ := AllWritten.append_iff.1 written
  obtain ⟨operator, others⟩ := AllWritten.cons_iff.1 second
  rw [floats, List.forall_mem_append] at writes
  obtain ⟨l, l'⟩ := left first writes.1
  obtain ⟨r, r'⟩ := right others writes.2
  rw [tokens, ← symbol]
  exact ⟨joins _ _ l r, AllWritten.append_iff.2 ⟨l', AllWritten.cons_iff.2 ⟨operator, r'⟩⟩⟩

theorem Reprints.isNull (negated : Bool) (h : Reprints write rule ts p)
    (tests : ∀ ts, rule ts p → rule (ts ++ .is :: Tree.nullTokens negated) (.isNull p negated)) :
    Reprints write rule (ts ++ .is :: Tree.nullTokens negated) (.isNull p negated) := by
  intro written writes
  obtain ⟨first, test⟩ := AllWritten.append_iff.1 written
  rw [floats] at writes
  obtain ⟨same, same'⟩ := h first writes
  rw [tokens]
  exact ⟨tests _ same, AllWritten.append_iff.2 ⟨same', test⟩⟩

theorem Reprints.not (h : Reprints write Operand ts p) :
    Reprints write Operand (.not :: ts) (.not p) := by
  intro written writes
  obtain ⟨not, inner⟩ := AllWritten.cons_iff.1 written
  rw [floats] at writes
  obtain ⟨same, same'⟩ := h inner writes
  rw [tokens]
  exact ⟨.not same, AllWritten.cons_iff.2 ⟨not, same'⟩⟩

theorem Reprints.paren (h : Reprints write Expression ts p) :
    Reprints write Atom (.openParen :: ts ++ [.closeParen]) (.paren p) := by
  intro written writes
  obtain ⟨front, close⟩ := AllWritten.append_iff.1 written
  obtain ⟨start, inner⟩ := AllWritten.cons_iff.1 front
  rw [floats] at writes
  obtain ⟨same, same'⟩ := h inner writes
  rw [tokens]
  exact ⟨.paren same, AllWritten.append_iff.2 ⟨AllWritten.cons_iff.2 ⟨start, same'⟩, close⟩⟩

theorem ArgumentsReprint.call {ps : List Phrase} (name : String) (h : ArgumentsReprint write ts ps) :
    Reprints write Atom (.word name :: .openParen :: ts ++ [.closeParen]) (.call name ps) := by
  intro written writes
  obtain ⟨front, close⟩ := AllWritten.append_iff.1 written
  obtain ⟨word, more⟩ := AllWritten.cons_iff.1 front
  obtain ⟨start, inner⟩ := AllWritten.cons_iff.1 more
  rw [floats] at writes
  obtain ⟨args, args'⟩ := h inner writes
  rw [tokens]
  exact ⟨.call name args, AllWritten.append_iff.2
    ⟨AllWritten.cons_iff.2 ⟨word, AllWritten.cons_iff.2 ⟨start, args'⟩⟩, close⟩⟩

theorem ArgumentsReprint.last (h : Reprints write Expression ts p) :
    ArgumentsReprint write ts [p] := by
  intro written writes
  rw [floatsOf, floatsOf, List.append_nil] at writes
  obtain ⟨same, same'⟩ := h written writes
  rw [argumentTokens]
  exact ⟨.last same, same'⟩

theorem ArgumentsReprint.more {ps : List Phrase} (h : Reprints write Expression ts p)
    (further : Arguments us ps) (others : ArgumentsReprint write us ps) :
    ArgumentsReprint write (ts ++ .comma :: us) (p :: ps) := by
  intro written writes
  obtain ⟨first, second⟩ := AllWritten.append_iff.1 written
  obtain ⟨comma, rest⟩ := AllWritten.cons_iff.1 second
  rw [floatsOf, List.forall_mem_append] at writes
  obtain ⟨same, same'⟩ := h first writes.1
  obtain ⟨args, args'⟩ := others rest writes.2
  rw [argumentTokens_cons further]
  exact ⟨.more same args, AllWritten.append_iff.2 ⟨same', AllWritten.cons_iff.2 ⟨comma, args'⟩⟩⟩

theorem reprints_taxon (dataSource? : Option String) (first : String) (parts : List String)
    (optional : Bool) :
    Reprints write Atom (taxonTokens dataSource? first parts optional)
      (.taxon ⟨dataSource?, ":".intercalate (first :: parts), optional⟩) := by
  intro written _
  rw [tokens, taxon_reprints written]
  exact ⟨.taxon dataSource? first parts optional, written⟩

theorem Number.reprints (h : Number ts p) : Reprints write Atom ts p := by
  intro _ writes
  obtain ⟨number, written⟩ := h.rewrites writes
  exact ⟨.number number, written⟩

mutual

theorem atom_reprints {ts : List Token} {p : Phrase} : Atom ts p → Reprints write Atom ts p
  | .callEmpty name => fun written _ => ⟨.callEmpty name, written⟩
  | .call name h => (arguments_reprint h).call name
  | .taxon dataSource? first parts optional => reprints_taxon dataSource? first parts optional
  | .truth b => fun written _ => ⟨.truth b, written⟩
  | .paren h => (expression_reprints h).paren
  | .singleQuoted s => fun written _ => ⟨.singleQuoted s, written⟩
  | .doubleQuoted s => fun written _ => ⟨.doubleQuoted s, written⟩
  | .number h => h.reprints

theorem arguments_reprint {ts : List Token} {ps : List Phrase} :
    Arguments ts ps → ArgumentsReprint write ts ps
  | .last h => .last (expression_reprints h)
  | .more h further => .more (expression_reprints h) further (arguments_reprint further)

theorem operand_reprints {ts : List Token} {p : Phrase} :
    Operand ts p → Reprints write Operand ts p
  | .atom h => (atom_reprints h).mono fun _ => .atom
  | .not h => (operand_reprints h).not

theorem product_reprints {ts : List Token} {p : Phrase} :
    Product ts p → Reprints write Product ts p
  | .operand h => (operand_reprints h).mono fun _ => .operand
  | .operation left operator right =>
    (product_reprints left).operation (token_of_productOperator operator) (operand_reprints right)
      fun _ _ left right => .operation left operator right

theorem sum_reprints {ts : List Token} {p : Phrase} : Sum ts p → Reprints write Sum ts p
  | .product h => (product_reprints h).mono fun _ => .product
  | .operation left operator right =>
    (sum_reprints left).operation (token_of_sumOperator operator) (product_reprints right)
      fun _ _ left right => .operation left operator right

theorem expression_reprints {ts : List Token} {p : Phrase} :
    Expression ts p → Reprints write Expression ts p
  | .sum h => (sum_reprints h).mono fun _ => .sum
  | .operation left operator right =>
    (expression_reprints left).operation (token_of_logicalOperator operator) (sum_reprints right)
      fun _ _ left right => .operation left operator right
  | .isNull h => .isNull false (expression_reprints h) fun _ => .isNull
  | .isNotNull h => .isNull true (expression_reprints h) fun _ => .isNotNull

end

end Grammar

/-- A formula is read exactly if its text splits into tokens of which the rules make one, and then
as what they make; no tokens are two formulas; and writing what is read loses nothing but its
places. -/
theorem read_follows_grammar :
    (∀ text p, (∃ t, Tree.read text = .ok t ∧ t.phrase = p) ↔
      ∃ ts, Splits text.toList ts ∧ Expression ts p) ∧
    (∀ ts p q, Expression ts p → Expression ts q → p = q) ∧
    ∀ write text t, Tree.read text = .ok t → (∀ x ∈ t.phrase.floats, Writes write x) →
      ∃ u, Tree.read (Token.print (t.phrase.tokens write)) = .ok u ∧ u.phrase = t.phrase := by
  refine ⟨Tree.read_eq_ok_iff, fun ts p q => Tree.expression_unique, fun write text t read writes => ?_⟩
  obtain ⟨ts, splits, expr⟩ := (Tree.read_eq_ok_iff text t.phrase).1 ⟨t, read, rfl⟩
  obtain ⟨again, written⟩ := expression_reprints expr splits.isWritten writes
  exact (Tree.read_eq_ok_iff _ _).2 ⟨_, Splits.printed written, again⟩

/-- A minus before a number stays apart from the one between the operands. -/
theorem read_follows_grammar_negative :
    ∃ t u, Tree.read "a - -1.5 * b" = .ok t ∧
      Tree.read (Token.print (t.phrase.tokens fun _ => [.minus, .decimal "1.5"])) = .ok u ∧
      u.phrase = t.phrase := by
  have run : (match Tree.read "a - -1.5 * b" with
      | .ok t => t.phrase.floats.all (· = (Double.parse? "-1.5").getD .zero)
      | .error _ => false) = true := by
    decide +kernel
  split at run
  · rename_i t read
    have writes : ∀ x ∈ t.phrase.floats, Writes (fun _ => [.minus, .decimal "1.5"]) x := by
      intro x hx
      obtain rfl : x = (Double.parse? "-1.5").getD .zero := by simpa using List.all_eq_true.1 run x hx
      have decimal : Token.IsDecimal ['1', '.', '5'] :=
        ⟨['1'], ['5'], rfl, Token.allDigits_iff.1 rfl, List.cons_ne_nil _ _,
          Token.allDigits_iff.1 rfl⟩
      have word : (Token.decimal "1.5").IsWritten :=
        Token.isWritten_word (List.cons_ne_nil _ _) (List.all_eq_true.1 rfl) (.decimal decimal)
      exact ⟨.minusDecimal "1.5", AllWritten.cons_iff.2
        ⟨Token.isWritten_ofOne (c := '-') rfl, AllWritten.cons_iff.2 ⟨word, .nil⟩⟩⟩
    obtain ⟨u, again, same⟩ := read_follows_grammar.2.2 _ _ t read writes
    exact ⟨t, u, read, again, same⟩
  · cases run

end SemanticLayer.Formula
