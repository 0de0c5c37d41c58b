import SemanticLayer.Error
import SemanticLayer.Formula.Tree

/-!
# Reading formulas

The grammar, the tightest level last:

* an expression is sums joined by comparisons, `AND` and `OR`, and tests for null after it, all
  on one level and grouped from the left;
* a sum joins products by `+` and `-`; a product joins operands by `*` and `/`;
* an operand is an atom after any number of `NOT`s;
* an atom is a call, a taxon, a truth value, an expression in parentheses, a string, or a number
  with an optional minus.

One token decides each step, so a formula that cannot be read fails at its first token that no
formula could have there.
-/

namespace SemanticLayer.Formula

/-- What is left after reading at least one lexeme. -/
abbrev Shorter (ls : List Lexeme) := { rest : List Lexeme // rest.length < ls.length }

/-- What is left after reading any number of lexemes. -/
abbrev NotLonger (ls : List Lexeme) := { rest : List Lexeme // rest.length ≤ ls.length }

namespace Tree

/-- Stops at the next lexeme; at the end of the formula there is none, so its length is known
only to the caller. -/
def unexpected {α : Type} : List Lexeme → Except (Option Lexeme) α
  | [] => .error none
  | l :: _ => .error (some l)

def productOperator? : Token → Option Operator
  | .star => some .mul
  | .slash => some .div
  | _ => none

def sumOperator? : Token → Option Operator
  | .plus => some .add
  | .minus => some .sub
  | _ => none

def logicalOperator? : Token → Option Operator
  | .and => some .and
  | .or => some .or
  | .eq => some .eq
  | .ne => some .ne
  | .gt => some .gt
  | .ge => some .ge
  | .lt => some .lt
  | .le => some .le
  | _ => none

/-- A null test after `IS`; it yields whether the test is negated and where it ends. -/
def nullTest (ls : List Lexeme) : Except (Option Lexeme) (Bool × Nat × Shorter ls) :=
  match ls with
  | ⟨.null, text, start⟩ :: rest =>
    .ok (false, start + text.utf8ByteSize, ⟨rest, by simp⟩)
  | ⟨.not, _, _⟩ :: ⟨.null, text, start⟩ :: rest =>
    .ok (true, start + text.utf8ByteSize, ⟨rest, by simp only [List.length_cons]; omega⟩)
  | ⟨.not, _, _⟩ :: rest => unexpected rest
  | ls => unexpected ls

/-- The further parts of a taxon's name, each after a colon, and the end of the last. -/
def nameParts (name : String) (stop : Nat) (ls : List Lexeme) :
    Except (Option Lexeme) (String × Nat × NotLonger ls) :=
  match ls with
  | ⟨.colon, _, _⟩ :: ⟨.word part, text, start⟩ :: rest =>
    (nameParts (name ++ ":" ++ part) (start + text.utf8ByteSize) rest).map
      fun (n, s, ⟨r, h⟩) => (n, s, ⟨r, by simp only [List.length_cons]; omega⟩)
  | ⟨.colon, _, _⟩ :: rest => unexpected rest
  | ls => .ok (name, stop, ⟨ls, Nat.le_refl _⟩)
termination_by ls.length

/-- A taxon's name after its first part, with an optional question mark. -/
def taxonAfter (dataSource? : Option String) (first : Lexeme) (name : String) (start : Nat)
    (ls : List Lexeme) : Except (Option Lexeme) (Tree × NotLonger ls) :=
  (nameParts name first.stop ls).map fun (name, stop, ⟨rest, h⟩) =>
    match rest with
    | ⟨.question, text, qStart⟩ :: rest =>
      (.taxon ⟨dataSource?, name, true⟩ ⟨start, qStart + text.utf8ByteSize⟩,
        ⟨rest, by simp only [List.length_cons] at h; omega⟩)
    | rest => (.taxon ⟨dataSource?, name, false⟩ ⟨start, stop⟩, ⟨rest, h⟩)

/-- The end of a closing parenthesis. -/
def closing (ls : List Lexeme) : Except (Option Lexeme) (Nat × Shorter ls) :=
  match ls with
  | ⟨.closeParen, text, start⟩ :: rest => .ok (start + text.utf8ByteSize, ⟨rest, by simp⟩)
  | ls => unexpected ls

/-- What follows an argument: the end of the closing parenthesis, or a comma. -/
def afterArgument (ls : List Lexeme) : Except (Option Lexeme) (Option Nat × Shorter ls) :=
  match ls with
  | ⟨.closeParen, text, start⟩ :: rest => .ok (some (start + text.utf8ByteSize), ⟨rest, by simp⟩)
  | ⟨.comma, _, _⟩ :: rest => .ok (none, ⟨rest, by simp⟩)
  | ls => unexpected ls

mutual

def atom (ls : List Lexeme) : Except (Option Lexeme) (Tree × Shorter ls) :=
  match ls with
  | ⟨.word name, _, start⟩ :: ⟨.openParen, _, _⟩ :: ⟨.closeParen, text, last⟩ :: rest =>
    .ok (.call name [] ⟨start, last + text.utf8ByteSize⟩, ⟨rest, by simp only [List.length_cons]; omega⟩)
  | ⟨.word name, _, start⟩ :: ⟨.openParen, _, _⟩ :: rest =>
    (arguments [] rest).map fun (args, stop, ⟨r, h⟩) =>
      (.call name args ⟨start, stop⟩, ⟨r, by simp only [List.length_cons]; omega⟩)
  | ⟨.word ns, _, start⟩ :: ⟨.bar, _, _⟩ :: ⟨.word name, text, nameStart⟩ :: rest =>
    (taxonAfter (some ns) ⟨.word name, text, nameStart⟩ name start rest).map fun (t, ⟨r, h⟩) =>
      (t, ⟨r, by simp only [List.length_cons]; omega⟩)
  | ⟨.word _, _, _⟩ :: ⟨.bar, _, _⟩ :: rest => unexpected rest
  | ⟨.word name, text, start⟩ :: rest =>
    (taxonAfter none ⟨.word name, text, start⟩ name start rest).map fun (t, ⟨r, h⟩) =>
      (t, ⟨r, by simp only [List.length_cons]; omega⟩)
  | ⟨.truth b, text, start⟩ :: rest =>
    .ok (.bool b ⟨start, start + text.utf8ByteSize⟩, ⟨rest, by simp⟩)
  | ⟨.singleQuoted s, text, start⟩ :: rest =>
    .ok (.singleQuoted s ⟨start, start + text.utf8ByteSize⟩, ⟨rest, by simp⟩)
  | ⟨.doubleQuoted s, text, start⟩ :: rest =>
    .ok (.doubleQuoted s ⟨start, start + text.utf8ByteSize⟩, ⟨rest, by simp⟩)
  | ⟨.digits s, text, start⟩ :: rest =>
    .ok (ofDigits false s ⟨start, start + text.utf8ByteSize⟩, ⟨rest, by simp⟩)
  | ⟨.decimal s, text, start⟩ :: rest =>
    .ok (ofDecimal false s ⟨start, start + text.utf8ByteSize⟩, ⟨rest, by simp⟩)
  | ⟨.minus, _, start⟩ :: ⟨.digits s, text, n⟩ :: rest =>
    .ok (ofDigits true s ⟨start, n + text.utf8ByteSize⟩, ⟨rest, by simp only [List.length_cons]; omega⟩)
  | ⟨.minus, _, start⟩ :: ⟨.decimal s, text, n⟩ :: rest =>
    .ok (ofDecimal true s ⟨start, n + text.utf8ByteSize⟩, ⟨rest, by simp only [List.length_cons]; omega⟩)
  | ⟨.minus, _, _⟩ :: rest => unexpected rest
  | ⟨.openParen, _, start⟩ :: rest =>
    match expression rest with
    | .error e => .error e
    | .ok (inner, ⟨r, h⟩) =>
      (closing r).map fun (stop, ⟨r', h'⟩) =>
        (.paren inner ⟨start, stop⟩, ⟨r', by simp only [List.length_cons]; omega⟩)
  | ls => unexpected ls
termination_by 8 * ls.length + 0

/-- Reads arguments up to the closing parenthesis, and where that ends. -/
def arguments (acc : List Tree) (ls : List Lexeme) :
    Except (Option Lexeme) (List Tree × Nat × Shorter ls) :=
  match expression ls with
  | .error e => .error e
  | .ok (t, ⟨r, h⟩) =>
    match afterArgument r with
    | .error e => .error e
    | .ok (some stop, ⟨r', h'⟩) => .ok ((t :: acc).reverse, stop, ⟨r', by omega⟩)
    | .ok (none, ⟨r', h'⟩) =>
      (arguments (t :: acc) r').map fun (ts, stop, ⟨r'', h''⟩) => (ts, stop, ⟨r'', by omega⟩)
termination_by 8 * ls.length + 7

/-- An atom after any number of `NOT`s. -/
def operand (ls : List Lexeme) : Except (Option Lexeme) (Tree × Shorter ls) :=
  match ls with
  | ⟨.not, _, start⟩ :: rest =>
    (operand rest).map fun (t, ⟨r, h⟩) =>
      (.not t ⟨start, t.span.stop⟩, ⟨r, by simp only [List.length_cons]; omega⟩)
  | ls => atom ls
termination_by 8 * ls.length + 1

def product (ls : List Lexeme) : Except (Option Lexeme) (Tree × Shorter ls) :=
  match operand ls with
  | .error e => .error e
  | .ok (t, ⟨r, h⟩) => (productTail t r).map fun (t, ⟨r', h'⟩) => (t, ⟨r', by omega⟩)
termination_by 8 * ls.length + 2

/-- Joins further operands to a product from the left. -/
def productTail (left : Tree) (ls : List Lexeme) :
    Except (Option Lexeme) (Tree × NotLonger ls) :=
  match ls with
  | [] => .ok (left, ⟨[], Nat.le_refl _⟩)
  | l :: rest =>
    match productOperator? l.token with
    | none => .ok (left, ⟨l :: rest, Nat.le_refl _⟩)
    | some op =>
      match operand rest with
      | .error e => .error e
      | .ok (right, ⟨r, h⟩) =>
        (productTail (operation op left right) r).map fun (t, ⟨r', h'⟩) =>
          (t, ⟨r', by simp only [List.length_cons]; omega⟩)
termination_by 8 * ls.length + 3

def sum (ls : List Lexeme) : Except (Option Lexeme) (Tree × Shorter ls) :=
  match product ls with
  | .error e => .error e
  | .ok (t, ⟨r, h⟩) => (sumTail t r).map fun (t, ⟨r', h'⟩) => (t, ⟨r', by omega⟩)
termination_by 8 * ls.length + 4

/-- Joins further products to a sum from the left. -/
def sumTail (left : Tree) (ls : List Lexeme) : Except (Option Lexeme) (Tree × NotLonger ls) :=
  match ls with
  | [] => .ok (left, ⟨[], Nat.le_refl _⟩)
  | l :: rest =>
    match sumOperator? l.token with
    | none => .ok (left, ⟨l :: rest, Nat.le_refl _⟩)
    | some op =>
      match product rest with
      | .error e => .error e
      | .ok (right, ⟨r, h⟩) =>
        (sumTail (operation op left right) r).map fun (t, ⟨r', h'⟩) =>
          (t, ⟨r', by simp only [List.length_cons]; omega⟩)
termination_by 8 * ls.length + 5

def expression (ls : List Lexeme) : Except (Option Lexeme) (Tree × Shorter ls) :=
  match sum ls with
  | .error e => .error e
  | .ok (t, ⟨r, h⟩) => (expressionTail t r).map fun (t, ⟨r', h'⟩) => (t, ⟨r', by omega⟩)
termination_by 8 * ls.length + 6

/-- Joins further sums and null tests to an expression from the left. -/
def expressionTail (left : Tree) (ls : List Lexeme) :
    Except (Option Lexeme) (Tree × NotLonger ls) :=
  match ls with
  | [] => .ok (left, ⟨[], Nat.le_refl _⟩)
  | ⟨.is, _, _⟩ :: rest =>
    match nullTest rest with
    | .error e => .error e
    | .ok (negated, stop, ⟨r, h⟩) =>
      (expressionTail (.isNull left negated ⟨left.span.start, stop⟩) r).map fun (t, ⟨r', h'⟩) =>
        (t, ⟨r', by simp only [List.length_cons]; omega⟩)
  | l :: rest =>
    match logicalOperator? l.token with
    | none => .ok (left, ⟨l :: rest, Nat.le_refl _⟩)
    | some op =>
      match sum rest with
      | .error e => .error e
      | .ok (right, ⟨r, h⟩) =>
        (expressionTail (operation op left right) r).map fun (t, ⟨r', h'⟩) =>
          (t, ⟨r', by simp only [List.length_cons]; omega⟩)
termination_by 8 * ls.length + 7

end

/-- Reads lexemes that are exactly one expression. -/
def ofLexemes (ls : List Lexeme) : Except (Option Lexeme) Tree :=
  match expression ls with
  | .error e => .error e
  | .ok (t, rest) =>
    match rest.val with
    | [] => .ok t
    | l :: _ => .error (some l)

/-- The tree of a formula, or the first symbol that cannot be read. -/
def read (text : String) : Except Unexpected Tree :=
  match Lexeme.lex 0 text.toList with
  | .error e => .error e
  | .ok ls =>
    match ofLexemes ls with
    | .ok t => .ok t
    | .error none => .error (.endOfText text.utf8ByteSize)
    | .error (some l) => .error ⟨l.text, l.start⟩

end Tree

/-- The characters of a text before a byte. -/
def charsBefore (offset : Nat) : List Char → List Char
  | [] => []
  | c :: cs => if offset < c.utf8Size then [] else c :: charsBefore (offset - c.utf8Size) cs

/-- The line of a byte, counted from one. -/
def lineAt (text : String) (offset : Nat) : Nat :=
  (charsBefore offset text.toList).count '\n' + 1

/-- The characters between the start of a byte's line and the byte. -/
def columnAt (text : String) (offset : Nat) : Nat :=
  ((charsBefore offset text.toList).reverse.takeWhile (· ≠ '\n')).length

/-- The place of an unexpected symbol is given within its line. -/
def Unexpected.toError (text : String) (u : Unexpected) : Error :=
  .unexpectedSymbol u.symbol ⟨columnAt text u.offset + 1, lineAt text u.offset, Text.trim text⟩

/-- Reads a formula. -/
def parse (text : String) : Result Tree :=
  (Tree.read text).mapError (Unexpected.toError text)

/-- The taxons that a formula names, by whether it can do without them. -/
structure UsedSlugs where
  required : NameSet
  optional : NameSet
  deriving DecidableEq

namespace UsedSlugs

def empty : UsedSlugs := ⟨.empty, .empty⟩

def add (u : UsedSlugs) (slug : String) (optional : Bool) : UsedSlugs :=
  if optional then { u with optional := u.optional.insert slug }
  else { u with required := u.required.insert slug }

def merge (u v : UsedSlugs) : UsedSlugs := ⟨u.required ∪ v.required, u.optional ∪ v.optional⟩

def all (u : UsedSlugs) : NameSet := u.required ∪ u.optional

def isEmpty (u : UsedSlugs) : Bool := u.required.isEmpty && u.optional.isEmpty

end UsedSlugs

namespace Tree

mutual

/-- The taxons named in a tree, in order. -/
def taxonRefs : Tree → List TaxonRef
  | .integer .. => []
  | .float .. => []
  | .bool .. => []
  | .singleQuoted .. => []
  | .doubleQuoted .. => []
  | .taxon r _ => [r]
  | .call _ args _ => taxonRefsOf args
  | .paren t _ => t.taxonRefs
  | .binary _ l r _ => l.taxonRefs ++ r.taxonRefs
  | .not t _ => t.taxonRefs
  | .isNull t _ _ => t.taxonRefs

def taxonRefsOf : List Tree → List TaxonRef
  | [] => []
  | t :: ts => t.taxonRefs ++ taxonRefsOf ts

end

end Tree

/-- Whether a slug may be followed: it names no data source or one of those allowed. -/
def isInScope (dataSources? : Option NameSet) (slug : String) : Bool :=
  match dataSources?, Slug.dataSource? slug with
  | some allowed, some ns => allowed.contains ns
  | _, _ => true

/-- The taxons in scope that a formula names itself, without those of their calculations. -/
def usedSlugs (text : String) (dataSources? : Option NameSet) : Result UsedSlugs := do
  let tree ← parse text
  return (tree.taxonRefs.filter fun r => isInScope dataSources? r.slug).foldl
    (fun u r => u.add r.slug r.optional) .empty

end SemanticLayer.Formula
