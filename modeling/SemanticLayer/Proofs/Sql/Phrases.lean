import Mathlib.Data.List.ReduceOption
import SemanticLayer.Sql.Rendering

/-!
# Phrases of SQL

How SQL groups the words of an expression.  A `Phrase` is a grouping that keeps every parenthesis;
`Phrase.IsGrouped` says that it obeys the precedences, with operators of one precedence grouped from
the left:

    OR < AND < NOT < comparisons, IS NULL, IN, LIKE < + - < * / < AT TIME ZONE < minus sign < OVER

* `Word`: a word as a reader meets it.  Whether a minus is a sign or an operator shows only from
  where it stands;
* `Phrase.lead`, `Phrase.tail`: what an operator before or after the phrase has to be weaker than;
* `IsReading`: a grouping of given words that obeys the precedences;
* `Phrase.spelling`: the words with the blanks between them;
* `Spelling.shown`: what a reader sees of them, where two minus signs in a row start a comment.
-/

namespace SemanticLayer.Sql

inductive Bracket where
  | paren
  /-- From `CASE` to `END`. -/
  | case
  /-- Square brackets around a position. -/
  | index
  deriving DecidableEq

/-- What stands between the parts within a bracket. -/
inductive Separator where
  | comma
  | distinct
  | asName
  | fromTable
  | whenCase
  | thenValue
  | elseValue
  | partitionBy
  | orderBy
  | direction (d : SortDirection)
  | nulls (n : NullsPlacement)
  | frame (f : Frame)
  deriving DecidableEq

/-- What stands between two phrases. -/
inductive Joint where
  | binary (op : BinaryOperator)
  | inValues (negated : Bool)
  | like (negated ignoreCase : Bool)
  | escape
  | atTimeZone
  | over
  | separator (s : Separator)
  deriving DecidableEq

inductive Word where
  /-- A name, a constant, or any other text that stands for itself. -/
  | atom (t : Token)
  | joint (j : Joint)
  | not
  | isNull (negated : Bool)
  | opening (b : Bracket)
  | closing (b : Bracket)
  deriving DecidableEq

/-- The minus of a subtraction and the sign are the same word. -/
abbrev Word.minus : Word := .joint (.binary .sub)

/-! ## Precedence -/

def BinaryOperator.precedence : BinaryOperator → Nat
  | .or => 1
  | .and => 2
  | .eq => 4
  | .ne => 4
  | .lt => 4
  | .gt => 4
  | .le => 4
  | .ge => 4
  | .add => 5
  | .sub => 5
  | .mul => 6
  | .div => 6

/-- Whether a chain of the operator means the same however it is grouped. -/
def BinaryOperator.groupsFreely : BinaryOperator → Bool
  | .or => true
  | .and => true
  | .add => true
  | .mul => true
  | _ => false

def UnaryOperator.precedence : UnaryOperator → Nat
  | .not => 3
  | .minus => 8

namespace Joint

def precedence : Joint → Nat
  | .separator _ => 0
  | .binary op => op.precedence
  | .inValues _ => 4
  | .like .. => 4
  | .escape => 4
  | .atTimeZone => 7
  | .over => 9

/-- Whether the two make a chain that means the same however it is grouped: one operator twice, if
it is associative, or two separators. -/
def chains : Joint → Joint → Bool
  | .separator _, .separator _ => true
  | .binary op, .binary op' => op == op' && op.groupsFreely
  | _, _ => false

end Joint

def UnaryOperator.word : UnaryOperator → Word
  | .not => .not
  | .minus => .minus

/-! ## Phrases -/

inductive Phrase where
  /-- Nothing, where a separator has nothing at one of its sides or a bracket nothing inside. -/
  | empty
  | atom (t : Token)
  | prefixed (op : UnaryOperator) (operand : Phrase)
  /-- A test for null. -/
  | tested (operand : Phrase) (negated : Bool)
  | joined (left : Phrase) (j : Joint) (right : Phrase)
  /-- A bracket after its head: the name of a function, the value that a position is taken of, or
  nothing. -/
  | bracketed (head : Phrase) (b : Bracket) (inner : Phrase)
  deriving DecidableEq

namespace Phrase

/-- A phrase in parentheses. -/
abbrev group (p : Phrase) : Phrase := .bracketed .empty .paren p

def isEmpty : Phrase → Bool
  | .empty => true
  | _ => false

/-- Whether a bracket may stand directly behind the phrase. -/
def isHead : Phrase → Bool
  | .empty => true
  | .atom _ => true
  | .bracketed .. => true
  | _ => false

def words : Phrase → List Word
  | .empty => []
  | .atom t => [.atom t]
  | .prefixed op e => op.word :: e.words
  | .tested e negated => e.words ++ [.isNull negated]
  | .joined l j r => l.words ++ .joint j :: r.words
  | .bracketed h b e => h.words ++ .opening b :: (e.words ++ [.closing b])

/-- An operator before the phrase takes all of it as its operand if it is weaker than this. -/
def lead : Phrase → Nat
  | .empty => 1
  | .tested e _ => min 4 e.lead
  | .joined l j _ => min j.precedence l.lead
  | _ => 10

/-- An operator after the phrase takes all of it as its operand if it is no stronger than this. -/
def tail : Phrase → Nat
  | .empty => 0
  | .prefixed op e => min op.precedence e.tail
  | .joined _ j r => min j.precedence r.tail
  | _ => 10

/-- Whether the phrase groups its words as the precedences do.  Only separators, the weakest of all,
do without an operand. -/
def IsGrouped : Phrase → Prop
  | .empty => True
  | .atom _ => True
  | .prefixed op e => e.IsGrouped ∧ op.precedence < e.lead
  | .tested e _ => e.IsGrouped ∧ 4 ≤ e.tail
  | .joined l j r =>
    l.IsGrouped ∧ r.IsGrouped ∧ j.precedence ≤ l.tail ∧ j.precedence < r.lead
  | .bracketed h _ e => h.IsGrouped ∧ h.isHead ∧ e.IsGrouped

end Phrase

/-- A way to read the words that obeys the precedences. -/
structure IsReading (ws : List Word) (p : Phrase) : Prop where
  grouped : p.IsGrouped
  words : p.words = ws

/-! ## Spelling -/

def Separator.tokens : Separator → TokenStream
  | .comma => [.symbol .comma]
  | .distinct => [.keyword .distinct]
  | .asName => [.keyword .asName]
  | .fromTable => [.keyword .fromTable]
  | .whenCase => [.keyword .whenCase]
  | .thenValue => [.keyword .thenValue]
  | .elseValue => [.keyword .elseValue]
  | .partitionBy => [.keyword .partitionBy]
  | .orderBy => [.keyword .orderBy]
  | .direction d => [d.token]
  | .nulls n => [n.token]
  | .frame f => f.tokens

namespace Word

def tokens : Word → TokenStream
  | .atom t => [t]
  | .joint (.binary op) => [op.token]
  | .joint (.inValues negated) =>
    (if negated then [.keyword .not, .space] else []) ++ [.keyword .inValues]
  | .joint (.like negated ignoreCase) =>
    (if negated then [.keyword .not, .space] else []) ++
      [.keyword (if ignoreCase then .ilike else .like)]
  | .joint .escape => [.keyword .escape]
  | .joint .atTimeZone => [.raw "AT TIME ZONE"]
  | .joint .over => [.keyword .overRows]
  | .joint (.separator s) => s.tokens
  | .not => [.keyword .not]
  | .isNull negated => [.keyword (if negated then .isNotNull else .isNull)]
  | .opening .paren => [.symbol .openParen]
  | .opening .case => [.keyword .case]
  | .opening .index => [.raw "["]
  | .closing .paren => [.symbol .closeParen]
  | .closing .case => [.keyword .endCase]
  | .closing .index => [.raw "]"]

def text (d : Dialect) (w : Word) : String := TokenStream.text d w.tokens

def isSigned (d : Dialect) (w : Word) : Bool := (w.text d).toList.head? == some '-'

end Word

/-- Words and, as `none`, the blanks between them. -/
abbrev Spelling := List (Option Word)

namespace Spelling

def tokens (s : Spelling) : TokenStream :=
  s.flatMap fun
    | none => [.space]
    | some w => w.tokens

def text (d : Dialect) (s : Spelling) : String := TokenStream.text d s.tokens

/-- What is left of the text for a reader: a minus directly before a word that starts with another
one begins a comment. -/
def shown (d : Dialect) : Spelling → Spelling
  | [] => []
  | [w] => [w]
  | w :: v :: rest =>
    if w = some .minus ∧ v.any (·.isSigned d) then [] else w :: shown d (v :: rest)

end Spelling

/-- A joint with the blanks around it; two of the separators have none before them where they come
first. -/
def Joint.spelling (comesFirst : Bool) : Joint → Spelling
  | .separator .comma => [some (.joint (.separator .comma)), none]
  | .separator .distinct => [some (.joint (.separator .distinct)), none]
  | .separator .partitionBy => [some (.joint (.separator .partitionBy)), none]
  | .separator .orderBy =>
    if comesFirst then [some (.joint (.separator .orderBy)), none]
    else [none, some (.joint (.separator .orderBy)), none]
  | .separator (.frame f) =>
    if comesFirst then [some (.joint (.separator (.frame f)))]
    else [none, some (.joint (.separator (.frame f)))]
  | .separator (.direction d) => [none, some (.joint (.separator (.direction d)))]
  | .separator (.nulls n) => [none, some (.joint (.separator (.nulls n)))]
  | j => [none, some (.joint j), none]

def UnaryOperator.spelling : UnaryOperator → Spelling
  | .not => [some .not, none]
  | .minus => [some .minus]

def Bracket.closingSpelling : Bracket → Spelling
  | .case => [none, some (.closing .case)]
  | b => [some (.closing b)]

namespace Phrase

def startsEmpty : Phrase → Bool
  | .empty => true
  | .joined l _ _ => l.startsEmpty
  | _ => false

/-- The phrase as it is written.  What `CASE` compares with stands after a blank; where there is
nothing, the first `WHEN` brings its own. -/
def spelling : Phrase → Spelling
  | .empty => []
  | .atom t => [some (.atom t)]
  | .prefixed op e => op.spelling ++ e.spelling
  | .tested e negated => e.spelling ++ [none, some (.isNull negated)]
  | .joined l j r => l.spelling ++ j.spelling l.isEmpty ++ r.spelling
  | .bracketed h b e =>
    h.spelling ++ some (.opening b) ::
      ((if b = .case ∧ e.startsEmpty = false then [none] else []) ++ e.spelling ++
        b.closingSpelling)

theorem reduceOption_spelling (p : Phrase) : p.spelling.reduceOption = p.words := by
  induction p with
  | empty => rfl
  | atom t => rfl
  | prefixed op e ih =>
    rw [spelling, words, List.reduceOption_append, ih]
    cases op <;> rfl
  | tested e negated ih =>
    rw [spelling, words, List.reduceOption_append, ih]
    rfl
  | joined l j r ihl ihr =>
    have joint : (j.spelling l.isEmpty).reduceOption = [.joint j] := by
      unfold Joint.spelling
      split <;> first | rfl | (split <;> rfl)
    rw [spelling, words, List.reduceOption_append, List.reduceOption_append, ihl, ihr, joint,
      List.append_assoc, List.singleton_append]
  | bracketed h b e ihh ihe =>
    have closing : b.closingSpelling.reduceOption = [.closing b] := by cases b <;> rfl
    have gap : (if b = .case ∧ e.startsEmpty = false then ([none] : Spelling) else []).reduceOption
        = [] := by
      split <;> rfl
    rw [spelling, words, List.reduceOption_append, ihh, List.reduceOption_cons_of_some,
      List.reduceOption_append, List.reduceOption_append, gap, ihe, closing, List.nil_append]

end Phrase

end SemanticLayer.Sql
