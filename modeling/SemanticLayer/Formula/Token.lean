import SemanticLayer.Text.CharClass

/-!
# Tokens of formulas

A word is a longest run of letters, digits, underscores and points; what it is, a number, a
keyword or a name, is decided afterwards.  Strings stand between quotes and have no escapes.  Of
the symbols the two-character ones go first.
-/

namespace SemanticLayer.Formula

inductive Token where
  | truth (b : Bool)
  | not
  | is
  | null
  | and
  | or
  | digits (s : String)
  | decimal (s : String)
  | word (s : String)
  | doubleQuoted (s : String)
  | singleQuoted (s : String)
  | openParen
  | closeParen
  | bar
  | colon
  | comma
  | question
  | eq
  | ne
  | gt
  | lt
  | ge
  | le
  | plus
  | minus
  | star
  | slash
  deriving DecidableEq

/-- A token, its text as it was written, and the byte at which it starts. -/
structure Lexeme where
  token : Token
  text : String
  start : Nat
  deriving DecidableEq

/-- The byte after the lexeme. -/
def Lexeme.stop (l : Lexeme) : Nat := l.start + l.text.utf8ByteSize

/-- The first symbol that cannot be read, and the byte at which it starts. -/
structure Unexpected where
  symbol : String
  offset : Nat
  deriving DecidableEq

def Unexpected.endOfText (offset : Nat) : Unexpected := ⟨"<EOF>", offset⟩

namespace Token

def isWordChar (c : Char) : Bool := c.isAlphanum || c == '_' || c == '.'

def allDigits (cs : List Char) : Bool := cs.all Char.isDigit

/-- Digits with one point, at least one digit after it. -/
def isDecimal (cs : List Char) : Bool :=
  let whole := cs.takeWhile (· ≠ '.')
  match cs.dropWhile (· ≠ '.') with
  | _ :: fraction => allDigits whole && !fraction.isEmpty && allDigits fraction
  | [] => false

def ofWord (cs : List Char) : Token :=
  let s := String.ofList cs
  if allDigits cs then .digits s
  else if isDecimal cs then .decimal s
  else
    match String.ofList (cs.map Char.toUpper) with
    | "TRUE" => .truth true
    | "FALSE" => .truth false
    | "NOT" => .not
    | "IS" => .is
    | "NULL" => .null
    | "AND" => .and
    | "OR" => .or
    | _ => .word s

def ofTwo? : Char → Char → Option Token
  | '|', '|' => some .or
  | '&', '&' => some .and
  | '=', '=' => some .eq
  | '!', '=' => some .ne
  | '>', '=' => some .ge
  | '<', '=' => some .le
  | _, _ => none

def ofOne? : Char → Option Token
  | '=' => some .eq
  | '>' => some .gt
  | '<' => some .lt
  | '(' => some .openParen
  | ')' => some .closeParen
  | '|' => some .bar
  | ':' => some .colon
  | ',' => some .comma
  | '?' => some .question
  | '+' => some .plus
  | '-' => some .minus
  | '*' => some .star
  | '/' => some .slash
  | _ => none

/-- The symbol at the start of a text and its characters. -/
def symbol? (c : Char) (cs : List Char) : Option (Token × List Char) :=
  match cs.head?.bind (ofTwo? c) with
  | some t => some (t, c :: cs.take 1)
  | none => (ofOne? c).map fun t => (t, [c])

def ofQuoted (quote : Char) (s : String) : Token :=
  if quote = '"' then .doubleQuoted s else .singleQuoted s

end Token

/-- Bytes of a text in UTF-8. -/
def byteLength (cs : List Char) : Nat := (String.ofList cs).utf8ByteSize

namespace Lexeme

def of (token : Token) (cs : List Char) (start : Nat) : Lexeme := ⟨token, String.ofList cs, start⟩

/-- Splits the rest of a formula, which starts at byte `start`, into lexemes.  A quote that is
never closed makes the end of the text unexpected, or the quote itself if nothing follows it. -/
def lex (start : Nat) : List Char → Except Unexpected (List Lexeme)
  | [] => .ok []
  | c :: cs =>
    if Text.isBlank c then lex (start + c.utf8Size) cs
    else if Token.isWordChar c then
      let word := c :: cs.takeWhile Token.isWordChar
      have : (cs.dropWhile Token.isWordChar).length ≤ cs.length :=
        (List.dropWhile_sublist _).length_le
      (lex (start + byteLength word) (cs.dropWhile Token.isWordChar)).map
        (of (.ofWord word) word start :: ·)
    else if c = '"' ∨ c = '\x27' then
      let inner := cs.takeWhile (· ≠ c)
      match h : cs.dropWhile (· ≠ c) with
      | close :: rest =>
        let quoted := c :: inner ++ [close]
        have : rest.length < cs.length := by
          have := (List.dropWhile_sublist (l := cs) (· ≠ c)).length_le
          rw [h, List.length_cons] at this
          omega
        (lex (start + byteLength quoted) rest).map
          (of (.ofQuoted c (String.ofList inner)) quoted start :: ·)
      | [] =>
        if cs.isEmpty then .error ⟨String.ofList [c], start⟩
        else .error (.endOfText (start + byteLength (c :: cs)))
    else
      match Token.symbol? c cs with
      | none => .error ⟨String.ofList [c], start⟩
      | some (t, text) =>
        (lex (start + byteLength text) (cs.drop (text.length - 1))).map (of t text start :: ·)
termination_by cs => cs.length
decreasing_by all_goals (simp only [List.length_cons, List.length_drop]; omega)

end Lexeme

end SemanticLayer.Formula
