import SemanticLayer.Text.CharClass

/-!
# Tokens of TOML

A text is split into quoted strings, punctuation, blanks, line ends, and words.  Comments are
dropped.  Control characters stand nowhere but in the escapes of strings.
-/

namespace SemanticLayer.Toml

inductive Token where
  | equals
  | dot
  | comma
  | openBracket
  | closeBracket
  | openBrace
  | closeBrace
  /-- Spaces and tabs as they are written, or a comment. -/
  | blank (written : String)
  | newline
  /-- A quoted string; keys are on one line. -/
  | text (s : String) (severalLines : Bool)
  /-- Any other characters: a bare key, a number, a date, a truth value. -/
  | word (s : String)
  deriving DecidableEq

/-- What is left of a list after reading at least one element of it. -/
abbrev Rest {α : Type} (xs : List α) := { rest : List α // rest.length < xs.length }

def Rest.weaken {α : Type} {xs ys : List α} (h : xs.length ≤ ys.length) (r : Rest xs) : Rest ys :=
  ⟨r.1, Nat.lt_of_lt_of_le r.2 h⟩

def isSpace (c : Char) : Bool := c == ' ' || c == '\t'

/-- Whether a character may stand in a comment or a string. -/
def isPlain (c : Char) : Bool := c == '\t' || (0x20 ≤ c.toNat && c.toNat != 0x7f)

def isWordChar (c : Char) : Bool :=
  isPlain c && !isSpace c &&
    c ∉ ['=', '.', ',', '[', ']', '\x7b', '\x7d', '"', '\x27', '#']

/-- The character that a backslash and a letter stand for. -/
def escaped? : Char → Option Char
  | 'b' => some '\x08'
  | 't' => some '\t'
  | 'n' => some '\n'
  | 'f' => some '\x0c'
  | 'r' => some '\r'
  | '"' => some '"'
  | '\\' => some '\\'
  | _ => none

/-- The character of a code point, written with its hexadecimal digits. -/
def codePoint? (digits : List Char) : Option Char :=
  (Text.numberOf? 16 digits).bind fun n =>
    if n < 0xd800 ∨ (0xdfff < n ∧ n < 0x110000) then some (Char.ofNat n) else none

/-- Reads an escape after its backslash. -/
def readEscape (cs : List Char) : Option (Char × Rest cs) :=
  match cs with
  | 'u' :: cs =>
    if 4 ≤ cs.length then
      (codePoint? (cs.take 4)).map fun c => (c, ⟨cs.drop 4, by simp only [List.length_cons, List.length_drop]; omega⟩)
    else none
  | 'U' :: cs =>
    if 8 ≤ cs.length then
      (codePoint? (cs.take 8)).map fun c => (c, ⟨cs.drop 8, by simp only [List.length_cons, List.length_drop]; omega⟩)
    else none
  | c :: cs => (escaped? c).map fun e => (e, ⟨cs, Nat.lt_succ_self _⟩)
  | [] => none

/-- Reads a string of one line up to its closing quote; only double quotes know escapes. -/
def readLine (quote : Char) (acc : List Char) (cs : List Char) : Option (String × Rest cs) :=
  match cs with
  | [] => none
  | c :: rest =>
    if c = quote then some (String.ofList acc.reverse, ⟨rest, by simp⟩)
    else if c = '\\' ∧ quote = '"' then
      match readEscape rest with
      | none => none
      | some (e, ⟨after, h⟩) =>
        (readLine quote (e :: acc) after).map fun (s, r) =>
          (s, r.weaken (by simp only [List.length_cons]; omega))
    else if isPlain c then
      (readLine quote (c :: acc) rest).map fun (s, r) => (s, r.weaken (by simp))
    else none
termination_by cs.length
decreasing_by
  · simp only [List.length_cons]; omega
  · simp

/-- The characters after a line end at the front of a list, if there is one. -/
def afterNewline? (cs : List Char) : Option (Rest cs) :=
  match cs with
  | '\n' :: cs => some ⟨cs, by simp⟩
  | '\r' :: '\n' :: cs => some ⟨cs, by simp only [List.length_cons]; omega⟩
  | _ => none

def isGap (c : Char) : Bool := isSpace c || c == '\n' || c == '\r'

/-- The quotes that close a string of several lines.  Up to two more belong to the string. -/
def closing? (quote : Char) (cs : List Char) : Option (List Char × Rest cs) :=
  let run := (cs.takeWhile (· == quote)).length
  if h : 3 ≤ run then
    have : run ≤ cs.length := (List.takeWhile_sublist _).length_le
    let count := min run 5
    some (List.replicate (count - 3) quote, ⟨cs.drop count, by simp only [List.length_drop]; omega⟩)
  else none

/-- Reads a string of several lines up to its closing quotes.  Between double quotes, a backslash
at the end of a line takes the line end and all blanks after it away. -/
def readLines (quote : Char) (acc : List Char) (cs : List Char) : Option (String × Rest cs) :=
  match closing? quote cs with
  | some (more, rest) => some (String.ofList (acc.reverse ++ more), rest)
  | none =>
    match afterNewline? cs with
    | some ⟨rest, h⟩ =>
      (readLines quote ('\n' :: acc) rest).map fun (s, r) => (s, r.weaken (by omega))
    | none =>
      match cs with
      | [] => none
      | c :: rest =>
        if c = '\\' ∧ quote = '"' then
          match readEscape rest with
          | some (e, ⟨after, h⟩) =>
            (readLines quote (e :: acc) after).map fun (s, r) =>
              (s, r.weaken (by simp only [List.length_cons]; omega))
          | none =>
            if (afterNewline? (rest.dropWhile isSpace)).isSome then
              have := (List.dropWhile_sublist isGap (l := rest)).length_le
              (readLines quote acc (rest.dropWhile isGap)).map fun (s, r) =>
                (s, r.weaken (by simp only [List.length_cons]; omega))
            else none
        else if isPlain c then
          (readLines quote (c :: acc) rest).map fun (s, r) => (s, r.weaken (by simp))
        else none
termination_by cs.length
decreasing_by
  · omega
  · simp only [List.length_cons]; omega
  · simp only [List.length_cons]; omega
  · simp

/-- Reads a string after its first quote. -/
def readText (quote : Char) (cs : List Char) : Option (Token × Rest (quote :: cs)) :=
  match cs with
  | a :: b :: rest =>
    if a = quote ∧ b = quote then
      match afterNewline? rest with
      | some ⟨after, h⟩ =>
        (readLines quote [] after).map fun (s, r) =>
          (.text s true, r.weaken (by simp only [List.length_cons]; omega))
      | none =>
        (readLines quote [] rest).map fun (s, r) =>
          (.text s true, r.weaken (by simp only [List.length_cons]; omega))
    else
      (readLine quote [] (a :: b :: rest)).map fun (s, r) => (.text s false, r.weaken (by simp))
  | cs => (readLine quote [] cs).map fun (s, r) => (.text s false, r.weaken (by simp))

def punctuation? : Char → Option Token
  | '=' => some .equals
  | '.' => some .dot
  | ',' => some .comma
  | '[' => some .openBracket
  | ']' => some .closeBracket
  | '\x7b' => some .openBrace
  | '\x7d' => some .closeBrace
  | _ => none

def isLineEnd (c : Char) : Bool := c == '\n' || c == '\r'

/-- Reads one token; a comment is a blank without text. -/
def readToken (c : Char) (cs : List Char) : Option (Token × Rest (c :: cs)) :=
  match afterNewline? (c :: cs) with
  | some rest => some (.newline, rest)
  | none =>
    if c = '"' ∨ c = '\x27' then readText c cs
    else if c = '#' then
      if (cs.takeWhile fun d => !isLineEnd d).all isPlain then
        some (.blank "", ⟨cs.dropWhile fun d => !isLineEnd d, by
          have := (List.dropWhile_sublist (fun d => !isLineEnd d) (l := cs)).length_le
          simp only [List.length_cons]; omega⟩)
      else none
    else if isSpace c then
      some (.blank (String.ofList (c :: cs.takeWhile isSpace)), ⟨cs.dropWhile isSpace, by
        have := (List.dropWhile_sublist isSpace (l := cs)).length_le
        simp only [List.length_cons]; omega⟩)
    else
      match punctuation? c with
      | some t => some (t, ⟨cs, by simp⟩)
      | none =>
        if isWordChar c then
          some (.word (String.ofList (c :: cs.takeWhile isWordChar)), ⟨cs.dropWhile isWordChar, by
            have := (List.dropWhile_sublist isWordChar (l := cs)).length_le
            simp only [List.length_cons]; omega⟩)
        else none

/-- Splits a text into tokens. -/
def tokens? (cs : List Char) : Option (List Token) :=
  match cs with
  | [] => some []
  | c :: cs =>
    match readToken c cs with
    | none => none
    | some (t, ⟨rest, _⟩) => (tokens? rest).map (t :: ·)
termination_by cs.length
decreasing_by assumption

end SemanticLayer.Toml
