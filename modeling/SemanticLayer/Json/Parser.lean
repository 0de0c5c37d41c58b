import SemanticLayer.Json.Value
import SemanticLayer.Text.CharClass

/-!
# Reading JSON text

A text is split into tokens, and the tokens are read by recursive descent; every step leaves
fewer characters or tokens than it was given.

A number without fraction and exponent is an integer if it fits 64 bits, signed or unsigned.
All others are doubles: the leading digits that fit 64 bits, as a double, scaled by a power of
ten, each step rounded.

Arrays and objects are read at most so many levels deep.
-/

namespace SemanticLayer.Json

open Text (hexValue?)

inductive Token where
  | openBracket
  | closeBracket
  | openBrace
  | closeBrace
  | comma
  | colon
  | text (s : String)
  | scalar (j : Json)

/-- What is left of a list after reading at least one element of it. -/
abbrev Rest {α : Type} (xs : List α) := { rest : List α // rest.length < xs.length }

def hex4? (a b c d : Char) : Option Nat := do
  return ((← hexValue? a) * 16 + (← hexValue? b)) * 256 + ((← hexValue? c) * 16 + (← hexValue? d))

/-- The character a backslash and a letter stand for. -/
def escaped? : Char → Option Char
  | '"' => some '"'
  | '\\' => some '\\'
  | '/' => some '/'
  | 'b' => some '\x08'
  | 'f' => some '\x0c'
  | 'n' => some '\n'
  | 'r' => some '\r'
  | 't' => some '\t'
  | _ => none

/-- Reads a string after its opening quote; two escaped surrogates are one character. -/
def readString (acc : List Char) : (cs : List Char) → Option (String × Rest cs)
  | [] => none
  | '"' :: cs => some (String.ofList acc.reverse, ⟨cs, by simp⟩)
  | '\\' :: 'u' :: a :: b :: c :: d :: cs =>
    match hex4? a b c d with
    | none => none
    | some n =>
      if 0xd800 ≤ n ∧ n < 0xdc00 then
        match cs with
        | '\\' :: 'u' :: e :: f :: g :: h :: cs =>
          match hex4? e f g h with
          | none => none
          | some m =>
            if 0xdc00 ≤ m ∧ m < 0xe000 then
              let code := 0x10000 + (n - 0xd800) * 1024 + (m - 0xdc00)
              (readString (Char.ofNat code :: acc) cs).map fun (s, ⟨r, h⟩) =>
                (s, ⟨r, by simp only [List.length_cons]; omega⟩)
            else none
        | _ => none
      else if 0xdc00 ≤ n ∧ n < 0xe000 then none
      else
        (readString (Char.ofNat n :: acc) cs).map fun (s, ⟨r, h⟩) =>
          (s, ⟨r, by simp only [List.length_cons]; omega⟩)
  | '\\' :: c :: cs =>
    match escaped? c with
    | none => none
    | some e =>
      (readString (e :: acc) cs).map fun (s, ⟨r, h⟩) =>
        (s, ⟨r, by simp only [List.length_cons]; omega⟩)
  | c :: cs =>
    if c.toNat < 0x20 ∨ c = '\\' then none
    else
      (readString (c :: acc) cs).map fun (s, ⟨r, h⟩) =>
        (s, ⟨r, by simp only [List.length_cons]; omega⟩)
termination_by cs => cs.length

/-- The characters that can belong to a number. -/
def isNumberChar (c : Char) : Bool :=
  c.isDigit || c == '-' || c == '+' || c == '.' || c == 'e' || c == 'E'

/-- Reads digits into a number below `2 ^ 64`; the digits that no longer fit are only counted. -/
def significand (acc : Nat) : List Char → Nat × Nat
  | [] => (acc, 0)
  | c :: cs =>
    let next := acc * 10 + (c.toNat - 48)
    if next < UInt64.size then significand next cs else (acc, cs.length + 1)

/-- A significand scaled by a power of ten; none if it is too large for a double. -/
def scaled? (n : Nat) (exp : Int) : Option Double :=
  let x := Double.ofDecimal n 0
  let ten (k : Nat) := Double.ofDecimal 1 k
  if n = 0 then some x
  else if exp > 308 then none
  else if 0 ≤ exp then
    let y := x.mul (ten exp.toNat)
    if y.isFinite then some y else none
  else if -308 ≤ exp then some (x.div (ten (-exp).toNat))
  else if -616 ≤ exp then some ((x.div (ten 308)).div (ten (-exp - 308).toNat))
  else some .zero

/-- Reads an unsigned number with its sign given apart. -/
def numberOf? (negative : Bool) (cs : List Char) : Option Json :=
  let whole := cs.takeWhile Char.isDigit
  let rest := cs.dropWhile Char.isDigit
  if whole.isEmpty || (whole.length > 1 && whole.head? == some '0') then none
  else
    let (n, skipped) := significand 0 whole
    if rest.isEmpty && skipped == 0 && (!negative || (0 < n && n ≤ 0x8000000000000000)) then
      some (.int (if negative then -n else n))
    else
      let (fraction, hasPoint, rest) :=
        match rest with
        | '.' :: rest => (rest.takeWhile Char.isDigit, true, rest.dropWhile Char.isDigit)
        | _ => ([], false, rest)
      if hasPoint && fraction.isEmpty then none
      else
        let (m, dropped) := if skipped == 0 then significand n fraction else (n, fraction.length)
        let exp : Int := skipped - (fraction.length - dropped : Nat)
        match Double.readExponent? rest with
        | none => none
        | some e => (scaled? m (exp + e)).map fun x => .real (x.withSign negative)

def number? : List Char → Option Json
  | '-' :: cs => numberOf? true cs
  | cs => numberOf? false cs

/-- Splits a JSON text into tokens. -/
def tokens? : List Char → Option (List Token)
  | [] => some []
  | c :: cs =>
    if c = ' ' ∨ c = '\n' ∨ c = '\t' ∨ c = '\r' then tokens? cs
    else if c = '[' then (tokens? cs).map (.openBracket :: ·)
    else if c = ']' then (tokens? cs).map (.closeBracket :: ·)
    else if c = '\x7b' then (tokens? cs).map (.openBrace :: ·)
    else if c = '\x7d' then (tokens? cs).map (.closeBrace :: ·)
    else if c = ',' then (tokens? cs).map (.comma :: ·)
    else if c = ':' then (tokens? cs).map (.colon :: ·)
    else if c = '"' then
      match readString [] cs with
      | none => none
      | some (s, ⟨rest, _⟩) => (tokens? rest).map (.text s :: ·)
    else if isNumberChar c then
      have : (cs.dropWhile isNumberChar).length ≤ cs.length :=
        (List.dropWhile_sublist _).length_le
      match number? (c :: cs.takeWhile isNumberChar) with
      | none => none
      | some j => (tokens? (cs.dropWhile isNumberChar)).map (.scalar j :: ·)
    else
      match c, cs with
      | 't', 'r' :: 'u' :: 'e' :: cs => (tokens? cs).map (.scalar (.bool true) :: ·)
      | 'f', 'a' :: 'l' :: 's' :: 'e' :: cs => (tokens? cs).map (.scalar (.bool false) :: ·)
      | 'n', 'u' :: 'l' :: 'l' :: cs => (tokens? cs).map (.scalar .null :: ·)
      | _, _ => none
termination_by cs => cs.length
decreasing_by all_goals (simp only [List.length_cons]; omega)

/-- The most arrays and objects that may be open at one place of a text. -/
def maxDepth : Nat := 127

mutual

/-- Reads one value, with so many more levels of arrays and objects. -/
def readValue (depth : Nat) (ts : List Token) : Option (Json × Rest ts) :=
  match ts with
  | .text s :: ts => some (.str s, ⟨ts, by simp⟩)
  | .scalar j :: ts => some (j, ⟨ts, by simp⟩)
  | .openBracket :: ts =>
    match depth, ts with
    | 0, _ => none
    | _ + 1, .closeBracket :: ts => some (.arr [], ⟨ts, by simp only [List.length_cons]; omega⟩)
    | depth + 1, ts =>
      (readItems depth [] ts).map fun (items, ⟨r, h⟩) =>
        (.arr items, ⟨r, by simp only [List.length_cons]; omega⟩)
  | .openBrace :: ts =>
    match depth, ts with
    | 0, _ => none
    | _ + 1, .closeBrace :: ts => some (.obj [], ⟨ts, by simp only [List.length_cons]; omega⟩)
    | depth + 1, ts =>
      (readFields depth [] ts).map fun (fields, ⟨r, h⟩) =>
        (.ofFields fields, ⟨r, by simp only [List.length_cons]; omega⟩)
  | _ => none
termination_by (ts.length, 0)

/-- Reads the values of an array up to its closing bracket. -/
def readItems (depth : Nat) (acc : List Json) (ts : List Token) : Option (List Json × Rest ts) :=
  match readValue depth ts with
  | some (j, ⟨.closeBracket :: rest, h⟩) =>
    some ((j :: acc).reverse, ⟨rest, by simp only [List.length_cons] at h; omega⟩)
  | some (j, ⟨.comma :: rest, h⟩) =>
    have : rest.length < ts.length := by simp only [List.length_cons] at h; omega
    (readItems depth (j :: acc) rest).map fun (items, ⟨r, hr⟩) => (items, ⟨r, by omega⟩)
  | _ => none
termination_by (ts.length, 1)

/-- Reads the fields of an object up to its closing brace. -/
def readFields (depth : Nat) (acc : List (String × Json)) (ts : List Token) :
    Option (List (String × Json) × Rest ts) :=
  match ts with
  | .text name :: .colon :: ts =>
    match readValue depth ts with
    | some (j, ⟨.closeBrace :: rest, h⟩) =>
      some (((name, j) :: acc).reverse, ⟨rest, by simp only [List.length_cons] at h ⊢; omega⟩)
    | some (j, ⟨.comma :: rest, h⟩) =>
      have : rest.length < ts.length := by simp only [List.length_cons] at h; omega
      (readFields depth ((name, j) :: acc) rest).map fun (fields, ⟨r, hr⟩) =>
        (fields, ⟨r, by simp only [List.length_cons]; omega⟩)
    | _ => none
  | _ => none
termination_by (ts.length, 1)

end

/-- Reads a text that holds exactly one value. -/
def parse? (s : String) : Option Json :=
  match tokens? s.toList with
  | none => none
  | some ts =>
    match readValue maxDepth ts with
    | some (j, ⟨[], _⟩) => some j
    | _ => none

end SemanticLayer.Json
