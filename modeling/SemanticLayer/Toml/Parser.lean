import SemanticLayer.Toml.Document
import SemanticLayer.Toml.Scalar
import SemanticLayer.Toml.Token

/-!
# Reading TOML

The tokens of a text are read by recursive descent into statements; every step leaves fewer
tokens than it was given.
-/

namespace SemanticLayer.Toml

/-- What is left of a list after reading any number of its elements. -/
abbrev Remainder {α : Type} (xs : List α) := { rest : List α // rest.length ≤ xs.length }

def Token.isBlank : Token → Bool
  | .blank _ => true
  | _ => false

def Token.isGap : Token → Bool
  | .blank _ => true
  | .newline => true
  | _ => false

/-- The tokens after those that satisfy `p`. -/
def skip (p : Token → Bool) (ts : List Token) : List Token := ts.dropWhile p

theorem length_skip_le (p : Token → Bool) (ts : List Token) : (skip p ts).length ≤ ts.length :=
  (List.dropWhile_sublist p).length_le

theorem length_of_skip {p : Token → Bool} {ts rest : List Token} (h : skip p ts = rest) :
    rest.length ≤ ts.length := h ▸ length_skip_le p ts

theorem length_of_skip_cons {p : Token → Bool} {ts rest : List Token} {t : Token}
    (h : skip p ts = t :: rest) : rest.length < ts.length := by
  have := length_of_skip h
  simp only [List.length_cons] at this
  omega

def isBareKey (s : String) : Bool :=
  s.toList.all fun c => c.isAlphanum || c == '_' || c == '-'

def readKey (ts : List Token) : Option (String × Rest ts) :=
  match ts with
  | .word w :: ts => if isBareKey w then some (w, ⟨ts, by simp⟩) else none
  | .text s false :: ts => some (s, ⟨ts, by simp⟩)
  | _ => none

/-- Reads keys with dots between them, and the blanks after them. -/
def readPath (ts : List Token) : Option (List String × Rest ts) :=
  match readKey ts with
  | none => none
  | some (key, ⟨rest, h⟩) =>
    match hs : skip Token.isBlank rest with
    | .dot :: rest' =>
      have := length_of_skip_cons hs
      have := length_skip_le Token.isBlank rest'
      (readPath (skip Token.isBlank rest')).map fun (path, r) =>
        (key :: path, r.weaken (by omega))
    | rest' => some ([key], ⟨rest', by have := length_of_skip hs; omega⟩)
termination_by ts.length
decreasing_by omega

/-- Reads words and dots without blanks between them. -/
def readWord (ts : List Token) : List Char × Remainder ts :=
  match ts with
  | .word w :: ts =>
    let (cs, ⟨r, h⟩) := readWord ts
    (w.toList ++ cs, ⟨r, by simp only [List.length_cons]; omega⟩)
  | .dot :: ts =>
    let (cs, ⟨r, h⟩) := readWord ts
    ('.' :: cs, ⟨r, by simp only [List.length_cons]; omega⟩)
  | ts => ([], ⟨ts, Nat.le_refl _⟩)

/-- Reads a value without quotes.  One space may stand between a date and a time. -/
def readScalar (w : String) (ts : List Token) : Option (Toml × Remainder ts) :=
  let (cs, ⟨rest, h⟩) := readWord ts
  let whole := w.toList ++ cs
  match rest with
  | .blank " " :: .word v :: after =>
    if isDate whole && (v.toList.head?.any Char.isDigit) then
      let (ds, ⟨r, hr⟩) := readWord after
      (scalar? (whole ++ ' ' :: (v.toList ++ ds))).map fun t =>
        (t, ⟨r, by simp only [List.length_cons] at h; omega⟩)
    else (scalar? whole).map fun t => (t, ⟨.blank " " :: .word v :: after, h⟩)
  | rest => (scalar? whole).map fun t => (t, ⟨rest, h⟩)

mutual

/-- Reads one value. -/
def readValue (ts : List Token) : Option (Toml × Rest ts) :=
  match ts with
  | .text s _ :: ts => some (.string s, ⟨ts, by simp⟩)
  | .word w :: ts =>
    (readScalar w ts).map fun (t, ⟨r, h⟩) => (t, ⟨r, by simp only [List.length_cons]; omega⟩)
  | .openBracket :: ts =>
    (readItems [] ts).map fun (items, r) => (.array items, r.weaken (by simp))
  | .openBrace :: ts =>
    match hs : skip Token.isBlank ts with
    | .closeBrace :: rest =>
      some (.table [], ⟨rest, by
        have := length_of_skip_cons hs
        simp only [List.length_cons]; omega⟩)
    | rest =>
      have := length_of_skip hs
      match readPairs [] rest with
      | none => none
      | some (pairs, r) => (Node.inlineTable? pairs).map fun t =>
          (t, r.weaken (by simp only [List.length_cons]; omega))
  | _ => none
termination_by 2 * ts.length

/-- Reads the values of an array up to its closing bracket; a comma may follow the last one. -/
def readItems (acc : List Toml) (ts : List Token) : Option (List Toml × Rest ts) :=
  match hs : skip Token.isGap ts with
  | .closeBracket :: rest => some (acc.reverse, ⟨rest, length_of_skip_cons hs⟩)
  | ts' =>
    have := length_of_skip hs
    match readValue ts' with
    | none => none
    | some (t, ⟨rest, _⟩) =>
      match hr : skip Token.isGap rest with
      | .closeBracket :: rest' =>
        some ((t :: acc).reverse, ⟨rest', by have := length_of_skip_cons hr; omega⟩)
      | .comma :: rest' =>
        have := length_of_skip_cons hr
        (readItems (t :: acc) rest').map fun (items, r) => (items, r.weaken (by omega))
      | _ => none
termination_by 2 * ts.length + 1

/-- Reads the pairs of an inline table, at least one, up to its closing brace. -/
def readPairs (acc : List (List String × Toml)) (ts : List Token) :
    Option (List (List String × Toml) × Rest ts) :=
  match readPath ts with
  | some (path, ⟨.equals :: rest, h⟩) =>
    have := length_skip_le Token.isBlank rest
    have : (skip Token.isBlank rest).length < ts.length := by
      simp only [List.length_cons] at h; omega
    match readValue (skip Token.isBlank rest) with
    | none => none
    | some (t, ⟨rest, _⟩) =>
      match hr : skip Token.isBlank rest with
      | .closeBrace :: rest' =>
        some (((path, t) :: acc).reverse, ⟨rest', by have := length_of_skip_cons hr; omega⟩)
      | .comma :: rest' =>
        have := length_of_skip_cons hr
        have := length_skip_le Token.isBlank rest'
        (readPairs ((path, t) :: acc) (skip Token.isBlank rest')).map fun (pairs, r) =>
          (pairs, r.weaken (by omega))
      | _ => none
  | _ => none
termination_by 2 * ts.length + 1

end

/-- Reads a header or a pair. -/
def readStatement (ts : List Token) : Option (Statement × List Token) :=
  match ts with
  | .openBracket :: .openBracket :: ts =>
    match readPath (skip Token.isBlank ts) with
    | some (path, ⟨.closeBracket :: .closeBracket :: rest, _⟩) => some (.tableInArray path, rest)
    | _ => none
  | .openBracket :: ts =>
    match readPath (skip Token.isBlank ts) with
    | some (path, ⟨.closeBracket :: rest, _⟩) => some (.table path, rest)
    | _ => none
  | ts =>
    match readPath ts with
    | some (path, ⟨.equals :: rest, _⟩) =>
      (readValue (skip Token.isBlank rest)).map fun (v, ⟨rest, _⟩) => (.pair path v, rest)
    | _ => none

/-- Reads statements, each on a line of its own; there are fewer of them than tokens. -/
def readStatements : Nat → List Token → Option (List Statement)
  | 0, ts => if (skip Token.isGap ts).isEmpty then some [] else none
  | lines + 1, ts =>
    match skip Token.isGap ts with
    | [] => some []
    | ts =>
      match readStatement ts with
      | none => none
      | some (s, rest) =>
        match skip Token.isBlank rest with
        | [] => some [s]
        | .newline :: rest => (readStatements lines rest).map (s :: ·)
        | _ => none

/-- Reads a document; a byte order mark may stand in front. -/
def parse? (s : String) : Option Toml := do
  let cs := match s.toList with
    | '\ufeff' :: cs => cs
    | cs => cs
  let ts ← tokens? cs
  ofStatements? (← readStatements ts.length ts)

end SemanticLayer.Toml
