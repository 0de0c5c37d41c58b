import SemanticLayer.Proofs.Collections.Entries
import SemanticLayer.Proofs.Json.Scalars

/-!
# JSON values from their text

The text of a value is split into the tokens it was made of, and the tokens are read as the value
again, with other doubles where a double does not come back from its text.  Only the depth is
limited.
-/

namespace SemanticLayer.Json

/-! ## Values as they come back -/

mutual

/-- A value with each double as it is read from its text. -/
def reread? : Json → Option Json
  | .null => some .null
  | .bool b => some (.bool b)
  | .int n => some (.int n)
  | .real x => (rereadReal? x).map .real
  | .str s => some (.str s)
  | .arr items => (rereadItems? items).map .arr
  | .obj fields => (rereadFields? fields).map .obj

def rereadItems? : List Json → Option (List Json)
  | [] => some []
  | j :: js => do return (← j.reread?) :: (← rereadItems? js)

def rereadFields? : List (String × Json) → Option (List (String × Json))
  | [] => some []
  | (name, j) :: fs => do return (name, ← j.reread?) :: (← rereadFields? fs)

end

mutual

/-- How many arrays and objects are open at the deepest place. -/
def depth : Json → Nat
  | .arr items => depthOfItems items + 1
  | .obj fields => depthOfFields fields + 1
  | _ => 0

def depthOfItems : List Json → Nat
  | [] => 0
  | j :: js => max j.depth (depthOfItems js)

def depthOfFields : List (String × Json) → Nat
  | [] => 0
  | (_, j) :: fs => max j.depth (depthOfFields fs)

end

mutual

/-- A value as the program makes it: whole numbers fit 64 bits, doubles are finite, and the fields
of each object are in the order of their names. -/
def IsProper : Json → Prop
  | .int n => IsWhole n
  | .real x => x.isFinite = true
  | .arr items => AreProper items
  | .obj fields => KeysIncreasing fields ∧ FieldsAreProper fields
  | _ => True

def AreProper : List Json → Prop
  | [] => True
  | j :: js => j.IsProper ∧ AreProper js

def FieldsAreProper : List (String × Json) → Prop
  | [] => True
  | (_, j) :: fs => j.IsProper ∧ FieldsAreProper fs

end

/-! ## Tokens -/

mutual

/-- The tokens of the text of a value. -/
def tokens : Json → List Token
  | .null => [.scalar .null]
  | .bool b => [.scalar (.bool b)]
  | .int n => [.scalar (.int n)]
  | .real x => [.scalar (.real x)]
  | .str s => [.text s]
  | .arr items => .openBracket :: (tokensOfItems items ++ [.closeBracket])
  | .obj fields => .openBrace :: (tokensOfFields fields ++ [.closeBrace])

def tokensOfItems : List Json → List Token
  | [] => []
  | j :: js => j.tokens ++ laterItems js

/-- The tokens of values that each follow a comma. -/
def laterItems : List Json → List Token
  | [] => []
  | j :: js => .comma :: (j.tokens ++ laterItems js)

def tokensOfFields : List (String × Json) → List Token
  | [] => []
  | (name, j) :: fs => .text name :: .colon :: (j.tokens ++ laterFields fs)

def laterFields : List (String × Json) → List Token
  | [] => []
  | (name, j) :: fs => .comma :: .text name :: .colon :: (j.tokens ++ laterFields fs)

end

/-! ## Splitting a text into tokens -/

variable {cs rest : List Char} {c : Char}

theorem tokens?_comma : tokens? (',' :: cs) = (tokens? cs).map (.comma :: ·) := by
  rw [tokens?.eq_def]
  rfl

theorem tokens?_colon : tokens? (':' :: cs) = (tokens? cs).map (.colon :: ·) := by
  rw [tokens?.eq_def]
  rfl

theorem tokens?_openBracket : tokens? ('[' :: cs) = (tokens? cs).map (.openBracket :: ·) := by
  rw [tokens?.eq_def]
  rfl

theorem tokens?_closeBracket : tokens? (']' :: cs) = (tokens? cs).map (.closeBracket :: ·) := by
  rw [tokens?.eq_def]
  rfl

theorem tokens?_openBrace : tokens? ('\x7b' :: cs) = (tokens? cs).map (.openBrace :: ·) := by
  rw [tokens?.eq_def]
  rfl

theorem tokens?_closeBrace : tokens? ('\x7d' :: cs) = (tokens? cs).map (.closeBrace :: ·) := by
  rw [tokens?.eq_def]
  rfl

theorem tokens?_quote {s : String} (h : inside? [] cs = some (s, rest)) :
    tokens? ('"' :: cs) = (tokens? rest).map (.text s :: ·) := by
  obtain ⟨⟨_, _, _⟩, read, same⟩ := Option.map_eq_some_iff.1 h
  cases same
  rw [tokens?.eq_def]
  simp [read]

theorem tokens?_writeString (s : String) :
    tokens? ((writeString s).toList ++ rest) = (tokens? rest).map (.text s :: ·) := by
  have quoted : inside? [] (s.toList.flatMap writeChar ++ '"' :: rest) = some (s, rest) := by
    rw [inside?_flatMap_writeChar, List.reverse_nil, List.nil_append, String.ofList_toList]
  rw [toList_writeString, List.cons_append, List.append_assoc, List.singleton_append,
    tokens?_quote quoted]

theorem tokens?_numberChar (h : isNumberChar c = true) :
    tokens? (c :: cs) =
      (number? (c :: cs.takeWhile isNumberChar)).bind fun j =>
        (tokens? (cs.dropWhile isNumberChar)).map (.scalar j :: ·) := by
  have ne {d : Char} (other : isNumberChar d = false) : c ≠ d := by
    rintro rfl
    exact Bool.false_ne_true (other.symm.trans h)
  have blank : ¬(c = ' ' ∨ c = '\n' ∨ c = '\t' ∨ c = '\r') := by
    simp [ne (d := ' ') (by decide), ne (d := '\n') (by decide), ne (d := '\t') (by decide),
      ne (d := '\r') (by decide)]
  rw [tokens?.eq_def]
  simp only
  rw [if_neg blank, if_neg (ne (by decide)), if_neg (ne (by decide)),
    if_neg (ne (by decide)), if_neg (ne (by decide)), if_neg (ne (by decide)),
    if_neg (ne (by decide)), if_neg (ne (by decide)), if_pos h]
  cases number? (c :: cs.takeWhile isNumberChar) <;> rfl

/-- What stands behind a number does not go on with it. -/
def EndsNumber (rest : List Char) : Prop := ∀ c ∈ rest.head?, isNumberChar c = false

theorem tokens?_numeral (nonempty : cs ≠ []) (all : ∀ c ∈ cs, isNumberChar c = true)
    (ends : EndsNumber rest) :
    tokens? (cs ++ rest) = (number? cs).bind fun j => (tokens? rest).map (.scalar j :: ·) := by
  obtain ⟨c, cs, rfl⟩ := List.exists_cons_of_ne_nil nonempty
  obtain ⟨first, later⟩ := List.forall_mem_cons.1 all
  have taken : rest.takeWhile isNumberChar = [] ∧ rest.dropWhile isNumberChar = rest := by
    cases rest with
    | nil => exact ⟨rfl, rfl⟩
    | cons d rest => simp [ends d rfl]
  rw [List.cons_append, tokens?_numberChar first, List.takeWhile_append_of_pos later, taken.1,
    List.append_nil, List.dropWhile_append_of_pos later, taken.2]

/-- Texts that each follow a comma. -/
def continued (texts : List String) : List Char := texts.flatMap fun t => ',' :: t.toList

theorem toList_intercalate_comma (t : String) (ts : List String) :
    (",".intercalate (t :: ts)).toList = t.toList ++ continued ts := by
  induction ts generalizing t with
  | nil => simp [continued]
  | cons u ts ih =>
    rw [String.intercalate_cons_cons, String.toList_append, String.toList_append, ih]
    simp [continued]

theorem endsNumber_continued {texts : List String} (h : EndsNumber rest) :
    EndsNumber (continued texts ++ rest) := by
  cases texts with
  | nil => exact h
  | cons t ts =>
    rintro _ ⟨⟩
    decide

theorem toList_write_items (j : Json) (js : List Json) :
    (write (.arr (j :: js))).toList =
      '[' :: ((write j).toList ++ (continued (writeItems js) ++ [']'])) := by
  rw [write, writeItems, String.toList_append, String.toList_append, toList_intercalate_comma]
  simp

theorem toList_write_fields (name : String) (j : Json) (fs : List (String × Json)) :
    (write (.obj ((name, j) :: fs))).toList =
      '\x7b' :: ((writeString name).toList ++
        ':' :: ((write j).toList ++ (continued (writeFields fs) ++ ['\x7d']))) := by
  rw [write, writeFields, String.toList_append, String.toList_append, toList_intercalate_comma]
  simp

mutual

/-- The text of a value is split into the tokens of the value as it comes back. -/
theorem tokens?_write {rest : List Char} (j : Json) (h : j.IsProper) (ends : EndsNumber rest) :
    tokens? ((write j).toList ++ rest) =
      j.reread?.bind fun k => (tokens? rest).map (k.tokens ++ ·) := by
  match j with
  | .null =>
    rw [write, reread?]
    change tokens? ('n' :: 'u' :: 'l' :: 'l' :: rest) = _
    rw [tokens?.eq_def]
    rfl
  | .bool b =>
    rw [write, reread?]
    cases b with
    | true =>
      change tokens? ('t' :: 'r' :: 'u' :: 'e' :: rest) = _
      rw [tokens?.eq_def]
      rfl
    | false =>
      change tokens? ('f' :: 'a' :: 'l' :: 's' :: 'e' :: rest) = _
      rw [tokens?.eq_def]
      rfl
  | .int n =>
    have nonempty : (toString n).toList ≠ [] := by
      intro nothing
      have read := number?_toString (n := n) h
      rw [nothing] at read
      cases read
    rw [write, tokens?_numeral nonempty (isNumberChar_toString n) ends, number?_toString h, reread?]
    rfl
  | .real x =>
    have nonempty : (writeReal x).toList ≠ [] := by
      rw [toList_writeReal h]
      obtain ⟨c, cs, digits, -⟩ := exists_decimal_cons Layout.sql (Decimal.shortest x)
      split <;> simp [digits]
    rw [write, tokens?_numeral nonempty (isNumberChar_writeReal h) ends, number?_writeReal h,
      reread?]
    cases rereadReal? x <;> rfl
  | .str s => rw [write, tokens?_writeString, reread?]; rfl
  | .arr [] =>
    change tokens? ('[' :: ']' :: rest) = _
    rw [tokens?_openBracket, tokens?_closeBracket, Option.map_map]
    rfl
  | .arr (j :: js) =>
    obtain ⟨first, later⟩ := h
    rw [toList_write_items, List.cons_append, List.append_assoc, List.append_assoc,
      List.singleton_append, tokens?_openBracket,
      tokens?_write j first (endsNumber_continued (by rintro _ ⟨⟩; decide)),
      tokens?_continued_items js later, reread?, rereadItems?]
    cases j.reread? <;> cases rereadItems? js <;> cases tokens? rest <;>
      simp [tokens, tokensOfItems]
  | .obj [] =>
    change tokens? ('\x7b' :: '\x7d' :: rest) = _
    rw [tokens?_openBrace, tokens?_closeBrace, Option.map_map]
    rfl
  | .obj ((name, j) :: fs) =>
    obtain ⟨-, first, later⟩ := h
    rw [toList_write_fields, List.cons_append, List.append_assoc, tokens?_openBrace,
      tokens?_writeString, List.cons_append, List.append_assoc, List.append_assoc,
      List.singleton_append, tokens?_colon,
      tokens?_write j first (endsNumber_continued (by rintro _ ⟨⟩; decide)),
      tokens?_continued_fields fs later, reread?, rereadFields?]
    cases j.reread? <;> cases rereadFields? fs <;> cases tokens? rest <;>
      simp [tokens, tokensOfFields]

theorem tokens?_continued_items {rest : List Char} (js : List Json) (h : AreProper js) :
    tokens? (continued (writeItems js) ++ ']' :: rest) =
      (rereadItems? js).bind fun ks =>
        (tokens? rest).map (laterItems ks ++ .closeBracket :: ·) := by
  match js with
  | [] => exact tokens?_closeBracket
  | j :: js =>
    obtain ⟨first, later⟩ := h
    change tokens? (',' :: (write j).toList ++ continued (writeItems js) ++ ']' :: rest) = _
    rw [List.append_assoc, List.cons_append, tokens?_comma,
      tokens?_write j first (endsNumber_continued (by rintro _ ⟨⟩; decide)),
      tokens?_continued_items js later, rereadItems?]
    cases j.reread? <;> cases rereadItems? js <;> cases tokens? rest <;> simp [laterItems]

theorem tokens?_continued_fields {rest : List Char} (fs : List (String × Json))
    (h : FieldsAreProper fs) :
    tokens? (continued (writeFields fs) ++ '\x7d' :: rest) =
      (rereadFields? fs).bind fun gs =>
        (tokens? rest).map (laterFields gs ++ .closeBrace :: ·) := by
  match fs with
  | [] => exact tokens?_closeBrace
  | (name, j) :: fs =>
    obtain ⟨first, later⟩ := h
    have text : continued (writeFields ((name, j) :: fs)) =
        ',' :: ((writeString name).toList ++
          ':' :: ((write j).toList ++ continued (writeFields fs))) := by
      simp [continued, writeFields]
    rw [text, List.cons_append, tokens?_comma, List.append_assoc, tokens?_writeString,
      List.cons_append, tokens?_colon, List.append_assoc,
      tokens?_write j first (endsNumber_continued (by rintro _ ⟨⟩; decide)),
      tokens?_continued_fields fs later, rereadFields?]
    cases j.reread? <;> cases rereadFields? fs <;> cases tokens? rest <;> simp [laterFields]

end

/-! ## Objects -/

theorem ofFields_eq (fs : List (String × Json)) : ofFields fs = .obj (SortedMap.ofList fs).toList := by
  have stored : ∀ m : SortedMap String Json, (m.insertAll fs).toList =
      fs.foldl (fun fs f => storeIncreasing f.1 f.2 fs) m.toList := by
    induction fs with
    | nil => exact fun _ => rfl
    | cons f fs ih => exact fun m => ih (m.insert f.1 f.2)
  exact congrArg Json.obj (stored .empty).symm

theorem ofFields_of_increasing {fs : List (String × Json)} (h : KeysIncreasing fs) :
    ofFields fs = .obj fs := by
  rw [ofFields_eq, SortedMap.toList_ofList h]

theorem rereadItems?_cons {j : Json} {js ks : List Json} (h : rereadItems? (j :: js) = some ks) :
    ∃ l ls, j.reread? = some l ∧ rereadItems? js = some ls ∧ ks = l :: ls := by
  obtain ⟨l, first, h⟩ := Option.bind_eq_some_iff.1 h
  obtain ⟨ls, later, h⟩ := Option.bind_eq_some_iff.1 h
  cases h
  exact ⟨l, ls, first, later, rfl⟩

theorem rereadFields?_cons {name : String} {j : Json} {fs gs : List (String × Json)}
    (h : rereadFields? ((name, j) :: fs) = some gs) :
    ∃ l hs, j.reread? = some l ∧ rereadFields? fs = some hs ∧ gs = (name, l) :: hs := by
  obtain ⟨l, first, h⟩ := Option.bind_eq_some_iff.1 h
  obtain ⟨hs, later, h⟩ := Option.bind_eq_some_iff.1 h
  cases h
  exact ⟨l, hs, first, later, rfl⟩

theorem names_rereadFields? {fs gs : List (String × Json)} (h : rereadFields? fs = some gs) :
    gs.map (·.1) = fs.map (·.1) := by
  induction fs generalizing gs with
  | nil =>
    cases h
    rfl
  | cons f fs ih =>
    obtain ⟨l, hs, -, later, rfl⟩ := rereadFields?_cons h
    rw [List.map_cons, ih later, List.map_cons]

theorem increasing_rereadFields? {fs gs : List (String × Json)} (increasing : KeysIncreasing fs)
    (h : rereadFields? fs = some gs) : KeysIncreasing gs := by
  have names : (gs.map (·.1)).Pairwise fun a b => compare a b = .lt := by
    rw [names_rereadFields? h]
    exact List.pairwise_map.2 increasing
  exact List.pairwise_map.1 names

/-! ## Reading tokens -/

variable {ts after : List Token} {depth : Nat} {j : Json}

/-- A value read from tokens, and the tokens behind it. -/
def read? (depth : Nat) (ts : List Token) : Option (Json × List Token) :=
  (readValue depth ts).map fun r => (r.1, r.2.1)

def readItems? (depth : Nat) (acc : List Json) (ts : List Token) :
    Option (List Json × List Token) :=
  (readItems depth acc ts).map fun r => (r.1, r.2.1)

def readFields? (depth : Nat) (acc : List (String × Json)) (ts : List Token) :
    Option (List (String × Json) × List Token) :=
  (readFields depth acc ts).map fun r => (r.1, r.2.1)

attribute [local simp] readValue in
theorem read?_text {s : String} : read? depth (.text s :: ts) = some (.str s, ts) := by
  simp [read?]

theorem read?_scalar : read? depth (.scalar j :: ts) = some (j, ts) := by
  rw [read?, readValue]
  rfl

theorem read?_openBracket_zero : read? 0 (.openBracket :: ts) = none := by
  rw [read?, readValue]
  rfl

theorem read?_openBrace_zero : read? 0 (.openBrace :: ts) = none := by
  rw [read?, readValue]
  rfl

theorem read?_noItems :
    read? (depth + 1) (.openBracket :: .closeBracket :: ts) = some (.arr [], ts) := by
  rw [read?, readValue]
  rfl

theorem read?_noFields :
    read? (depth + 1) (.openBrace :: .closeBrace :: ts) = some (.obj [], ts) := by
  rw [read?, readValue]
  rfl

theorem read?_items (h : ts.head? ≠ some .closeBracket) :
    read? (depth + 1) (.openBracket :: ts) =
      (readItems? depth [] ts).map fun r => (.arr r.1, r.2) := by
  rw [read?, readValue, readItems?, Option.map_map]
  · rw [Option.map_map]
    rfl
  · rintro _ rfl
    exact h rfl

theorem read?_fields (h : ts.head? ≠ some .closeBrace) :
    read? (depth + 1) (.openBrace :: ts) =
      (readFields? depth [] ts).map fun r => (ofFields r.1, r.2) := by
  rw [read?, readValue, readFields?, Option.map_map]
  · rw [Option.map_map]
    rfl
  · rintro _ rfl
    exact h rfl

theorem readItems?_last {acc : List Json} (h : read? depth ts = some (j, .closeBracket :: after)) :
    readItems? depth acc ts = some ((j :: acc).reverse, after) := by
  obtain ⟨⟨_, _, _⟩, read, same⟩ := Option.map_eq_some_iff.1 h
  cases same
  rw [readItems?, readItems.eq_def, read]
  rfl

theorem readItems?_comma (acc : List Json) (h : read? depth ts = some (j, .comma :: after)) :
    readItems? depth acc ts = readItems? depth (j :: acc) after := by
  obtain ⟨⟨_, _, _⟩, read, same⟩ := Option.map_eq_some_iff.1 h
  cases same
  rw [readItems?, readItems.eq_def, read, readItems?]
  simp only [Option.map_map]
  rfl

theorem readItems?_none {acc : List Json} (h : read? depth ts = none) :
    readItems? depth acc ts = none := by
  rw [readItems?, readItems.eq_def, Option.map_eq_none_iff.1 h]
  rfl

theorem readFields?_last {acc : List (String × Json)} {name : String}
    (h : read? depth ts = some (j, .closeBrace :: after)) :
    readFields? depth acc (.text name :: .colon :: ts) =
      some (((name, j) :: acc).reverse, after) := by
  obtain ⟨⟨_, _, _⟩, read, same⟩ := Option.map_eq_some_iff.1 h
  cases same
  rw [readFields?, readFields.eq_def]
  simp only [read]
  rfl

theorem readFields?_comma (acc : List (String × Json)) (name : String)
    (h : read? depth ts = some (j, .comma :: after)) :
    readFields? depth acc (.text name :: .colon :: ts) =
      readFields? depth ((name, j) :: acc) after := by
  obtain ⟨⟨_, _, _⟩, read, same⟩ := Option.map_eq_some_iff.1 h
  cases same
  rw [readFields?, readFields.eq_def, readFields?]
  simp only [read, Option.map_map]
  rfl

theorem readFields?_none {acc : List (String × Json)} {name : String}
    (h : read? depth ts = none) : readFields? depth acc (.text name :: .colon :: ts) = none := by
  rw [readFields?, readFields.eq_def]
  simp only [Option.map_eq_none_iff.1 h]
  rfl

/-- No value starts with what closes an array. -/
theorem head?_tokens (j : Json) (ts : List Token) :
    (j.tokens ++ ts).head? ≠ some .closeBracket := by
  cases j <;> rw [tokens] <;> rintro ⟨⟩

mutual

/-- The tokens of a value are read as the value, if it is not too deep. -/
theorem read?_tokens (depth : Nat) (after : List Token) {k : Json} (j : Json) (h : j.IsProper)
    (e : j.reread? = some k) :
    read? depth (k.tokens ++ after) = if j.depth ≤ depth then some (k, after) else none := by
  match j with
  | .null | .bool _ | .int _ =>
    cases e
    simpa [Json.depth, tokens] using read?_scalar
  | .str s =>
    cases e
    simpa [Json.depth, tokens] using read?_text
  | .real x =>
    obtain ⟨y, -, rfl⟩ := Option.map_eq_some_iff.1 e
    simpa [Json.depth, tokens] using read?_scalar
  | .arr [] =>
    cases e
    rw [tokens, Json.depth]
    cases depth with
    | zero => simpa using read?_openBracket_zero
    | succ depth => simpa [depthOfItems, tokensOfItems] using read?_noItems
  | .arr (i :: is) =>
    obtain ⟨ks, again, same⟩ := Option.map_eq_some_iff.1 e
    have first : (tokensOfItems ks ++ .closeBracket :: after).head? ≠ some .closeBracket := by
      obtain ⟨l, ls, -, -, rfl⟩ := rereadItems?_cons again
      rw [tokensOfItems, List.append_assoc]
      exact head?_tokens l _
    rw [← same, tokens, List.cons_append, List.append_assoc, List.singleton_append, Json.depth]
    cases depth with
    | zero => simpa using read?_openBracket_zero
    | succ depth =>
      rw [read?_items first, readItems?_tokens depth after [] i is h again]
      simp only [Nat.add_le_add_iff_right]
      split <;> rfl
  | .obj [] =>
    cases e
    rw [tokens, Json.depth]
    cases depth with
    | zero => simpa using read?_openBrace_zero
    | succ depth => simpa [depthOfFields, tokensOfFields] using read?_noFields
  | .obj ((name, i) :: fs) =>
    obtain ⟨gs, again, same⟩ := Option.map_eq_some_iff.1 e
    have first : (tokensOfFields gs ++ .closeBrace :: after).head? ≠ some .closeBrace := by
      obtain ⟨l, hs, -, -, rfl⟩ := rereadFields?_cons again
      rw [tokensOfFields]
      rintro ⟨⟩
    have ordered : KeysIncreasing gs := increasing_rereadFields? h.1 again
    rw [← same, tokens, List.cons_append, List.append_assoc, List.singleton_append, Json.depth]
    cases depth with
    | zero => simpa using read?_openBrace_zero
    | succ depth =>
      rw [read?_fields first, readFields?_tokens depth after [] name i fs h.2 again]
      simp only [Nat.add_le_add_iff_right]
      split
      · simp [ofFields_of_increasing ordered]
      · rfl
termination_by sizeOf j

theorem readItems?_tokens (depth : Nat) (after : List Token) (acc : List Json) {ks : List Json}
    (j : Json) (js : List Json) (h : AreProper (j :: js)) (e : rereadItems? (j :: js) = some ks) :
    readItems? depth acc (tokensOfItems ks ++ .closeBracket :: after) =
      if depthOfItems (j :: js) ≤ depth then some (acc.reverse ++ ks, after) else none := by
  obtain ⟨first, later⟩ := h
  obtain ⟨k, ls, again, others, rfl⟩ := rereadItems?_cons e
  have read := read?_tokens depth (laterItems ls ++ .closeBracket :: after) j first again
  rw [tokensOfItems, List.append_assoc, depthOfItems]
  by_cases fits : j.depth ≤ depth
  · rw [if_pos fits] at read
    cases js with
    | nil =>
      cases others
      rw [readItems?_last read]
      simp [depthOfItems, fits]
    | cons i is =>
      have rest := readItems?_tokens depth after (k :: acc) i is later others
      obtain ⟨l, ls, -, -, rfl⟩ := rereadItems?_cons others
      rw [tokensOfItems] at rest
      have here := (readItems?_comma acc read).trans rest
      simpa [Nat.max_le, fits] using here
  · rw [if_neg fits] at read
    rw [readItems?_none read, if_neg fun both => fits (Nat.max_le.1 both).1]
termination_by sizeOf (j :: js)

theorem readFields?_tokens (depth : Nat) (after : List Token) (acc : List (String × Json))
    {gs : List (String × Json)} (name : String) (j : Json) (fs : List (String × Json)) (h : FieldsAreProper ((name, j) :: fs))
    (e : rereadFields? ((name, j) :: fs) = some gs) :
    readFields? depth acc (tokensOfFields gs ++ .closeBrace :: after) =
      if depthOfFields ((name, j) :: fs) ≤ depth then some (acc.reverse ++ gs, after) else none := by
  obtain ⟨first, later⟩ := h
  obtain ⟨k, hs, again, others, rfl⟩ := rereadFields?_cons e
  have read := read?_tokens depth (laterFields hs ++ .closeBrace :: after) j first again
  rw [tokensOfFields, List.cons_append, List.cons_append, List.append_assoc, depthOfFields]
  by_cases fits : j.depth ≤ depth
  · rw [if_pos fits] at read
    match same : fs with
    | [] =>
      cases others
      rw [readFields?_last read]
      simp [depthOfFields, fits]
    | (other, i) :: is =>
      have rest := readFields?_tokens depth after ((name, k) :: acc) other i is later others
      obtain ⟨l, hs, -, -, rfl⟩ := rereadFields?_cons others
      rw [tokensOfFields] at rest
      have here := (readFields?_comma acc name read).trans rest
      simpa [Nat.max_le, fits] using here
  · rw [if_neg fits] at read
    rw [readFields?_none read, if_neg fun both => fits (Nat.max_le.1 both).1]
termination_by sizeOf ((name, j) :: fs)

end

/-! ## Whole texts -/

theorem parse?_eq {s : String} (h : tokens? s.toList = some ts) :
    parse? s = (read? maxDepth ts).bind fun r => if r.2.isEmpty then some r.1 else none := by
  rw [parse?, h, read?]
  simp only
  split
  · rename_i read
    rw [read]
    rfl
  · rename_i other
    rcases read : readValue maxDepth ts with _ | ⟨j, rest, _⟩
    · rfl
    · cases rest with
      | nil => exact absurd read (other _ _)
      | cons t rest => rfl

/-- The text of a value gives the value with its doubles read again, unless it is too deep. -/
theorem parse?_write {j : Json} (h : j.IsProper) :
    parse? (write j) = if j.depth ≤ maxDepth then j.reread? else none := by
  have split : tokens? ((write j).toList ++ []) =
      j.reread?.bind fun k => (tokens? []).map (k.tokens ++ ·) := tokens?_write j h nofun
  rw [List.append_nil] at split
  cases e : j.reread? with
  | none =>
    rw [e] at split
    rw [parse?, split, ite_self]
    rfl
  | some k =>
    have read := read?_tokens maxDepth [] j h e
    rw [List.append_nil] at read
    rw [e] at split
    have split : tokens? (write j).toList = some k.tokens := by simpa [tokens?] using split
    rw [parse?_eq split, read]
    split <;> rfl

end SemanticLayer.Json
