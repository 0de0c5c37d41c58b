import Mathlib.Data.List.Basic
import SemanticLayer.Sql.Dialect

/-!
# Reading quoted text

A reader of SQL takes a quote as the start of a name or of a string constant, and reads on to the
quote that ends it.  It finds what was written there, whatever the text holds.

* `Quote.readInside`: a text up to its closing quote, with one rule for each way of quoting;
* `Quote.read_write`: a reader finds the text that was written, and stops behind it;
* `Dialect.pieces`: a whole text, taken apart into quoted text and code;
* `Dialect.reads_quoted`: what is written in quotes comes back as one piece, so none of it is code.
-/

namespace SemanticLayer.Sql

/-- A text is escaped in two passes, backslashes first: the backslashes that the second one puts
before quotes stay single. -/
theorem backslashed_eq {q : Char} (hq : q ≠ '\\') (cs : List Char) :
    backslashed q cs = (doubled '\\' cs).flatMap fun c => if c = q then ['\\', c] else [c] := by
  rw [backslashed, doubled, List.flatMap_assoc]
  refine List.flatMap_congr fun c _ => ?_
  by_cases quote : c = q
  · subst quote
    rw [if_pos (.inl rfl), if_neg hq, List.flatMap_singleton, if_pos rfl]
  · by_cases backslash : c = '\\'
    · subst backslash
      simp [quote]
    · simp [quote, backslash]

/-- How text is quoted: the quote, and whether a backslash escapes inside. -/
structure Quote where
  mark : Char
  hasEscapes : Bool
  mark_ne_backslash : mark ≠ '\\'

namespace Quote

/-! ## Writing and reading -/

def inside (k : Quote) (cs : List Char) : List Char :=
  if k.hasEscapes then backslashed k.mark cs else doubled k.mark cs

def write (k : Quote) (s : String) : String := between k.mark (k.inside s.toList)

/-- Whether a character only says that the next one is meant as it is: a backslash before any, or
else the first of two quotes. -/
def escapes (k : Quote) (c next : Char) : Bool :=
  if k.hasEscapes then c = '\\' else c = k.mark && next = k.mark

/-- The text before the closing quote, and what follows it. -/
def readInside (k : Quote) : List Char → Option (List Char × List Char)
  | [] => none
  | [c] => if c = k.mark then some ([], []) else none
  | c :: next :: rest =>
    if k.escapes c next then (k.readInside rest).map (Prod.map (next :: ·) id)
    else if c = k.mark then some ([], next :: rest)
    else (k.readInside (next :: rest)).map (Prod.map (c :: ·) id)

/-- The quoted text that stands at the start, and what follows it. -/
def read (k : Quote) : List Char → Option (String × List Char)
  | [] => none
  | c :: cs => if c = k.mark then (k.readInside cs).map (Prod.map String.ofList id) else none

variable {k : Quote} {c next : Char} {cs s after more : List Char}

theorem readInside_escaped (h : k.escapes c next = true) (cs : List Char) :
    k.readInside (c :: next :: cs) = (k.readInside cs).map (Prod.map (next :: ·) id) := by
  rw [readInside, if_pos h]

/-- A quote ends the text unless another one follows it. -/
theorem readInside_mark (h : more.head? ≠ some k.mark) :
    k.readInside (k.mark :: more) = some ([], more) := by
  cases more with
  | nil => rw [readInside, if_pos rfl]
  | cons next rest =>
    have single : k.escapes k.mark next = false := by
      have other : next ≠ k.mark := fun same => h (congrArg some same)
      simp [escapes, k.mark_ne_backslash, other]
    rw [readInside, single, if_neg Bool.false_ne_true, if_pos rfl]

theorem readInside_plain (h : c ≠ k.mark) (escape : k.hasEscapes = true → c ≠ '\\')
    (cs : List Char) : k.readInside (c :: cs) = (k.readInside cs).map (Prod.map (c :: ·) id) := by
  cases cs with
  | nil => rw [readInside, Option.map_none, readInside, if_neg h]
  | cons next rest =>
    have plain : k.escapes c next = false := by
      unfold escapes
      split
      · exact decide_eq_false (escape ‹_›)
      · rw [decide_eq_false h, Bool.false_and]
    rw [readInside, plain, if_neg Bool.false_ne_true, if_neg h]

/-- A character inside is written as it is, or behind one that says so. -/
theorem inside_cons (k : Quote) (c : Char) (cs : List Char) :
    (∃ e, k.escapes e c = true ∧ k.inside (c :: cs) = e :: c :: k.inside cs) ∨
      c ≠ k.mark ∧ (k.hasEscapes = true → c ≠ '\\') ∧ k.inside (c :: cs) = c :: k.inside cs := by
  unfold inside escapes
  split
  · rw [backslashed, List.flatMap_cons, ← backslashed]
    split
    · exact .inl ⟨'\\', decide_eq_true rfl, rfl⟩
    · rename_i plain
      obtain ⟨quote, backslash⟩ := not_or.1 plain
      exact .inr ⟨quote, fun _ => backslash, rfl⟩
  · rename_i doubles
    rw [doubled, List.flatMap_cons, ← doubled]
    split
    · rename_i quote
      subst quote
      exact .inl ⟨k.mark, by simp, rfl⟩
    · exact .inr ⟨‹_›, fun escapes => absurd escapes doubles, rfl⟩

theorem readInside_inside (cs : List Char) (h : more.head? ≠ some k.mark) :
    k.readInside (k.inside cs ++ k.mark :: more) = some (cs, more) := by
  induction cs with
  | nil =>
    have nothing : k.inside [] = [] := by
      unfold inside
      split <;> rfl
    rw [nothing]
    exact readInside_mark h
  | cons c cs ih =>
    rcases k.inside_cons c cs with ⟨e, escaped, written⟩ | ⟨quote, escape, written⟩
    · rw [written, List.cons_append, List.cons_append, readInside_escaped escaped, ih]
      rfl
    · rw [written, List.cons_append, readInside_plain quote escape, ih]
      rfl

theorem toList_write (k : Quote) (s : String) :
    (k.write s).toList = k.mark :: (k.inside s.toList ++ [k.mark]) := String.toList_ofList

theorem read_write (s : String) (h : more.head? ≠ some k.mark) :
    k.read ((k.write s).toList ++ more) = some (s, more) := by
  rw [toList_write, List.cons_append, List.append_assoc, List.singleton_append, read, if_pos rfl,
    readInside_inside _ h, Option.map_some, Prod.map_apply, String.ofList_toList]
  rfl

theorem write_injective (k : Quote) : Function.Injective k.write := by
  intro s t same
  have nothing : ([] : List Char).head? ≠ some k.mark := (Option.some_ne_none _).symm
  have first := read_write s nothing
  rw [same, read_write t nothing] at first
  exact (congrArg Prod.fst (Option.some.inj first)).symm

/-! ### What is read -/

/-- What is read ends at a quote. -/
theorem exists_of_readInside (h : k.readInside cs = some (s, after)) :
    ∃ body, cs = body ++ k.mark :: after := by
  fun_induction readInside k cs generalizing s with
  | case1 => cases h
  | case2 =>
    cases h
    exact ⟨[], rfl⟩
  | case3 => cases h
  | case4 c next rest _ ih =>
    obtain ⟨⟨t, _⟩, ht, same⟩ := Option.map_eq_some_iff.1 h
    cases same
    obtain ⟨body, rfl⟩ := ih ht
    exact ⟨c :: next :: body, rfl⟩
  | case5 =>
    cases h
    exact ⟨[], rfl⟩
  | case6 c next rest _ _ ih =>
    obtain ⟨⟨t, _⟩, ht, same⟩ := Option.map_eq_some_iff.1 h
    cases same
    obtain ⟨body, tail⟩ := ih ht
    exact ⟨c :: body, congrArg (c :: ·) tail⟩

theorem length_lt_of_readInside (h : k.readInside cs = some (s, after)) :
    after.length < cs.length := by
  obtain ⟨body, rfl⟩ := exists_of_readInside h
  rw [List.length_append, List.length_cons]
  exact Nat.lt_of_lt_of_le (Nat.lt_succ_self _) (Nat.le_add_left ..)

/-- What follows does not change what is read, unless it makes the last quote one of two. -/
theorem readInside_append (h : k.readInside cs = some (s, after))
    (apart : after = [] → more.head? ≠ some k.mark) :
    k.readInside (cs ++ more) = some (s, after ++ more) := by
  fun_induction readInside k cs generalizing s with
  | case1 => cases h
  | case2 =>
    cases h
    exact readInside_mark (apart rfl)
  | case3 => cases h
  | case4 c next rest escaped ih =>
    obtain ⟨⟨t, _⟩, ht, same⟩ := Option.map_eq_some_iff.1 h
    cases same
    rw [List.cons_append, List.cons_append, readInside_escaped escaped, ih ht]
    rfl
  | case5 next rest single =>
    cases h
    rw [List.cons_append, List.cons_append, readInside, if_neg single, if_pos rfl]
  | case6 c next rest plain other ih =>
    obtain ⟨⟨t, _⟩, ht, same⟩ := Option.map_eq_some_iff.1 h
    cases same
    rw [List.cons_append, List.cons_append, readInside, if_neg plain, if_neg other,
      ← List.cons_append, ih ht]
    rfl

end Quote

/-! ## A text in pieces -/

/-- A piece of SQL: a character of code, or a quoted text. -/
inductive Piece where
  | code (c : Char)
  | quoted (mark : Char) (s : String)

namespace Dialect

def stringQuote (d : Dialect) : Quote := ⟨'\x27', d.hasBackslashEscapes, by decide⟩

def nameQuoting (d : Dialect) : Quote := ⟨d.nameQuote, false, by cases d <;> decide⟩

/-- The quoted text that a character opens. -/
def quoteAt? (d : Dialect) (c : Char) : Option Quote :=
  [d.stringQuote, d.nameQuoting].find? fun k => k.mark = c

/-- The pieces of a text that opens with code, unless a quote is left open at its end. -/
def pieces (d : Dialect) (cs : List Char) : Option (List Piece) :=
  match cs with
  | [] => some []
  | c :: rest =>
    match d.quoteAt? c with
    | none => (d.pieces rest).map (.code c :: ·)
    | some k =>
      match inside : k.readInside rest with
      | none => none
      | some (s, after) =>
        have := Quote.length_lt_of_readInside inside
        (d.pieces after).map (.quoted c (String.ofList s) :: ·)
termination_by cs.length

variable {d : Dialect} {cs s after more : List Char}

theorem pieces_nil (d : Dialect) : d.pieces [] = some [] := by
  rw [pieces]

theorem pieces_code {c : Char} (h : d.quoteAt? c = none) (cs : List Char) :
    d.pieces (c :: cs) = (d.pieces cs).map (.code c :: ·) := by
  rw [pieces, h]

theorem pieces_open {c : Char} {k : Quote} (h : d.quoteAt? c = some k)
    (inside : k.readInside cs = none) : d.pieces (c :: cs) = none := by
  rw [pieces, h]
  dsimp only
  split
  · rfl
  · rename_i closed
    rw [inside] at closed
    cases closed

theorem pieces_quoted {c : Char} {k : Quote} (h : d.quoteAt? c = some k)
    (inside : k.readInside cs = some (s, after)) :
    d.pieces (c :: cs) = (d.pieces after).map (.quoted c (String.ofList s) :: ·) := by
  rw [pieces, h]
  dsimp only
  split
  · rename_i left
    rw [inside] at left
    cases left
  · rename_i closed
    rw [inside] at closed
    cases closed
    rfl

theorem mark_of_quoteAt? {c : Char} {k : Quote} (h : d.quoteAt? c = some k) : k.mark = c := by
  simpa using List.find?_some h

/-- Two texts that do not meet at a quote are taken apart one after the other. -/
theorem pieces_append {ps : List Piece} (h : d.pieces cs = some ps)
    (apart : ∀ c k, cs.getLast? = some c → d.quoteAt? c = some k → more.head? ≠ some c) :
    d.pieces (cs ++ more) = (d.pieces more).map (ps ++ ·) := by
  induction cs using pieces.induct d generalizing ps with
  | case1 =>
    rw [pieces_nil] at h
    cases h
    exact (congrFun Option.map_id _).symm
  | case2 c cs plain ih =>
    rw [pieces_code plain] at h
    obtain ⟨qs, hq, rfl⟩ := Option.map_eq_some_iff.1 h
    rw [List.cons_append, pieces_code plain, ih hq, Option.map_map]
    · rfl
    · intro e k last
      exact apart e k (by rw [List.getLast?_cons, last]; rfl)
  | case3 c cs k opens left =>
    rw [pieces_open opens left] at h
    cases h
  | case4 c cs k opens s after inside _ ih =>
    rw [pieces_quoted opens inside] at h
    obtain ⟨qs, hq, rfl⟩ := Option.map_eq_some_iff.1 h
    obtain ⟨body, ends⟩ := Quote.exists_of_readInside inside
    have mark := mark_of_quoteAt? opens
    have last : (c :: cs).getLast? = (k.mark :: after).getLast? := by
      rw [ends, ← List.cons_append, List.getLast?_append_cons]
    have joined : k.readInside (cs ++ more) = some (s, after ++ more) := by
      refine Quote.readInside_append inside fun done => mark ▸ apart c k ?_ opens
      rw [last, done, mark, List.getLast?_singleton]
    rw [List.cons_append, pieces_quoted opens joined, ih hq, Option.map_map]
    · rfl
    · intro e j atEnd
      refine apart e j ?_
      rw [last, List.getLast?_cons, atEnd]
      rfl

/-- Quoted text is one piece, whatever it holds. -/
theorem pieces_write {k : Quote} (opens : d.quoteAt? k.mark = some k) (text : String)
    {before : List Char} {ps : List Piece} (h : d.pieces before = some ps)
    (start : before.getLast? ≠ some k.mark) (stop : more.head? ≠ some k.mark) :
    d.pieces (before ++ (k.write text).toList ++ more) =
      (d.pieces more).map (ps ++ .quoted k.mark text :: ·) := by
  rw [List.append_assoc, pieces_append h, k.toList_write, List.cons_append, List.append_assoc,
    List.singleton_append, pieces_quoted opens (Quote.readInside_inside _ stop),
    String.ofList_toList, Option.map_map]
  · rfl
  · intro c j last _ same
    rw [k.toList_write, List.cons_append, List.head?_cons] at same
    exact start (last.trans same.symm)

theorem quoteAt?_string (d : Dialect) : d.quoteAt? d.stringQuote.mark = some d.stringQuote := by
  cases d <;> rfl

theorem quoteAt?_name (d : Dialect) : d.quoteAt? d.nameQuoting.mark = some d.nameQuoting := by
  cases d <;> rfl

theorem write_stringQuote (d : Dialect) : d.stringQuote.write = d.quoteString := by
  cases d <;> rfl

theorem write_nameQuoting (d : Dialect) : d.nameQuoting.write = d.quoteName := rfl

/-- No value can leave its quotes.  From the opening quote of a string constant or a name a reader
finds the value that was written and stops behind it, so different values are written differently.
Between other SQL the value is one piece, and the code around it is the same for every value. -/
theorem reads_quoted (d : Dialect) :
    (∀ (s : String) (rest : List Char), rest.head? ≠ some '\x27' →
      d.stringQuote.read ((d.quoteString s).toList ++ rest) = some (s, rest)) ∧
    (∀ (s : String) (rest : List Char), rest.head? ≠ some d.nameQuote →
      d.nameQuoting.read ((d.quoteName s).toList ++ rest) = some (s, rest)) ∧
    Function.Injective d.quoteString ∧ Function.Injective d.quoteName ∧
    ∀ before ps, d.pieces before = some ps → ∀ (s : String) (rest : List Char),
      (before.getLast? ≠ some '\x27' → rest.head? ≠ some '\x27' →
        d.pieces (before ++ (d.quoteString s).toList ++ rest) =
          (d.pieces rest).map (ps ++ .quoted '\x27' s :: ·)) ∧
      (before.getLast? ≠ some d.nameQuote → rest.head? ≠ some d.nameQuote →
        d.pieces (before ++ (d.quoteName s).toList ++ rest) =
          (d.pieces rest).map (ps ++ .quoted d.nameQuote s :: ·)) := by
  rw [← d.write_stringQuote, ← d.write_nameQuoting]
  refine ⟨fun s _ => Quote.read_write (k := d.stringQuote) s,
    fun s _ => Quote.read_write (k := d.nameQuoting) s, d.stringQuote.write_injective,
    d.nameQuoting.write_injective, fun before ps h s rest => ?_⟩
  exact ⟨pieces_write d.quoteAt?_string s h, pieces_write d.quoteAt?_name s h⟩

theorem reads_quoted_backslash :
    mySql.stringQuote.read ((mySql.quoteString "\\' OR 1=1").toList ++ [')']) =
      some ("\\' OR 1=1", [')']) ∧
    postgres.nameQuoting.read ((postgres.quoteName "a\"\"b").toList ++ ['.']) =
      some ("a\"\"b", ['.']) ∧
    mySql.pieces (['('] ++ (mySql.quoteString "\\' OR 1=1").toList ++ [')']) =
      some [.code '(', .quoted '\x27' "\\' OR 1=1", .code ')'] := by
  have code (c : Char) (plain : mySql.quoteAt? c = none) : mySql.pieces [c] = some [.code c] := by
    rw [pieces_code plain, pieces_nil, Option.map_some]
  obtain ⟨string, _, _, _, inText⟩ := reads_quoted mySql
  obtain ⟨_, name, _⟩ := reads_quoted postgres
  refine ⟨string _ _ (by decide), name _ _ (by decide), ?_⟩
  rw [(inText _ _ (code '(' (by decide)) _ _).1 (by decide) (by decide), code ')' (by decide)]
  rfl

end Dialect

end SemanticLayer.Sql
