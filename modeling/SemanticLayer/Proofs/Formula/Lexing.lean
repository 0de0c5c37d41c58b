import Mathlib.Data.List.TakeWhile
import SemanticLayer.Formula.Token
import SemanticLayer.Proofs.Result

/-!
# How a formula splits into tokens

A text is words, strings and symbols one after another, with white space anywhere between them.

* `Token.names_iff`: what a word is, said without the order in which it is tried;
* `lex_eq_ok_iff`: the tokens of a text are those into which it splits, and no others;
* `Splits.printed`: tokens written with spaces between them split into the same tokens;
* `Lexeme.lex_suffix`, `Lexeme.lex_prefix`, `Lexeme.lex_shift`: lexemes in a row are those of a part of
  the text, wherever that part starts.
-/

namespace SemanticLayer.Formula

namespace Token

/-! ## Words -/

def IsDigits (w : List Char) : Prop := ∀ c ∈ w, c.isDigit = true

/-- Digits with one point, at least one of them after it. -/
def IsDecimal (w : List Char) : Prop :=
  ∃ whole fraction, w = whole ++ '.' :: fraction ∧ IsDigits whole ∧ fraction ≠ [] ∧
    IsDigits fraction

/-- The words that have a meaning of their own, in capitals. -/
def keywords : List (String × Token) :=
  [("TRUE", .truth true), ("FALSE", .truth false), ("NOT", .not), ("IS", .is), ("NULL", .null),
    ("AND", .and), ("OR", .or)]

/-- What a word is: digits, a decimal, a keyword in any case, or else a name. -/
inductive Names (w : List Char) : Token → Prop
  | digits (h : IsDigits w) : Names w (.digits (String.ofList w))
  | decimal (h : IsDecimal w) : Names w (.decimal (String.ofList w))
  | keyword {k : String} {t : Token} (h : (k, t) ∈ keywords)
      (hw : String.ofList (w.map Char.toUpper) = k) : Names w t
  | name (digits : ¬ IsDigits w) (decimal : ¬ IsDecimal w)
      (keyword : ∀ e ∈ keywords, String.ofList (w.map Char.toUpper) ≠ e.1) :
      Names w (.word (String.ofList w))

variable {w : List Char}

theorem allDigits_iff : allDigits w = true ↔ IsDigits w := List.all_eq_true

theorem ne_point_of_isDigit {c : Char} (h : c.isDigit = true) : c ≠ '.' := by
  rintro rfl
  cases h

theorem isDecimal_iff : isDecimal w = true ↔ IsDecimal w := by
  unfold isDecimal
  constructor
  · intro h
    dsimp only at h
    split at h
    · rename_i c fraction rest
      obtain ⟨⟨whole, some⟩, digits⟩ : (allDigits _ = true ∧ fraction ≠ []) ∧
          allDigits fraction = true := by simpa using h
      have point : c = '.' := by
        have head := List.head?_dropWhile_not (· ≠ '.') w
        rw [rest] at head
        simpa using head
      refine ⟨w.takeWhile (· ≠ '.'), fraction, ?_, allDigits_iff.1 (by simpa using whole), some,
        allDigits_iff.1 digits⟩
      have whole := List.takeWhile_append_dropWhile (p := (· ≠ '.')) (l := w)
      rw [rest, point] at whole
      exact whole.symm
    · cases h
  · rintro ⟨whole, fraction, rfl, digits, some, more⟩
    have before : ∀ c ∈ whole, decide (c ≠ '.') = true := fun c hc =>
      decide_eq_true (ne_point_of_isDigit (digits c hc))
    dsimp only
    rw [List.takeWhile_append_of_pos before, List.dropWhile_append_of_pos before]
    simp [allDigits_iff.2 digits, allDigits_iff.2 more, some]

/-- No keyword has a digit or a point, which are the same in capitals. -/
theorem toUpper_ne_keyword {c : Char} (hc : c ∈ w) (h : c.isDigit = true ∨ c = '.') :
    ∀ e ∈ keywords, String.ofList (w.map Char.toUpper) ≠ e.1 := by
  have letters : ∀ e ∈ keywords, e.1.toList.all (fun d => !d.isDigit && d ≠ '.') = true := by
    decide
  have same : c.toUpper = c := by
    rcases h with h | rfl
    · have bounds : 48 ≤ c.toNat ∧ c.toNat ≤ 57 := by
        simpa [Char.isDigit, UInt32.le_iff_toNat_le] using h
      unfold Char.toUpper
      rw [dif_neg]
      simp only [UInt32.le_iff_toNat_le, not_and]
      change 97 ≤ c.toNat → _
      omega
    · rfl
  intro e he eq
  have member : c ∈ e.1.toList := by
    rw [← eq, String.toList_ofList, ← same]
    exact List.mem_map_of_mem hc
  obtain ⟨noDigit, noPoint⟩ := Bool.and_eq_true_iff.1 (List.all_eq_true.1 (letters e he) c member)
  rcases h with h | h
  · rw [h] at noDigit
    cases noDigit
  · exact of_decide_eq_true noPoint h

theorem not_isDecimal_of_isDigits (h : IsDigits w) : ¬ IsDecimal w := by
  rintro ⟨whole, fraction, rfl, _⟩
  exact ne_point_of_isDigit (h '.' (by simp)) rfl

/-- A word that is no number is a keyword, or a name if it is none. -/
theorem ofWord_cases (digits : ¬ IsDigits w) (decimal : ¬ IsDecimal w) :
    (∃ e ∈ keywords, String.ofList (w.map Char.toUpper) = e.1 ∧ ofWord w = e.2) ∨
      (∀ e ∈ keywords, String.ofList (w.map Char.toUpper) ≠ e.1) ∧
        ofWord w = .word (String.ofList w) := by
  unfold ofWord
  rw [if_neg (mt allDigits_iff.1 digits), if_neg (mt isDecimal_iff.1 decimal)]
  split
  case h_8 h₁ h₂ h₃ h₄ h₅ h₆ h₇ =>
    exact .inr ⟨by simpa [keywords] using ⟨h₁, h₂, h₃, h₄, h₅, h₆, h₇⟩, rfl⟩
  all_goals
    rename_i h
    exact .inl ⟨(_, _), by simp [keywords], h, rfl⟩

/-- A word is exactly one of the four. -/
theorem names_iff (hw : w ≠ []) {t : Token} : Names w t ↔ ofWord w = t := by
  obtain ⟨c, hc⟩ := List.exists_mem_of_ne_nil w hw
  by_cases digits : IsDigits w
  · have known : ofWord w = .digits (String.ofList w) := if_pos (allDigits_iff.2 digits)
    constructor
    · rintro (_ | decimal | ⟨hk, eq⟩ | other)
      · exact known
      · exact absurd decimal (not_isDecimal_of_isDigits digits)
      · exact absurd eq (toUpper_ne_keyword hc (.inl (digits c hc)) _ hk)
      · contradiction
    · rintro rfl
      exact known ▸ .digits digits
  by_cases decimal : IsDecimal w
  · have known : ofWord w = .decimal (String.ofList w) := by
      unfold ofWord
      rw [if_neg (mt allDigits_iff.1 digits), if_pos (isDecimal_iff.2 decimal)]
    constructor
    · rintro (_ | _ | ⟨hk, eq⟩ | other)
      · contradiction
      · exact known
      · obtain ⟨whole, fraction, rfl, _⟩ := decimal
        exact absurd eq (toUpper_ne_keyword (c := '.') (by simp) (.inr rfl) _ hk)
      · contradiction
    · rintro rfl
      exact known ▸ .decimal decimal
  have single : ∀ e ∈ keywords, ∀ f ∈ keywords, e.1 = f.1 → e.2 = f.2 := by decide
  rcases ofWord_cases digits decimal with ⟨e, he, eq, known⟩ | ⟨none, known⟩
  · constructor
    · rintro (_ | _ | ⟨hk, eq'⟩ | ⟨_, _, none⟩)
      · contradiction
      · contradiction
      · exact known.trans (single e he _ hk (eq.symm.trans eq'))
      · exact absurd eq (none e he)
    · rintro rfl
      rw [known]
      exact .keyword he eq
  · constructor
    · rintro (_ | _ | ⟨hk, eq⟩ | _)
      · contradiction
      · contradiction
      · exact absurd eq (none _ hk)
      · exact known
    · rintro rfl
      exact known ▸ .name digits decimal none

/-! ## Characters -/

/-- The character that a quoted text stands between. -/
abbrev IsQuote (c : Char) : Prop := c = '"' ∨ c = '\x27'

theorem not_isBlank_of_isWordChar {c : Char} (h : isWordChar c = true) :
    Text.isBlank c = false := by
  have letter : c.isAlpha = (decide (c.val ≥ 'A'.val ∧ c.val ≤ 'Z'.val) ||
      decide (c.val ≥ 'a'.val) && decide (c.val ≤ 'z'.val)) := rfl
  have bounds : 46 ≤ c.toNat ∧ c.toNat ≤ 122 := by
    simp only [isWordChar, Char.isAlphanum, letter, Char.isDigit, UInt32.le_iff_toNat_le,
      Bool.or_eq_true, Bool.and_eq_true, decide_eq_true_eq, beq_iff_eq, ge_iff_le] at h
    rcases h with (((h | h) | h) | rfl) | rfl
    · exact ⟨Nat.le_trans (by decide) h.1, Nat.le_trans h.2 (by decide)⟩
    · exact ⟨Nat.le_trans (by decide) h.1, Nat.le_trans h.2 (by decide)⟩
    · exact ⟨Nat.le_trans (by decide) h.1, Nat.le_trans h.2 (by decide)⟩
    · decide
    · decide
  simp only [Text.isBlank, Text.blankRanges, Text.CharRanges.contains, List.any_cons, List.any_nil,
    Bool.or_false, Bool.or_eq_false_iff, Bool.and_eq_false_iff, decide_eq_false_iff_not]
  omega

/-- No other token starts with the first character of a symbol. -/
theorem symbol_start {c : Char} (h : (ofOne? c).isSome ∨ ∃ d, (ofTwo? c d).isSome) :
    Text.isBlank c = false ∧ isWordChar c = false ∧ ¬ IsQuote c := by
  have known : c ∈ "=><()|:,?+-*/&!".toList := by
    rcases h with h | ⟨d, h⟩
    · unfold ofOne? at h
      split at h <;> first | decide | cases h
    · unfold ofTwo? at h
      split at h <;> first | decide | cases h
  have each : "=><()|:,?+-*/&!".toList.all (fun c =>
      decide (Text.isBlank c = false ∧ isWordChar c = false ∧ c ≠ '"' ∧ c ≠ '\x27')) = true := by
    decide
  obtain ⟨blank, word, double, single⟩ := of_decide_eq_true (List.all_eq_true.1 each c known)
  exact ⟨blank, word, fun q => q.elim double single⟩

theorem quote_start {c : Char} (h : IsQuote c) :
    Text.isBlank c = false ∧ isWordChar c = false := by
  rcases h with rfl | rfl <;> decide

end Token

/-! ## Texts -/

/-- A text splits into tokens: its words, which are as long as can be, its strings, and its symbols,
of which those of two characters go first. -/
inductive Splits : List Char → List Token → Prop
  | nil : Splits [] []
  | blank {c : Char} {cs : List Char} {ts : List Token} (hc : Text.isBlank c = true)
      (rest : Splits cs ts) : Splits (c :: cs) ts
  | word {w cs : List Char} {t : Token} {ts : List Token} (some : w ≠ [])
      (all : ∀ c ∈ w, Token.isWordChar c = true)
      (longest : ∀ c ∈ cs.head?, Token.isWordChar c = false) (names : Token.Names w t)
      (rest : Splits cs ts) : Splits (w ++ cs) (t :: ts)
  | quoted {q : Char} {inner cs : List Char} {ts : List Token} (hq : Token.IsQuote q)
      (open_ : q ∉ inner) (rest : Splits cs ts) :
      Splits (q :: inner ++ q :: cs) (.ofQuoted q (String.ofList inner) :: ts)
  | double {c d : Char} {cs : List Char} {t : Token} {ts : List Token}
      (symbol : Token.ofTwo? c d = some t) (rest : Splits cs ts) : Splits (c :: d :: cs) (t :: ts)
  | single {c : Char} {cs : List Char} {t : Token} {ts : List Token}
      (symbol : Token.ofOne? c = some t) (first : ∀ d ∈ cs.head?, Token.ofTwo? c d = none)
      (rest : Splits cs ts) : Splits (c :: cs) (t :: ts)

namespace Lexeme

open Token

/-! ### One token at a time -/

variable {start : Nat} {c d : Char} {w cs : List Char} {t : Token}

theorem lex_blank (hc : Text.isBlank c = true) : lex start (c :: cs) = lex (start + c.utf8Size) cs := by
  rw [lex, if_pos hc]

theorem lex_word (some : w ≠ []) (all : ∀ c ∈ w, isWordChar c = true)
    (longest : ∀ c ∈ cs.head?, isWordChar c = false) :
    lex start (w ++ cs) =
      (lex (start + byteLength w) cs).map (of (.ofWord w) w start :: ·) := by
  obtain ⟨c, w, rfl⟩ := List.exists_cons_of_ne_nil some
  obtain ⟨hc, hw⟩ := List.forall_mem_cons.1 all
  have stop : cs.takeWhile isWordChar = [] ∧ cs.dropWhile isWordChar = cs := by
    cases cs with
    | nil => exact ⟨rfl, rfl⟩
    | cons d cs =>
      have hd : isWordChar d = false := longest d rfl
      simp [hd]
  rw [List.cons_append, lex, if_neg (by simp [not_isBlank_of_isWordChar hc]), if_pos hc]
  dsimp only
  rw [List.takeWhile_append_of_pos hw, List.dropWhile_append_of_pos hw, stop.1, stop.2,
    List.append_nil]

theorem lex_quoted {q : Char} {inner : List Char} (hq : IsQuote q) (open_ : q ∉ inner) :
    lex start (q :: inner ++ q :: cs) =
      (lex (start + byteLength (q :: inner ++ [q])) cs).map
        (of (.ofQuoted q (String.ofList inner)) (q :: inner ++ [q]) start :: ·) := by
  have inside : ∀ c ∈ inner, decide (c ≠ q) = true := fun c hc =>
    decide_eq_true fun e => open_ (e ▸ hc)
  have before : (inner ++ q :: cs).takeWhile (· ≠ q) = inner := by
    rw [List.takeWhile_append_of_pos inside]
    simp
  have after : (inner ++ q :: cs).dropWhile (· ≠ q) = q :: cs := by
    rw [List.dropWhile_append_of_pos inside]
    simp
  obtain ⟨blank, word⟩ := quote_start hq
  rw [List.cons_append, lex, if_neg (by simp [blank]), if_neg (by simp [word]), if_pos hq]
  dsimp only
  split
  · rename_i close rest h
    cases after.symm.trans h
    rw [before]
  · rename_i h
    cases after.symm.trans h

theorem lex_double (symbol : ofTwo? c d = some t) :
    lex start (c :: d :: cs) = (lex (start + byteLength [c, d]) cs).map (of t [c, d] start :: ·) := by
  obtain ⟨blank, word, quote⟩ :=
    symbol_start (c := c) (.inr ⟨d, by rw [symbol, Option.isSome_some]⟩)
  have known : symbol? c (d :: cs) = some (t, [c, d]) := by
    unfold symbol?
    rw [List.head?_cons, Option.bind_some, symbol]
    rfl
  rw [lex, if_neg (by simp [blank]), if_neg (by simp [word]), if_neg quote, known]
  rfl

theorem lex_single (symbol : ofOne? c = some t) (first : ∀ d ∈ cs.head?, ofTwo? c d = none) :
    lex start (c :: cs) = (lex (start + byteLength [c]) cs).map (of t [c] start :: ·) := by
  obtain ⟨blank, word, quote⟩ :=
    symbol_start (c := c) (.inl (by rw [symbol, Option.isSome_some]))
  have known : symbol? c cs = some (t, [c]) := by
    unfold symbol?
    rw [Option.bind_eq_none_iff.2 first, symbol]
    rfl
  rw [lex, if_neg (by simp [blank]), if_neg (by simp [word]), if_neg quote, known]
  rfl

/-! ### All tokens -/

theorem map_of_eq_ok {x : Except Unexpected (List Lexeme)} {l : Lexeme} {ts : List Token}
    (h : ∃ ls, x = .ok ls ∧ ls.map token = ts) :
    ∃ ls, x.map (l :: ·) = .ok ls ∧ ls.map token = l.token :: ts := by
  obtain ⟨ls, rfl, rfl⟩ := h
  exact ⟨l :: ls, rfl, rfl⟩

theorem lex_of_splits {cs : List Char} {ts : List Token} (h : Splits cs ts) (start : Nat) :
    ∃ ls, lex start cs = .ok ls ∧ ls.map token = ts := by
  induction h generalizing start with
  | nil =>
    rw [lex]
    exact ⟨[], rfl, rfl⟩
  | blank hc _ ih =>
    rw [lex_blank hc]
    exact ih _
  | word some all longest names _ ih =>
    rw [lex_word some all longest, (names_iff some).1 names]
    exact map_of_eq_ok (ih _)
  | quoted hq open_ _ ih =>
    rw [lex_quoted hq open_]
    exact map_of_eq_ok (ih _)
  | double symbol _ ih =>
    rw [lex_double symbol]
    exact map_of_eq_ok (ih _)
  | single symbol first _ ih =>
    rw [lex_single symbol first]
    exact map_of_eq_ok (ih _)

/-- What a symbol at the start of a text can be. -/
theorem symbol?_eq_some {text : List Char}
    (h : symbol? c cs = some (t, text)) :
    (∃ d rest, cs = d :: rest ∧ text = [c, d] ∧ ofTwo? c d = some t) ∨
      text = [c] ∧ ofOne? c = some t ∧ ∀ d ∈ cs.head?, ofTwo? c d = none := by
  unfold symbol? at h
  split at h
  · rename_i u two
    obtain ⟨d, hd, symbol⟩ := Option.bind_eq_some_iff.1 two
    obtain ⟨rest, rfl⟩ := List.head?_eq_some_iff.1 hd
    cases h
    exact .inl ⟨d, rest, rfl, rfl, symbol⟩
  · rename_i none
    obtain ⟨u, one, h⟩ := Option.map_eq_some_iff.1 h
    cases h
    exact .inr ⟨rfl, one, Option.bind_eq_none_iff.1 none⟩

theorem splits_of_lex {start : Nat} {cs : List Char} {ls : List Lexeme} (h : lex start cs = .ok ls) :
    Splits cs (ls.map token) := by
  induction start, cs using lex.induct generalizing ls with
  | case1 start =>
    rw [lex] at h
    cases h
    exact .nil
  | case2 start c cs blank ih =>
    rw [lex, if_pos blank] at h
    exact .blank blank (ih h)
  | case3 start c cs blank word _ _ =>
    rename_i ih
    rw [lex, if_neg blank, if_pos word] at h
    obtain ⟨rest, hrest, rfl⟩ := Result.map_eq_ok.1 h
    have all : ∀ d ∈ c :: cs.takeWhile isWordChar, isWordChar d = true :=
      List.forall_mem_cons.2 ⟨word, fun d hd => List.mem_takeWhile_imp hd⟩
    have longest : ∀ d ∈ (cs.dropWhile isWordChar).head?, isWordChar d = false := by
      intro d hd
      have stop := List.head?_dropWhile_not isWordChar cs
      rw [Option.mem_def.1 hd] at stop
      exact stop
    have split := Splits.word (List.cons_ne_nil c _) all longest
      ((names_iff (List.cons_ne_nil c _)).2 rfl) (ih hrest)
    rwa [List.cons_append, List.takeWhile_append_dropWhile] at split
  | case4 start c cs blank word quote inner close rest after _ _ =>
    rename_i ih
    rw [lex, if_neg blank, if_neg word, if_pos quote] at h
    dsimp only at h
    split at h
    · rename_i close' rest' after'
      cases after.symm.trans after'
      obtain ⟨ls', hrest, rfl⟩ := Result.map_eq_ok.1 h
      have closed : close = c := by
        have stop := List.head?_dropWhile_not (· ≠ c) cs
        rw [after] at stop
        simpa using stop
      have outside : c ∉ inner := fun hc => by simpa using List.mem_takeWhile_imp hc
      have split := Splits.quoted quote outside (ih hrest)
      rwa [List.cons_append, ← closed, ← after, List.takeWhile_append_dropWhile, closed] at split
    · rename_i none
      cases after.symm.trans none
  | case5 start c cs blank word quote none empty =>
    rw [lex, if_neg blank, if_neg word, if_pos quote] at h
    dsimp only at h
    split at h
    · rename_i close rest after
      cases none.symm.trans after
    · rw [if_pos empty] at h
      cases h
  | case6 start c cs blank word quote none some =>
    rw [lex, if_neg blank, if_neg word, if_pos quote] at h
    dsimp only at h
    split at h
    · rename_i close rest after
      cases none.symm.trans after
    · rw [if_neg some] at h
      cases h
  | case7 start c cs blank word quote none =>
    rw [lex, if_neg blank, if_neg word, if_neg quote, none] at h
    cases h
  | case8 start c cs blank word quote t text symbol ih =>
    rw [lex, if_neg blank, if_neg word, if_neg quote, symbol] at h
    obtain ⟨ls', hrest, rfl⟩ := Result.map_eq_ok.1 h
    rcases symbol?_eq_some symbol with ⟨d, rest, rfl, rfl, two⟩ | ⟨rfl, one, first⟩
    · exact .double two (ih hrest)
    · exact .single one first (ih hrest)

/-- The tokens of a text are those into which it splits. -/
theorem lex_eq_ok_iff {cs : List Char} {ts : List Token} (start : Nat) :
    (∃ ls, lex start cs = .ok ls ∧ ls.map token = ts) ↔ Splits cs ts := by
  constructor
  · rintro ⟨ls, h, rfl⟩
    exact splits_of_lex h
  · intro h
    exact lex_of_splits h start

end Lexeme

namespace Splits

variable {cs ds : List Char} {ts us : List Token} {t : Token}

/-- No token goes across white space. -/
theorem append (h : Splits cs ts) (h' : Splits ds us) : Splits (cs ++ ' ' :: ds) (ts ++ us) := by
  have space : Splits (' ' :: ds) us := .blank (by decide) h'
  have next (p : Char → Prop) (cs : List Char) (hp : p ' ') (h : ∀ c ∈ cs.head?, p c) :
      ∀ c ∈ (cs ++ ' ' :: ds).head?, p c := by
    cases cs with
    | nil =>
      rintro _ ⟨⟩
      exact hp
    | cons c cs => exact h
  induction h with
  | nil => exact space
  | blank hc _ ih => exact .blank hc ih
  | word some all longest names _ ih =>
    rw [List.append_assoc]
    exact .word some all (next _ _ (by decide) longest) names ih
  | quoted hq open_ _ ih =>
    rw [List.append_assoc, List.cons_append]
    exact .quoted hq open_ ih
  | double symbol _ ih => exact .double symbol ih
  | @single c _ _ _ symbol first _ ih =>
    refine .single symbol (next _ _ ?_ first) ih
    unfold Token.ofTwo?
    split <;> first | rfl | contradiction

/-- A text has at most one token for each of its characters. -/
theorem length_le (h : Splits cs ts) : ts.length ≤ cs.length := by
  induction h with
  | nil => exact Nat.le_refl 0
  | blank _ _ ih => exact Nat.le_succ_of_le ih
  | word some _ _ _ _ ih =>
    rw [List.length_append, List.length_cons]
    have := List.length_pos_iff.2 some
    omega
  | quoted _ _ _ ih =>
    simp only [List.length_append, List.length_cons]
    omega
  | double _ _ ih => exact Nat.succ_le_succ (Nat.le_succ_of_le ih)
  | single _ _ _ ih => exact Nat.succ_le_succ ih

/-- A name is a word. -/
theorem word_of_mem (h : Splits cs ts) {s : String} (hs : .word s ∈ ts) :
    s.toList ≠ [] ∧ ∀ c ∈ s.toList, Token.isWordChar c = true := by
  induction h with
  | nil => cases hs
  | blank _ _ ih => exact ih hs
  | word some all _ names _ ih =>
    rcases List.mem_cons.1 hs with rfl | hs
    · cases names with
      | keyword h _ => simp [Token.keywords] at h
      | name _ _ _ => rw [String.toList_ofList]; exact ⟨some, all⟩
    · exact ih hs
  | quoted hq _ _ ih =>
    rcases List.mem_cons.1 hs with same | hs
    · rcases hq with rfl | rfl <;> simp [Token.ofQuoted] at same
    · exact ih hs
  | double symbol _ ih =>
    rcases List.mem_cons.1 hs with rfl | hs
    · unfold Token.ofTwo? at symbol
      split at symbol <;> cases symbol
    · exact ih hs
  | single symbol _ _ ih =>
    rcases List.mem_cons.1 hs with rfl | hs
    · unfold Token.ofOne? at symbol
      split at symbol <;> cases symbol
    · exact ih hs

end Splits

/-! ## Tokens in writing -/

/-- A token as it can be written. -/
def Token.spelling : Token → String
  | .truth true => "TRUE"
  | .truth false => "FALSE"
  | .not => "NOT"
  | .is => "IS"
  | .null => "NULL"
  | .and => "AND"
  | .or => "OR"
  | .digits s => s
  | .decimal s => s
  | .word s => s
  | .doubleQuoted s => "\"" ++ s ++ "\""
  | .singleQuoted s => "'" ++ s ++ "'"
  | .openParen => "("
  | .closeParen => ")"
  | .bar => "|"
  | .colon => ":"
  | .comma => ","
  | .question => "?"
  | .eq => "="
  | .ne => "!="
  | .gt => ">"
  | .lt => "<"
  | .ge => ">="
  | .le => "<="
  | .plus => "+"
  | .minus => "-"
  | .star => "*"
  | .slash => "/"

/-- Tokens with a space between each two. -/
def Token.print (ts : List Token) : String := " ".intercalate (ts.map spelling)

/-- A token that some text has. -/
def Token.IsWritten (t : Token) : Prop := Splits t.spelling.toList [t]

namespace Token

theorem isWritten_keyword {k : String} {t : Token} (h : (k, t) ∈ keywords) : t.IsWritten := by
  have each : ∀ e ∈ keywords, e.2.spelling = e.1 ∧ e.1.toList ≠ [] ∧
      e.1.toList.all isWordChar = true ∧
      String.ofList (e.1.toList.map Char.toUpper) = e.1 := by decide
  obtain ⟨spelled, some, all, upper⟩ := each _ h
  have split := Splits.word some (List.all_eq_true.1 all) (by simp) (.keyword h upper) .nil
  rwa [List.append_nil, ← spelled] at split

theorem isWritten_ofOne {c : Char} {t : Token} (h : ofOne? c = some t) : t.IsWritten := by
  unfold ofOne? at h
  split at h <;> cases h
  all_goals exact .single rfl (by simp) .nil

theorem isWritten_ofTwo {c d : Char} {t : Token} (h : ofTwo? c d = some t) : t.IsWritten := by
  unfold ofTwo? at h
  split at h <;> cases h
  case h_1 => exact isWritten_keyword (k := "OR") (by simp [keywords])
  case h_2 => exact isWritten_keyword (k := "AND") (by simp [keywords])
  case h_3 => exact isWritten_ofOne (c := '=') rfl
  all_goals exact .double rfl .nil

theorem isWritten_word {w : List Char} {t : Token} (some : w ≠ [])
    (all : ∀ c ∈ w, isWordChar c = true) (names : Names w t) : t.IsWritten := by
  have alone (spelled : t.spelling = String.ofList w) : t.IsWritten := by
    have split := Splits.word some all (by simp) names .nil
    rwa [List.append_nil, ← String.toList_ofList (l := w), ← spelled] at split
  cases names with
  | digits h => exact alone rfl
  | decimal h => exact alone rfl
  | keyword h _ => exact isWritten_keyword h
  | name _ _ _ => exact alone rfl

theorem isWritten_quoted {q : Char} {inner : List Char} (hq : IsQuote q) (h : q ∉ inner) :
    (ofQuoted q (String.ofList inner)).IsWritten := by
  have alone := Splits.quoted hq h .nil
  have spelled : (ofQuoted q (String.ofList inner)).spelling.toList = q :: inner ++ [q] := by
    rcases hq with rfl | rfl <;> simp [ofQuoted, spelling]
  unfold IsWritten
  rwa [spelled]

end Token

namespace Splits

variable {cs : List Char} {ts : List Token}

theorem isWritten (h : Splits cs ts) : ∀ t ∈ ts, t.IsWritten := by
  induction h with
  | nil => simp
  | blank _ _ ih => exact ih
  | word some all _ names _ ih =>
    exact List.forall_mem_cons.2 ⟨Token.isWritten_word some all names, ih⟩
  | quoted hq open_ _ ih => exact List.forall_mem_cons.2 ⟨Token.isWritten_quoted hq open_, ih⟩
  | double symbol _ ih => exact List.forall_mem_cons.2 ⟨Token.isWritten_ofTwo symbol, ih⟩
  | single symbol _ _ ih => exact List.forall_mem_cons.2 ⟨Token.isWritten_ofOne symbol, ih⟩

/-- Tokens written with spaces between them split into the same tokens. -/
theorem printed (h : ∀ t ∈ ts, t.IsWritten) : Splits (Token.print ts).toList ts := by
  unfold Token.print
  rw [String.toList_intercalate]
  induction ts with
  | nil => exact .nil
  | cons t ts ih =>
    obtain ⟨ht, hts⟩ := List.forall_mem_cons.1 h
    cases ts with
    | nil =>
      rw [List.map_singleton, List.map_singleton, List.intercalate_singleton]
      exact ht
    | cons u us =>
      have split := Splits.append ht (ih hts)
      simpa [List.intercalate_cons_cons] using split

end Splits

/-! ## Parts of a text -/

@[simp] theorem byteLength_nil : byteLength [] = 0 := by simp [byteLength]

@[simp] theorem byteLength_append (cs ds : List Char) :
    byteLength (cs ++ ds) = byteLength cs + byteLength ds := by
  simp [byteLength, String.ofList_append]

theorem byteLength_cons (c : Char) (cs : List Char) :
    byteLength (c :: cs) = c.utf8Size + byteLength cs := by
  simp [byteLength, String.ofList_cons]

namespace Splits

variable {cs : List Char} {t : Token} {ts : List Token}

/-- The first token of a text is the same wherever the text starts, and whatever it goes on with as
long as that begins alike. -/
theorem first (h : Splits cs (t :: ts)) :
    ∃ blanks w rest, cs = blanks ++ (w ++ rest) ∧ (∀ c ∈ blanks, Text.isBlank c = true) ∧
      ∀ start more, (∀ c ∈ more.head?, c ∈ rest.head?) →
        Lexeme.lex start (w ++ more) =
          (Lexeme.lex (start + byteLength w) more).map (Lexeme.of t w start :: ·) := by
  generalize e : t :: ts = us at h
  induction h with
  | nil => cases e
  | @blank c cs us hc _ ih =>
    obtain ⟨blanks, w, rest, rfl, all, same⟩ := ih e
    exact ⟨c :: blanks, w, rest, rfl, List.forall_mem_cons.2 ⟨hc, all⟩, same⟩
  | @word w cs u us some all longest names _ _ =>
    cases e
    refine ⟨[], w, cs, rfl, by simp, fun start more next => ?_⟩
    rw [Lexeme.lex_word some all fun c hc => longest c (next c hc),
      (Token.names_iff some).1 names]
  | @quoted q inner cs us hq open_ _ _ =>
    cases e
    refine ⟨[], q :: inner ++ [q], cs, by simp, by simp, fun start more _ => ?_⟩
    rw [← Lexeme.lex_quoted hq open_, List.append_assoc, List.singleton_append]
  | @double c d cs u us symbol _ _ =>
    cases e
    exact ⟨[], [c, d], cs, rfl, by simp, fun start more _ => Lexeme.lex_double symbol⟩
  | @single c cs u us symbol first _ _ =>
    cases e
    exact ⟨[], [c], cs, rfl, by simp, fun start more next =>
      Lexeme.lex_single symbol fun d hd => first d (next d hd)⟩

end Splits

namespace Lexeme

variable {start : Nat} {cs : List Char} {l : Lexeme} {ls before used after : List Lexeme}

/-- The lexeme where its text starts `k` bytes later. -/
def shift (k : Nat) (l : Lexeme) : Lexeme := { l with start := l.start + k }

@[simp] theorem token_shift (k : Nat) (l : Lexeme) : (l.shift k).token = l.token := rfl

@[simp] theorem start_shift (k : Nat) (l : Lexeme) : (l.shift k).start = l.start + k := rfl

@[simp] theorem stop_shift (k : Nat) (l : Lexeme) : (l.shift k).stop = l.stop + k :=
  Nat.add_right_comm _ _ _

theorem lex_blanks {blanks : List Char} (h : ∀ c ∈ blanks, Text.isBlank c = true) :
    lex start (blanks ++ cs) = lex (start + byteLength blanks) cs := by
  induction blanks generalizing start with
  | nil => rfl
  | cons c blanks ih =>
    obtain ⟨hc, all⟩ := List.forall_mem_cons.1 h
    rw [List.cons_append, lex_blank hc, ih all, byteLength_cons, Nat.add_assoc]

theorem lex_cons (h : lex start cs = .ok (l :: ls)) :
    ∃ blanks w rest, cs = blanks ++ (w ++ rest) ∧ (∀ c ∈ blanks, Text.isBlank c = true) ∧
      l.start = start + byteLength blanks ∧ l.stop = l.start + byteLength w ∧
      lex l.stop rest = .ok ls ∧
      ∀ k more, (∀ c ∈ more.head?, c ∈ rest.head?) →
        lex (l.start + k) (w ++ more) = (lex (l.stop + k) more).map (l.shift k :: ·) := by
  obtain ⟨blanks, w, rest, rfl, all, same⟩ := (splits_of_lex h).first
  rw [lex_blanks all, same _ rest fun c hc => hc] at h
  obtain ⟨ls', read, eq⟩ := Result.map_eq_ok.1 h
  obtain ⟨own, rfl⟩ := List.cons.inj eq
  have starts : l.start = start + byteLength blanks := own ▸ rfl
  have stops : l.stop = l.start + byteLength w := own ▸ rfl
  refine ⟨blanks, w, rest, rfl, all, starts, stops, ?_, fun k more next => ?_⟩
  · rwa [stops, starts]
  · rw [same _ more next, stops, Nat.add_right_comm]
    exact own ▸ rfl

/-- A text starts later with all its lexemes. -/
theorem lex_shift (k : Nat) (h : lex start cs = .ok ls) :
    lex (start + k) cs = .ok (ls.map (shift k)) := by
  induction ls generalizing start cs with
  | nil =>
    obtain ⟨ls, read, none⟩ := lex_of_splits (splits_of_lex h) (start + k)
    rwa [List.map_eq_nil_iff.1 none] at read
  | cons l ls ih =>
    obtain ⟨blanks, w, rest, rfl, all, starts, _, further, same⟩ := lex_cons h
    rw [lex_blanks all, Nat.add_right_comm, ← starts, same k rest fun c hc => hc, ih further]
    rfl

/-- The lexemes of a text follow one another. -/
theorem lex_pairwise (h : lex start cs = .ok ls) :
    (∀ l ∈ ls, start ≤ l.start) ∧ ls.Pairwise fun l m => l.stop ≤ m.start := by
  induction ls generalizing start cs with
  | nil => exact ⟨by simp, .nil⟩
  | cons l ls ih =>
    obtain ⟨blanks, w, rest, rfl, _, starts, stops, further, _⟩ := lex_cons h
    obtain ⟨later, ordered⟩ := ih further
    refine ⟨List.forall_mem_cons.2 ⟨by omega, fun m hm => ?_⟩, .cons later ordered⟩
    have := later m hm
    omega

/-- The text from a lexeme on. -/
theorem lex_suffix (h : lex start cs = .ok (before ++ ls)) (hl : l ∈ ls.head?) :
    ∃ front back, cs = front ++ back ∧ l.start = start + byteLength front ∧
      lex l.start back = .ok ls := by
  obtain ⟨ls, rfl⟩ := List.head?_eq_some_iff.1 hl
  induction before generalizing start cs with
  | nil =>
    obtain ⟨blanks, w, rest, rfl, _, starts, _, further, same⟩ := lex_cons h
    refine ⟨blanks, w ++ rest, rfl, starts, (same 0 rest fun c hc => hc).trans ?_⟩
    rw [Nat.add_zero, further]
    rfl
  | cons m before ih =>
    obtain ⟨blanks, w, rest, rfl, _, starts, stops, further, _⟩ := lex_cons h
    obtain ⟨front, back, rfl, starts', read⟩ := ih further
    refine ⟨blanks ++ (w ++ front), back, by simp, ?_, read⟩
    rw [starts', stops, starts, byteLength_append, byteLength_append]
    omega

/-- The text up to the end of a lexeme. -/
theorem lex_prefix (h : lex start cs = .ok (used ++ after)) :
    ∃ front back, cs = front ++ back ∧ lex start front = .ok used ∧
      (used.getLast?.map stop).getD start = start + byteLength front := by
  induction used generalizing start cs with
  | nil => exact ⟨[], cs, rfl, by rw [lex], by simp⟩
  | cons l used ih =>
    obtain ⟨blanks, w, rest, rfl, all, starts, stops, further, same⟩ := lex_cons h
    obtain ⟨front, back, rfl, read, ends⟩ := ih further
    refine ⟨blanks ++ (w ++ front), back, by simp, ?_, ?_⟩
    · have next : ∀ c ∈ front.head?, c ∈ (front ++ back).head? := fun c hc => by
        rw [Option.mem_def] at hc ⊢
        rw [List.head?_append, hc, Option.some_or]
      rw [lex_blanks all, ← starts]
      refine (same 0 front next).trans ?_
      rw [Nat.add_zero, read]
      rfl
    · have last : ((l :: used).getLast?.map stop).getD start =
          (used.getLast?.map stop).getD l.stop := by
        rw [List.getLast?_cons, Option.map_some, Option.getD_some, Option.getD_map]
      rw [last, ends, stops, starts, byteLength_append, byteLength_append]
      omega

end Lexeme

end SemanticLayer.Formula
