import Mathlib.Data.List.Infix
import SemanticLayer.Formula.Evaluation
import SemanticLayer.Proofs.Sql.RowEvaluation

/-!
# Texts that are like a pattern

What a pattern of LIKE stands for, and which texts the condition of a search for some texts holds
of.  A searched text is put between percent signs, with the wildcards in it escaped but not the
escape character, so the search is right for texts without that character and for no others.

* `Pattern.pieces?`, `Pattern.fits`: how a pattern is read, and which texts it fits;
* `Pattern.fitsShort`: a text with the escape character has a pattern that fits another text, no
  longer than itself;
* `holds_containsSql`: the condition holds exactly if one of the patterns fits;
* `findsTexts_iff`: which texts can be searched for.
-/

namespace SemanticLayer.Sql

namespace Pattern

/-! ## Reading patterns -/

/-- What a place of a pattern stands for. -/
inductive Piece where
  | anyText
  | anyChar
  | exactly (c : Char)
  deriving DecidableEq

/-- A character that is not escaped. -/
def Piece.of (c : Char) : Piece :=
  if c = '%' then .anyText else if c = '_' then .anyChar else .exactly c

/-- The pieces of a pattern; none if the escape character is its last one. -/
def pieces? (escape : Char) : List Char → Option (List Piece)
  | [] => some []
  | [c] => if c = escape then none else some [.of c]
  | c :: d :: cs =>
    if c = escape then (pieces? escape cs).map (.exactly d :: ·)
    else (pieces? escape (d :: cs)).map (.of c :: ·)

/-- Whether pieces fit a whole text. -/
def fits : List Piece → List Char → Bool
  | [], s => s.isEmpty
  | .anyText :: ps, s => s.tails.any (fits ps)
  | .anyChar :: ps, s =>
    match s with
    | [] => false
    | _ :: s => fits ps s
  | .exactly c :: ps, s =>
    match s with
    | [] => false
    | d :: s => c = d && fits ps s

variable {escape c d : Char} {cs ds s : List Char} {ps : List Piece}

theorem pieces?_escaped : pieces? escape (escape :: d :: cs) =
    (pieces? escape cs).map (.exactly d :: ·) := by
  rw [pieces?, if_pos rfl]

theorem pieces?_plain (h : c ≠ escape) :
    pieces? escape (c :: cs) = (pieces? escape cs).map (.of c :: ·) := by
  cases cs with
  | nil => simp [pieces?, h]
  | cons d cs => rw [pieces?, if_neg h]

theorem fits_anyText : fits (.anyText :: ps) s = true ↔ ∃ a b, s = a ++ b ∧ fits ps b = true := by
  rw [fits, List.any_eq_true]
  constructor
  · rintro ⟨b, hb, h⟩
    obtain ⟨a, rfl⟩ := (List.mem_tails _ _).1 hb
    exact ⟨a, b, rfl, h⟩
  · rintro ⟨a, b, rfl, h⟩
    exact ⟨b, (List.mem_tails _ _).2 (List.suffix_append a b), h⟩

theorem fits_anyText_of_fits (h : fits ps s = true) : fits (.anyText :: ps) s = true :=
  fits_anyText.2 ⟨[], s, rfl, h⟩

theorem fits_anyText_last : fits [.anyText] s = true :=
  fits_anyText.2 ⟨s, [], (List.append_nil s).symm, rfl⟩

theorem fits_exactly_cons : fits (.exactly c :: ps) (c :: s) = fits ps s := by
  simp [fits]

theorem fits_exactly : fits (cs.map .exactly ++ ps) s = true ↔
    ∃ b, s = cs ++ b ∧ fits ps b = true := by
  induction cs generalizing s with
  | nil => simp
  | cons c cs ih =>
    cases s with
    | nil => simp [fits]
    | cons d s =>
      simp only [List.map_cons, List.cons_append, fits, Bool.and_eq_true, decide_eq_true_eq, ih,
        List.cons.injEq]
      constructor
      · rintro ⟨rfl, b, rfl, h⟩
        exact ⟨b, ⟨rfl, rfl⟩, h⟩
      · rintro ⟨b, ⟨rfl, rfl⟩, h⟩
        exact ⟨rfl, b, rfl, h⟩

/-- The pattern of a text between two wildcards fits exactly the texts that contain it. -/
theorem fits_between : fits (.anyText :: (cs.map .exactly ++ [.anyText])) s = true ↔ cs <:+: s := by
  rw [fits_anyText]
  constructor
  · rintro ⟨a, b, rfl, h⟩
    obtain ⟨r, rfl, -⟩ := fits_exactly.1 h
    exact ⟨a, r, List.append_assoc a cs r⟩
  · rintro ⟨a, r, rfl⟩
    exact ⟨a, cs ++ r, List.append_assoc a cs r, fits_exactly.2 ⟨r, rfl, fits_anyText_last⟩⟩

/-! ## Escaped texts -/

/-- The characters of an escaped text. -/
def escaped (cs : List Char) : List Char :=
  cs.flatMap fun c => if c = '%' ∨ c = '_' then [escapeChar, c] else [c]

theorem escaped_wildcard (h : c = '%' ∨ c = '_') :
    escaped (c :: cs) = escapeChar :: c :: escaped cs := by
  rw [escaped, List.flatMap_cons, if_pos h]
  rfl

theorem escaped_plain (h : ¬(c = '%' ∨ c = '_')) : escaped (c :: cs) = c :: escaped cs := by
  rw [escaped, List.flatMap_cons, if_neg h]
  rfl

theorem toList_containing (t : String) :
    (containing t).toList = '%' :: (escaped t.toList ++ ['%']) := by
  simp [containing, escape, escaped]

/-- A character other than the escape character stands for itself. -/
theorem pieces?_escaped_cons (h : c ≠ escapeChar) : pieces? escapeChar (escaped (c :: cs) ++ ds) =
    (pieces? escapeChar (escaped cs ++ ds)).map (.exactly c :: ·) := by
  by_cases wildcard : c = '%' ∨ c = '_'
  · rw [escaped_wildcard wildcard, List.cons_append, List.cons_append, pieces?_escaped]
  · have plain : Piece.of c = .exactly c := by
      rw [Piece.of, if_neg fun e => wildcard (.inl e), if_neg fun e => wildcard (.inr e)]
    rw [escaped_plain wildcard, List.cons_append, pieces?_plain h, plain]

theorem pieces?_of_notMem (h : escapeChar ∉ cs) :
    pieces? escapeChar (escaped cs ++ ['%']) = some (cs.map .exactly ++ [.anyText]) := by
  induction cs with
  | nil => rfl
  | cons c cs ih =>
    obtain ⟨first, rest⟩ := not_or.1 (mt List.mem_cons.2 h)
    rw [pieces?_escaped_cons (Ne.symm first), ih rest]
    rfl

/-- Behind the escape character a wildcard of the text is one again: the character that should
escape it is escaped itself. -/
theorem pieces?_slash_wildcard (h : d = '%' ∨ d = '_') :
    pieces? escapeChar (escaped (escapeChar :: d :: cs) ++ ds) =
      (pieces? escapeChar (escaped cs ++ ds)).map (.exactly escapeChar :: .of d :: ·) := by
  have other : d ≠ escapeChar := by rcases h with rfl | rfl <;> decide
  rw [escaped_plain (by decide), escaped_wildcard h, List.cons_append, List.cons_append,
    pieces?_escaped, List.cons_append, pieces?_plain other, Option.map_map]
  rfl

/-- Behind the escape character any other character of the text stands for itself, and the escape
character is gone. -/
theorem pieces?_slash_plain (h : ¬(d = '%' ∨ d = '_')) :
    pieces? escapeChar (escaped (escapeChar :: d :: cs) ++ ds) =
      (pieces? escapeChar (escaped cs ++ ds)).map (.exactly d :: ·) := by
  rw [escaped_plain (by decide), escaped_plain h, List.cons_append, List.cons_append,
    pieces?_escaped]

/-- Whether the pattern of a searched text fits a text no longer than it, and another one if the
escape character is in it. -/
def FitsShort (cs : List Char) : Prop :=
  ∃ ps, pieces? escapeChar (escaped cs ++ ['%']) = some ps ∧
    ∃ s, fits ps s = true ∧ s.length ≤ cs.length ∧ (escapeChar ∈ cs → s ≠ cs)

theorem FitsShort.cons (h : FitsShort cs) (plain : c ≠ escapeChar) : FitsShort (c :: cs) := by
  obtain ⟨ps, read, s, fit, short, other⟩ := h
  refine ⟨.exactly c :: ps, ?_, c :: s, fits_exactly_cons.trans fit, Nat.succ_le_succ short, ?_⟩
  · rw [pieces?_escaped_cons plain, read]
    rfl
  · intro slash same
    have inside : escapeChar ∈ cs := (List.mem_cons.1 slash).resolve_left (Ne.symm plain)
    injection same with _ same
    exact other inside same

/-- The escape character in front of any other text either is gone, or stands for itself and leaves
a wildcard behind. -/
theorem FitsShort.slash (h : FitsShort cs) (d : Char) : FitsShort (escapeChar :: d :: cs) := by
  obtain ⟨ps, read, s, fit, short, -⟩ := h
  have longer : s.length < (d :: cs).length := Nat.lt_succ_of_le short
  have other {t u : List Char} (less : t.length < u.length) : t ≠ u := fun same =>
    Nat.lt_irrefl _ (same ▸ less)
  by_cases wildcard : d = '%' ∨ d = '_'
  · refine ⟨.exactly escapeChar :: .of d :: ps, ?_, ?_⟩
    · rw [pieces?_slash_wildcard wildcard, read]
      rfl
    · rcases wildcard with rfl | rfl
      · refine ⟨escapeChar :: s, ?_, Nat.succ_le_succ (Nat.le_of_lt longer), fun _ => ?_⟩
        · exact fits_exactly_cons.trans (fits_anyText_of_fits fit)
        · exact other (Nat.succ_lt_succ longer)
      · refine ⟨escapeChar :: 'x' :: s, fits_exactly_cons.trans fit, Nat.succ_le_succ longer, ?_⟩
        intro _ same
        injection same with _ same
        injection same with same
        exact absurd same (by decide)
  · refine ⟨.exactly d :: ps, ?_, d :: s, fits_exactly_cons.trans fit, ?_, fun _ => ?_⟩
    · rw [pieces?_slash_plain wildcard, read]
      rfl
    · exact Nat.le_succ_of_le longer
    · exact other (Nat.succ_lt_succ longer)

/-- At the end of the text the escape character makes a percent sign of the wildcard behind it. -/
theorem FitsShort.lastSlash : FitsShort [escapeChar] :=
  ⟨[.exactly '%'], rfl, ['%'], rfl, Nat.le_refl _, fun _ => by decide⟩

theorem fitsShort : (cs : List Char) → FitsShort cs
  | [] => ⟨[.anyText], rfl, [], rfl, Nat.le_refl _, nofun⟩
  | [c] => by
    by_cases slash : c = escapeChar
    · exact slash ▸ .lastSlash
    · exact (fitsShort []).cons slash
  | c :: d :: cs => by
    by_cases slash : c = escapeChar
    · exact slash ▸ (fitsShort cs).slash d
    · exact (fitsShort (d :: cs)).cons slash

/-- The pattern of a searched text can always be read. -/
theorem exists_pieces (t : String) : ∃ ps,
    pieces? escapeChar (containing t).toList = some (.anyText :: ps) ∧
      pieces? escapeChar (escaped t.toList ++ ['%']) = some ps := by
  obtain ⟨ps, read, -⟩ := fitsShort t.toList
  refine ⟨ps, ?_, read⟩
  rw [toList_containing, pieces?_plain (by decide), read]
  rfl

end Pattern

/-! ## Searches -/

open Pattern (escapeChar pieces? fits)

/-- Whether an expression is a text that a database holds against patterns by the rule of LIKE. -/
structure Engine.IsText (E : Engine) (cells : Cells) (e : Expr) (s : String) : Prop where
  value : E.value cells e = some (.text s)
  like : ∀ (escape : Char) (pattern : String) (ps : List Pattern.Piece),
    pieces? escape pattern.toList = some ps →
      E.value cells (.like e (.string pattern) escape false false) =
        some (.truth (fits ps s.toList))

namespace Engine

variable {E : Engine} {cells : Cells} {e : Expr} {s : String}

theorem holds_or {l r : Expr} :
    E.holds cells (l.or r) = true ↔ E.holds cells l = true ∨ E.holds cells r = true := by
  have truth (v : Option Datum) : v.bind Datum.truth? = some true ↔ v = some (.truth true) := by
    rcases v with _ | (_ | _) <;> simp [Datum.truth?]
  simp only [holds, Expr.or, Engine.value, decide_eq_true_eq, Option.map_eq_some_iff,
    Datum.truth.injEq, exists_eq_right, or?_eq_true, truth]

theorem holds_foldl_or {c : Expr} {cs : List Expr} : E.holds cells (cs.foldl .or c) = true ↔
    ∃ d ∈ c :: cs, E.holds cells d = true := by
  induction cs generalizing c with
  | nil => simp
  | cons d cs ih => simp [ih, holds_or, or_assoc]

theorem holds_containsSql {texts : List String} (h : E.IsText cells e s) :
    E.holds cells (Formula.containsSql texts e) = true ↔ ∃ t ∈ texts, ∃ ps,
      pieces? escapeChar (Pattern.containing t).toList = some ps ∧ fits ps s.toList = true := by
  have one (t : String) : E.holds cells
      (.like e (.string (Pattern.containing t)) escapeChar false false) = true ↔ ∃ ps,
        pieces? escapeChar (Pattern.containing t).toList = some ps ∧ fits ps s.toList = true := by
    obtain ⟨ps, read, -⟩ := Pattern.exists_pieces t
    rw [holds, h.like _ _ _ read, read]
    simp
  unfold Formula.containsSql
  cases texts with
  | nil => simp [holds, Engine.value, Expr.bool]
  | cons t texts =>
    simp only [List.map_cons, holds_foldl_or, List.exists_mem_cons_iff, List.mem_map,
      exists_exists_and_eq_and, one]

end Engine

/-- Whether the condition of a search for some texts holds of exactly the texts that contain one. -/
def FindsTexts (texts : List String) : Prop :=
  ∀ (E : Engine) (cells : Cells) (e : Expr) (s : String), E.IsText cells e s →
    (E.holds cells (Formula.containsSql texts e) = true ↔ ∃ t ∈ texts, t.toList <:+: s.toList)

theorem findsTexts_of_notMem {texts : List String} (h : ∀ t ∈ texts, escapeChar ∉ t.toList) :
    FindsTexts texts := by
  intro E cells e s isText
  rw [Engine.holds_containsSql isText]
  refine exists_congr fun t => and_congr_right fun member => ?_
  rw [Pattern.toList_containing, Pattern.pieces?_plain (by decide),
    Pattern.pieces?_of_notMem (h t member)]
  simp [Pattern.Piece.of, Pattern.fits_between]

/-- A database that holds the texts in columns against patterns, and knows nothing else. -/
def Engine.ofLike : Engine where
  other cells e :=
    match e with
    | .like (.column table? name) (.literal (.string pattern)) escape false false =>
      match cells table? name, pieces? escape pattern.toList with
      | some (.text s), some ps => some (.truth (fits ps s.toList))
      | _, _ => none
    | _ => none
  other_congr {a b e} h := by
    split
    · rename_i table? name pattern escape
      have same : a table? name = b table? name := h (table?, name) (List.mem_singleton_self _)
      rw [same]
    · rfl

theorem Engine.ofLike_isText (s name : String) :
    ofLike.IsText (fun _ _ => some (.text s)) (.col name) s where
  value := rfl
  like escape pattern ps read := by
    change (match some (Datum.text s), pieces? escape pattern.toList with
      | some (.text s), some ps => some (Datum.truth (fits ps s.toList))
      | _, _ => none) = _
    rw [read]

/-- A text with the escape character in it is searched for by a pattern that fits another text,
which is too short to contain it. -/
theorem FindsTexts.notMem {t : String} (finds : FindsTexts [t]) : escapeChar ∉ t.toList := by
  intro slash
  obtain ⟨ps, read, s, fit, short, other⟩ := Pattern.fitsShort t.toList
  obtain ⟨qs, pattern, same⟩ := Pattern.exists_pieces t
  cases Option.some.inj (same.symm.trans read)
  have isText := Engine.ofLike_isText (String.ofList s) "text"
  have found : ∃ u ∈ [t], u.toList <:+: (String.ofList s).toList := by
    refine (finds _ _ _ _ isText).1 ((Engine.holds_containsSql isText).2 ?_)
    refine ⟨t, List.mem_singleton_self _, _, pattern, ?_⟩
    rw [String.toList_ofList]
    exact Pattern.fits_anyText_of_fits fit
  obtain ⟨u, member, inside⟩ := found
  cases List.mem_singleton.1 member
  rw [String.toList_ofList] at inside
  exact other slash (inside.eq_of_length_le short).symm

/-- All searches for texts of some kind are right exactly if no text of that kind has the escape
character in it. -/
theorem findsTexts_iff (allowed : String → Prop) :
    (∀ texts ≠ [], (∀ t ∈ texts, allowed t) → FindsTexts texts) ↔
      ∀ t, allowed t → escapeChar ∉ t.toList := by
  constructor
  · intro finds t ok
    exact (finds [t] (List.cons_ne_nil _ _) (by simpa using ok)).notMem
  · intro plain texts _ ok
    exact findsTexts_of_notMem fun t member => plain t (ok t member)

/-- The search for a share is the search for the two numbers without the slash. -/
theorem not_findsTexts_share : ¬FindsTexts ["50/50"] := by
  intro finds
  exact finds.notMem (by decide)

end SemanticLayer.Sql
