import SemanticLayer.Proofs.Sql.Binding
import SemanticLayer.Proofs.Sql.Quotes
import SemanticLayer.Proofs.Sql.Spelling

/-!
# Time units in SQL

Some dialects name the unit of a time function by a keyword.  They take the quotes off a string
constant, and whatever was in them is written as code.

* `Dialect.bareUnit?`: the unit that a call writes without quotes;
* `Expr.exists_text_dateTrunc`, `Expr.exists_text_timestampDiff`: a call of a time function is a frame
  around its unit, which is bare or the quoted constant;
* `Expr.ShowsWords`: whether all bare units within an expression are words;
* `Expr.HasUnits.showsWords`: they are if the constants are such words as the dialect writes.
-/

namespace SemanticLayer.Sql

/-- Whether a text consists of ASCII letters. -/
def IsWord (s : String) : Prop := ∀ c ∈ s.toList, c.isAlpha = true

instance : DecidablePred IsWord := fun s =>
  decidable_of_iff (s.toList.all Char.isAlpha = true) List.all_eq_true

namespace IsWord

variable {s : String}

theorem not_mem (h : IsWord s) {c : Char} (hc : c.isAlpha = false) : c ∉ s.toList := by
  intro mem
  rw [h c mem] at hc
  cases hc

theorem isAlpha_toUpper {c : Char} (h : c.isAlpha = true) :
    c.toNat < 128 ∧ c.toUpper.isAlpha = true := by
  have small : c.toNat < 128 := by
    unfold Char.isAlpha Char.isUpper Char.isLower at h
    simp only [Bool.or_eq_true, Bool.and_eq_true, decide_eq_true_eq,
      UInt32.le_iff_toNat_le] at h
    have upper : c.val.toNat ≤ 90 ∨ c.val.toNat ≤ 122 := h.imp And.right And.right
    change c.val.toNat < 128
    omega
  have letters : ∀ n < 128, (Char.ofNat n).isAlpha = true →
      (Char.ofNat n).toUpper.isAlpha = true := by decide
  refine ⟨small, ?_⟩
  rw [← Char.ofNat_toNat c] at h ⊢
  exact letters _ small h

theorem uppercase (h : IsWord s) : IsWord (Text.uppercase s) := by
  intro u hu
  rw [Text.uppercase, String.toList_ofList] at hu
  obtain ⟨c, hc, hu⟩ := List.mem_flatMap.1 hu
  obtain ⟨small, letter⟩ := isAlpha_toUpper (h c hc)
  rw [Text.upperChar, if_pos small] at hu
  exact List.mem_singleton.1 hu ▸ letter

/-- A character that has no case stays in upper case. -/
theorem not_mem_of_uppercase (h : IsWord (Text.uppercase s)) {c : Char} (ascii : c.toNat < 128)
    (plain : c.toUpper.isAlpha = false) : c ∉ s.toList := by
  intro mem
  have upper : c.toUpper ∈ (Text.uppercase s).toList := by
    rw [Text.uppercase, String.toList_ofList]
    refine List.mem_flatMap.2 ⟨c, mem, ?_⟩
    rw [Text.upperChar, if_pos ascii]
    exact List.mem_singleton_self _
  exact h.not_mem plain upper

end IsWord

/-! ## Taking quotes off -/

theorem flatMap_eq_self {p : Char → Prop} [DecidablePred p] {escaped : Char → List Char}
    {cs : List Char} (h : ∀ c ∈ cs, ¬ p c) :
    (cs.flatMap fun c => if p c then escaped c else [c]) = cs := by
  induction cs with
  | nil => rfl
  | cons c cs ih =>
    obtain ⟨first, rest⟩ := List.forall_mem_cons.1 h
    rw [List.flatMap_cons, if_neg first, ih rest, List.singleton_append]

namespace Quote

variable {k : Quote} {cs : List Char}

theorem inside_eq_self (mark : k.mark ∉ cs) (escape : k.hasEscapes = true → '\\' ∉ cs) :
    k.inside cs = cs := by
  unfold inside
  split
  · rename_i escapes
    refine flatMap_eq_self fun c hc special => ?_
    rcases special with rfl | rfl
    · exact mark hc
    · exact escape escapes hc
  · refine flatMap_eq_self fun c hc special => ?_
    subst special
    exact mark hc

theorem subset_inside : cs ⊆ k.inside cs := by
  induction cs with
  | nil => exact List.nil_subset _
  | cons c cs ih =>
    rcases k.inside_cons c cs with ⟨e, _, written⟩ | ⟨_, _, written⟩
    · rw [written]
      exact List.subset_cons_of_subset _ (List.cons_subset_cons c ih)
    · rw [written]
      exact List.cons_subset_cons c ih

theorem backslash_mem_inside (escapes : k.hasEscapes = true) (h : k.mark ∈ cs) :
    '\\' ∈ k.inside cs := by
  rw [inside, if_pos escapes]
  exact List.mem_flatMap.2 ⟨k.mark, h, by simp⟩

end Quote

theorem dropWhile_append_eq {q : Char} {cs : List Char} (some : cs ≠ []) (h : q ∉ cs)
    (ds : List Char) :
    (cs ++ ds).dropWhile (· == q) = cs ++ ds := by
  cases cs with
  | nil => exact absurd rfl some
  | cons c cs =>
    have first : c ≠ q := fun same => h (same ▸ List.mem_cons_self ..)
    rw [List.cons_append, List.dropWhile_cons_of_neg (by simpa using first)]

theorem mem_trimList {p : Char → Bool} {c : Char} {cs : List Char} (h : c ∈ cs) (keep : ¬ p c) :
    c ∈ Text.trimList p cs := by
  have kept {cs : List Char} (h : c ∈ cs) : c ∈ cs.dropWhile p := by
    rw [← List.takeWhile_append_dropWhile (p := p) (l := cs)] at h
    exact (List.mem_append.1 h).resolve_left fun taken =>
      keep (List.all_eq_true.1 List.all_takeWhile c taken)
  unfold Text.trimList
  exact List.mem_reverse.2 (kept (List.mem_reverse.2 (kept h)))

theorem trimList_between {q : Char} {cs : List Char} (h : q ∉ cs) :
    Text.trimList (· == q) (q :: (cs ++ [q])) = cs := by
  unfold Text.trimList
  rw [List.dropWhile_cons_of_pos (p := (· == q)) (beq_self_eq_true q)]
  by_cases some : cs = []
  · subst some
    simp
  · have back := dropWhile_append_eq (mt List.reverse_eq_nil_iff.1 some)
      (mt List.mem_reverse.1 h) []
    rw [dropWhile_append_eq some h [q], List.reverse_append, List.reverse_singleton,
      List.singleton_append, List.dropWhile_cons_of_pos (p := (· == q)) (beq_self_eq_true q)]
    rw [List.append_nil] at back
    rw [back, List.reverse_reverse]

namespace Dialect

variable {d : Dialect} {s : String}

theorem mark_stringQuote (d : Dialect) : d.stringQuote.mark = '\x27' := by cases d <;> rfl

theorem toList_unquoted_quoteString :
    (unquoted (d.quoteString s)).toList =
      Text.trimList (· == '\x27') ('\x27' :: (d.stringQuote.inside s.toList ++ ['\x27'])) := by
  rw [unquoted, String.toList_ofList, ← d.write_stringQuote, Quote.toList_write, mark_stringQuote]

/-- Without its quotes a plain string constant is its value. -/
theorem unquoted_quoteString_eq_self (quote : '\x27' ∉ s.toList) (escape : '\\' ∉ s.toList) :
    unquoted (d.quoteString s) = s := by
  have mark : d.stringQuote.mark ∉ s.toList := by rwa [mark_stringQuote]
  rw [← String.toList_inj, toList_unquoted_quoteString, Quote.inside_eq_self mark fun _ => escape,
    trimList_between quote]

/-- Quotes are all that is taken off, and a quote that goes leaves its backslash. -/
theorem mem_unquoted (escapes : d.stringQuote.hasEscapes = true) {c : Char} (h : c ∈ s.toList) :
    c ∈ (unquoted (d.quoteString s)).toList ∨ '\\' ∈ (unquoted (d.quoteString s)).toList := by
  have kept {c : Char} (inside : c ∈ d.stringQuote.inside s.toList) (other : c ≠ '\x27') :
      c ∈ (unquoted (d.quoteString s)).toList := by
    rw [toList_unquoted_quoteString]
    have between := List.mem_cons_of_mem '\x27' (List.mem_append_left ['\x27'] inside)
    exact mem_trimList between (by simpa using other)
  by_cases quote : c = '\x27'
  · have there : d.stringQuote.mark ∈ s.toList := by rwa [mark_stringQuote, ← quote]
    exact .inr (kept (Quote.backslash_mem_inside escapes there) (by decide))
  · exact .inl (kept (Quote.subset_inside h) quote)

/-- What is a word without its quotes was one in them. -/
theorem isWord_of_unquoted (escapes : d.stringQuote.hasEscapes = true)
    (h : IsWord (unquoted (d.quoteString s))) : IsWord s := by
  intro c hc
  rcases mem_unquoted escapes hc with there | backslash
  · exact h c there
  · exact absurd backslash (h.not_mem (by decide))

theorem isWord_of_bareUnit (escapes : d.stringQuote.hasEscapes = true)
    (h : IsWord (bareUnit (d.quoteString s))) : IsWord (Text.uppercase s) := by
  intro u hu
  rw [Text.uppercase, String.toList_ofList] at hu
  obtain ⟨c, hc, upper⟩ := List.mem_flatMap.1 hu
  rcases mem_unquoted escapes hc with there | backslash
  · refine h u ?_
    rw [bareUnit, Text.uppercase, String.toList_ofList]
    exact List.mem_flatMap.2 ⟨c, there, upper⟩
  · exact absurd backslash (h.not_mem_of_uppercase (by decide) (by decide))

theorem unquoted_quoteString_of_isWord (h : IsWord s) : unquoted (d.quoteString s) = s :=
  unquoted_quoteString_eq_self (h.not_mem (by decide)) (h.not_mem (by decide))

theorem bareUnit_quoteString (h : IsWord (Text.uppercase s)) :
    bareUnit (d.quoteString s) = Text.uppercase s := by
  rw [bareUnit, unquoted_quoteString_eq_self (h.not_mem_of_uppercase (by decide) (by decide))
    (h.not_mem_of_uppercase (by decide) (by decide))]

/-! ## Calls -/

/-- The time unit that a dialect writes without quotes, from the texts of a call's arguments. -/
def bareUnit? : Dialect → DialectFunction → List String → Option String
  | .bigQuery, .dateTrunc, [unit, _] => some (unquoted unit)
  | .postgres, .timestampDiff, [unit, _, _] => some (bareUnit unit)
  | .mySql, .timestampDiff, [unit, _, _] => some (bareUnit unit)
  | _, _, _ => none

theorem isWord_of_dateTrunc {u : String} {args : List String}
    (hu : d.bareUnit? .dateTrunc (d.quoteString s :: args) = some u) (h : IsWord s) : IsWord u := by
  unfold bareUnit? at hu
  split at hu
  · rename_i same
    obtain ⟨rfl, _⟩ := List.cons.inj same
    rw [← Option.some.inj hu, unquoted_quoteString_of_isWord h]
    exact h
  · rename_i other _
    cases other
  · rename_i other _
    cases other
  · cases hu

theorem isWord_of_timestampDiff {u : String} {args : List String}
    (hu : d.bareUnit? .timestampDiff (d.quoteString s :: args) = some u)
    (h : IsWord (Text.uppercase s)) : IsWord u := by
  have bare {d : Dialect} : IsWord (bareUnit (d.quoteString s)) := by
    rw [bareUnit_quoteString h]
    exact h
  unfold bareUnit? at hu
  split at hu
  · rename_i other _
    cases other
  · rename_i same
    obtain ⟨rfl, _⟩ := List.cons.inj same
    exact Option.some.inj hu ▸ bare
  · rename_i same
    obtain ⟨rfl, _⟩ := List.cons.inj same
    exact Option.some.inj hu ▸ bare
  · cases hu

theorem exists_intercalate_eq (s : String) (before after : List String) :
    ∃ b a, ∀ x, s.intercalate (before ++ x :: after) = b ++ x ++ a := by
  induction before with
  | nil =>
    cases after with
    | nil =>
      refine ⟨"", "", fun x => ?_⟩
      rw [List.nil_append, String.intercalate_singleton, String.empty_append, String.append_empty]
    | cons y ys =>
      refine ⟨"", s ++ s.intercalate (y :: ys), fun x => ?_⟩
      rw [List.nil_append, String.intercalate_cons_cons, String.empty_append, String.append_assoc]
  | cons y ys ih =>
    obtain ⟨b, a, joined⟩ := ih
    refine ⟨y ++ s ++ b, a, fun x => ?_⟩
    have apart : s.intercalate (y :: ys ++ x :: after) =
        y ++ s ++ s.intercalate (ys ++ x :: after) := by
      cases ys <;> rw [List.cons_append] <;> exact String.intercalate_cons_cons
    rw [apart, joined]
    simp only [String.append_assoc]

theorem exists_plainCall_eq (name : String) (before after : List String) :
    ∃ b a, ∀ x, plainCall name (before ++ x :: after) = b ++ x ++ a := by
  obtain ⟨b, a, joined⟩ := exists_intercalate_eq ", " before after
  refine ⟨name ++ "(" ++ b, a ++ ")", fun x => ?_⟩
  rw [plainCall, joined]
  simp only [String.append_assoc]

/-- A truncation is a frame around its unit, which stands there without quotes or as it is given. -/
theorem exists_dateTrunc_eq (d : Dialect) (value : String) :
    ∃ b a, ∀ unit, d.dialectCall .dateTrunc [unit, value] =
      b ++ (d.bareUnit? .dateTrunc [unit, value]).getD unit ++ a := by
  cases d with
  | bigQuery =>
    obtain ⟨b, a, framed⟩ := exists_plainCall_eq "DATETIME_TRUNC" [value] []
    exact ⟨b, a, fun unit => framed (unquoted unit)⟩
  | snowflake | postgres | mySql => exact exists_plainCall_eq "DATE_TRUNC" [] [value]

/-- So is a difference. -/
theorem exists_timestampDiff_eq (d : Dialect) (start stop : String) :
    ∃ b a, ∀ unit, d.dialectCall .timestampDiff [unit, start, stop] =
      b ++ (d.bareUnit? .timestampDiff [unit, start, stop]).getD unit ++ a := by
  cases d with
  | snowflake => exact exists_plainCall_eq "TIMESTAMPDIFF" [] [start, stop]
  | bigQuery => exact exists_plainCall_eq "DATETIME_DIFF" [stop, start] []
  | postgres =>
    refine ⟨"EXTRACT(", " FROM (" ++ stop ++ " - " ++ start ++ "))", fun unit => ?_⟩
    change "EXTRACT(" ++ bareUnit unit ++ " FROM (" ++ stop ++ " - " ++ start ++ "))" = _
    simp only [bareUnit?, Option.getD_some, String.append_assoc]
  | mySql =>
    obtain ⟨b, a, framed⟩ := exists_plainCall_eq "TIMESTAMPDIFF" [] [start, stop]
    exact ⟨b, a, fun unit => framed (bareUnit unit)⟩

end Dialect

/-! ## Expressions -/

namespace Expr

variable {d : Dialect}

theorem text_dialectCall (f : DialectFunction) (args : List Expr) (d : Dialect) :
    (dialectCall f args).text d = d.dialectCall f (args.map (·.text d)) := by
  rw [text, tokens, TokenStream.text_singleton, tokensEach_eq, List.map_map]
  rfl

theorem text_string (s : String) (d : Dialect) : (string s).text d = d.quoteString s := by
  rw [text, string, tokens, TokenStream.text_singleton]
  rfl

/-- The time unit that an expression itself writes without quotes. -/
def bareUnit? (d : Dialect) : Expr → Option String
  | .dialectCall f args => d.bareUnit? f (args.map (·.text d))
  | _ => none

/-- What a truncation shows of its unit is the quoted constant, or what is bare of it. -/
theorem exists_text_dateTrunc (value : Expr) (d : Dialect) :
    ∃ b a, ∀ s, (dialectCall .dateTrunc [string s, value]).text d =
      b ++ ((dialectCall .dateTrunc [string s, value]).bareUnit? d).getD (d.quoteString s) ++ a := by
  obtain ⟨b, a, framed⟩ := d.exists_dateTrunc_eq (value.text d)
  refine ⟨b, a, fun s => ?_⟩
  rw [text_dialectCall, bareUnit?, List.map_cons, List.map_singleton, text_string]
  exact framed _

theorem exists_text_timestampDiff (start stop : Expr) (d : Dialect) :
    ∃ b a, ∀ s, (dialectCall .timestampDiff [string s, start, stop]).text d =
      b ++ ((dialectCall .timestampDiff [string s, start, stop]).bareUnit? d).getD
        (d.quoteString s) ++ a := by
  obtain ⟨b, a, framed⟩ := d.exists_timestampDiff_eq (start.text d) (stop.text d)
  refine ⟨b, a, fun s => ?_⟩
  rw [text_dialectCall, bareUnit?, List.map_cons, List.map_cons, List.map_singleton, text_string]
  exact framed _

/-- Whether all time units that the SQL of an expression shows without quotes are words. -/
def ShowsWords (d : Dialect) : Expr → Prop :=
  Everywhere (operands d) fun e => ∀ u ∈ e.bareUnit? d, IsWord u

/-- Whether a call of a time function has a string constant for its unit that is allowed. -/
def HasUnit (allowed : DialectFunction → String → Prop) : Expr → Prop
  | .dialectCall .dateTrunc args =>
    ∃ s value, args = [.string s, value] ∧ allowed .dateTrunc s
  | .dialectCall .timestampDiff args =>
    ∃ s start stop, args = [.string s, start, stop] ∧ allowed .timestampDiff s
  | _ => True

/-- Whether all calls of time functions within an expression have. -/
def HasUnits (allowed : DialectFunction → String → Prop) : Expr → Prop :=
  Everywhere parts (HasUnit allowed)

variable {allowed : DialectFunction → String → Prop} {e : Expr}

/-- Bare units are words if the constants are: the unit of a truncation is written as it is, that of
a difference in upper case. -/
theorem HasUnits.showsWords (h : e.HasUnits allowed)
    (truncation : ∀ s, allowed .dateTrunc s → IsWord s)
    (difference : ∀ s, allowed .timestampDiff s → IsWord (Text.uppercase s)) (d : Dialect) :
    e.ShowsWords d := by
  induction h with
  | @intro e here _ ih =>
    refine .intro ?_ fun x hx => ih x (mem_parts_of_mem_operands hx)
    intro u hu
    cases e with
    | dialectCall f args =>
      rw [bareUnit?] at hu
      cases f with
      | dateTrunc =>
        obtain ⟨s, value, rfl, inside⟩ := here
        rw [List.map_cons, text_string] at hu
        exact Dialect.isWord_of_dateTrunc hu (truncation s inside)
      | timestampDiff =>
        obtain ⟨s, start, stop, rfl, inside⟩ := here
        rw [List.map_cons, text_string] at hu
        exact Dialect.isWord_of_timestampDiff hu (difference s inside)
      | convertTimezone | splitPart | toDate => simp [Dialect.bareUnit?] at hu
    | _ => cases hu

/-! ### Builders -/

theorem hasUnits_iff (e : Expr) (own : e.HasUnit allowed) :
    e.HasUnits allowed ↔ ∀ x ∈ e.parts, x.HasUnits allowed :=
  everywhere_iff.trans (and_iff_right own)

@[simp] theorem hasUnits_column (t? : Option String) (n : String) :
    (column t? n).HasUnits allowed :=
  (hasUnits_iff (.column t? n) trivial).2 (List.forall_mem_nil _)

@[simp] theorem hasUnits_literal (l : Literal) : (literal l).HasUnits allowed :=
  (hasUnits_iff (.literal l) trivial).2 (List.forall_mem_nil _)

@[simp] theorem hasUnits_placeholder (n : String) : (placeholder n).HasUnits allowed :=
  (hasUnits_iff (.placeholder n) trivial).2 (List.forall_mem_nil _)

@[simp] theorem hasUnits_binary {l r : Expr} {op : BinaryOperator} :
    (binary l op r).HasUnits allowed ↔ l.HasUnits allowed ∧ r.HasUnits allowed := by
  rw [hasUnits_iff (binary l op r) trivial, parts, List.forall_mem_cons, List.forall_mem_singleton]

@[simp] theorem hasUnits_unary {op : UnaryOperator} :
    (unary op e).HasUnits allowed ↔ e.HasUnits allowed :=
  (hasUnits_iff (.unary op e) trivial).trans List.forall_mem_singleton

@[simp] theorem hasUnits_call {n : String} {args : List Expr} {distinct : Bool} :
    (call n args distinct).HasUnits allowed ↔ ∀ x ∈ args, x.HasUnits allowed :=
  hasUnits_iff (.call n args distinct) trivial

@[simp] theorem hasUnits_cast {t : CastType} :
    (cast e t).HasUnits allowed ↔ e.HasUnits allowed :=
  (hasUnits_iff (.cast e t) trivial).trans List.forall_mem_singleton

@[simp] theorem hasUnits_extract {f : String} :
    (extract f e).HasUnits allowed ↔ e.HasUnits allowed :=
  (hasUnits_iff (.extract f e) trivial).trans List.forall_mem_singleton

@[simp] theorem hasUnits_isNull {negated : Bool} :
    (isNull e negated).HasUnits allowed ↔ e.HasUnits allowed :=
  (hasUnits_iff (.isNull e negated) trivial).trans List.forall_mem_singleton

@[simp] theorem hasUnits_paren : (paren e).HasUnits allowed ↔ e.HasUnits allowed :=
  (hasUnits_iff (.paren e) trivial).trans List.forall_mem_singleton

@[simp] theorem hasUnits_like {p : Expr} {c : Char} {n i : Bool} :
    (like e p c n i).HasUnits allowed ↔ e.HasUnits allowed ∧ p.HasUnits allowed := by
  rw [hasUnits_iff (like e p c n i) trivial, parts, List.forall_mem_cons,
    List.forall_mem_singleton]

theorem hasUnits_caseWhen {bs : List (Expr × Expr)} {otherwise? : Option Expr}
    (branches : ∀ b ∈ bs, b.1.HasUnits allowed ∧ b.2.HasUnits allowed)
    (otherwise : ∀ x ∈ otherwise?, x.HasUnits allowed) :
    (caseWhen bs otherwise?).HasUnits allowed := by
  refine (hasUnits_iff (.case none bs otherwise?) trivial).2 fun x hx => ?_
  simp only [parts, Option.toList_none, List.nil_append, List.mem_append, List.mem_flatMap,
    List.mem_cons, List.not_mem_nil, or_false, Option.mem_toList] at hx
  rcases hx with ⟨b, hb, rfl | rfl⟩ | hx
  · exact (branches b hb).1
  · exact (branches b hb).2
  · exact otherwise x hx

theorem hasUnits_overWindow {ps : List Expr} {os : List (Ordered Expr)} {frame? : Option Frame}
    (he : e.HasUnits allowed) (partition : ∀ x ∈ ps, x.HasUnits allowed)
    (order : ∀ o ∈ os, o.key.HasUnits allowed) : (overWindow e ps os frame?).HasUnits allowed := by
  refine (hasUnits_iff (.window e ps os _) trivial).2 fun x hx => ?_
  simp only [parts, List.mem_cons, List.mem_append, List.mem_map] at hx
  rcases hx with rfl | hx | ⟨o, ho, rfl⟩
  · exact he
  · exact partition x hx
  · exact order o ho

@[simp] theorem hasUnits_splitPart {args : List Expr} :
    (dialectCall .splitPart args).HasUnits allowed ↔ ∀ x ∈ args, x.HasUnits allowed :=
  hasUnits_iff (.dialectCall .splitPart args) trivial

@[simp] theorem hasUnits_convertTimezone {args : List Expr} :
    (dialectCall .convertTimezone args).HasUnits allowed ↔ ∀ x ∈ args, x.HasUnits allowed :=
  hasUnits_iff (.dialectCall .convertTimezone args) trivial

@[simp] theorem hasUnits_toDate {args : List Expr} :
    (dialectCall .toDate args).HasUnits allowed ↔ ∀ x ∈ args, x.HasUnits allowed :=
  hasUnits_iff (.dialectCall .toDate args) trivial

theorem hasUnits_dateTrunc {s : String} (h : allowed .dateTrunc s) (he : e.HasUnits allowed) :
    (dialectCall .dateTrunc [string s, e]).HasUnits allowed :=
  (hasUnits_iff (.dialectCall .dateTrunc _) ⟨s, e, rfl, h⟩).2
    (List.forall_mem_cons.2 ⟨hasUnits_literal _, List.forall_mem_singleton.2 he⟩)

theorem hasUnits_timestampDiff {s : String} {start stop : Expr} (h : allowed .timestampDiff s)
    (first : start.HasUnits allowed) (last : stop.HasUnits allowed) :
    (dialectCall .timestampDiff [string s, start, stop]).HasUnits allowed :=
  (hasUnits_iff (.dialectCall .timestampDiff _) ⟨s, start, stop, rfl, h⟩).2 (List.forall_mem_cons.2
    ⟨hasUnits_literal _, List.forall_mem_cons.2 ⟨first, List.forall_mem_singleton.2 last⟩⟩)

end Expr

end SemanticLayer.Sql
