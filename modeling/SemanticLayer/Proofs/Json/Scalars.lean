import Mathlib.Data.List.TakeWhile
import SemanticLayer.Json.Parser
import SemanticLayer.Json.Printer

/-!
# Scalars in JSON text

Strings and whole numbers come back from their text as they are.  A finite double comes back as
some double: its text is the shortest one, and the reader rounds more than once.
-/

namespace SemanticLayer.Json

/-! ## Strings -/

/-- A string after its opening quote, and the text behind its closing quote. -/
def inside? (acc cs : List Char) : Option (String × List Char) :=
  (readString acc cs).map fun r => (r.1, r.2.1)

variable {acc cs : List Char} {c d : Char}

attribute [local simp] readString in
theorem inside?_quote : inside? acc ('"' :: cs) = some (String.ofList acc.reverse, cs) := by
  simp [inside?]

theorem inside?_escaped (h : c ≠ 'u') (e : escaped? c = some d) :
    inside? acc ('\\' :: c :: cs) = inside? (d :: acc) cs := by
  rw [inside?, readString.eq_4 _ _ _ fun _ _ _ _ _ same => absurd same h, e, inside?,
    Option.map_map]
  rfl

theorem inside?_hex {n : Nat} (h : hex4? '0' '0' c d = some n) (small : n < 32) :
    inside? acc ('\\' :: 'u' :: '0' :: '0' :: c :: d :: cs) =
      inside? (Char.ofNat n :: acc) cs := by
  have high : ¬(0xd800 ≤ n ∧ n < 0xdc00) := by omega
  have low : ¬(0xdc00 ≤ n ∧ n < 0xe000) := by omega
  rw [inside?, readString, h]
  simp only [if_neg high, if_neg low]
  rw [inside?, Option.map_map]
  rfl

theorem inside?_plain (quote : c ≠ '"') (backslash : c ≠ '\\') (h : ¬c.toNat < 0x20) :
    inside? acc (c :: cs) = inside? (c :: acc) cs := by
  rw [inside?, readString.eq_5 _ _ _ (absurd · quote) (fun _ _ _ _ _ same => absurd same backslash)
    (fun _ _ same => absurd same backslash), if_neg (not_or.2 ⟨h, backslash⟩), inside?,
    Option.map_map]
  rfl

theorem inside?_writeChar : inside? acc (writeChar c ++ cs) = inside? (c :: acc) cs := by
  have hex : ∀ n < 32, hex4? '0' '0' (hexDigitOf (n / 16)) (hexDigitOf (n % 16)) = some n := by
    decide
  unfold writeChar
  split_ifs with quote backslash newline carriage tab backspace feed control
  · subst quote
    exact inside?_escaped (c := '"') (by decide) rfl
  · subst backslash
    exact inside?_escaped (c := '\\') (by decide) rfl
  · subst newline
    exact inside?_escaped (c := 'n') (by decide) rfl
  · subst carriage
    exact inside?_escaped (c := 'r') (by decide) rfl
  · subst tab
    exact inside?_escaped (c := 't') (by decide) rfl
  · subst backspace
    exact inside?_escaped (c := 'b') (by decide) rfl
  · subst feed
    exact inside?_escaped (c := 'f') (by decide) rfl
  · have read : inside? acc ('\\' :: 'u' :: '0' :: '0' :: hexDigitOf (c.toNat / 16) ::
        hexDigitOf (c.toNat % 16) :: cs) = inside? (Char.ofNat c.toNat :: acc) cs :=
      inside?_hex (hex _ control) control
    rwa [Char.ofNat_toNat] at read
  · exact inside?_plain quote backslash control

theorem inside?_flatMap_writeChar (s : List Char) :
    inside? acc (s.flatMap writeChar ++ '"' :: cs) =
      some (String.ofList (acc.reverse ++ s), cs) := by
  induction s generalizing acc with
  | nil => rw [List.append_nil]; exact inside?_quote
  | cons c s ih =>
    rw [List.flatMap_cons, List.append_assoc, inside?_writeChar, ih, List.reverse_cons,
      List.append_assoc]
    rfl

theorem toList_writeString (s : String) :
    (writeString s).toList = '"' :: (s.toList.flatMap writeChar ++ ['"']) := by
  simp [writeString]

/-! ## Whole numbers -/

/-- Digits are taken into a number as long as it stays below the bound. -/
theorem significand_eq (acc : Nat) (cs : List Char) (h : Nat.ofDigitChars 10 cs acc < UInt64.size) :
    significand acc cs = (Nat.ofDigitChars 10 cs acc, 0) := by
  induction cs generalizing acc with
  | nil => rw [significand, Nat.ofDigitChars_nil]
  | cons c cs ih =>
    have next : acc * 10 + (c.toNat - 48) = 10 * acc + (c.toNat - '0'.toNat) := by
      rw [Nat.mul_comm]
      rfl
    rw [Nat.ofDigitChars_cons] at h ⊢
    have le : acc * 10 + (c.toNat - 48) ≤
        Nat.ofDigitChars 10 cs (10 * acc + (c.toNat - '0'.toNat)) := by
      rw [Nat.ofDigitChars_eq_ofDigitChars_zero, ← next]
      exact Nat.le_trans (Nat.le_mul_of_pos_left _ (Nat.pow_pos (by decide))) (Nat.le_add_right _ _)
    rw [significand, if_pos (Nat.lt_of_le_of_lt le h), next]
    exact ih _ h

theorem head?_toDigits {n : Nat} (h : 0 < n) : (Nat.toDigits 10 n).head? ≠ some '0' := by
  induction n using Nat.strongRecOn with
  | ind n ih =>
    rw [Nat.toDigits_eq_if (by decide)]
    split
    · rename_i small
      have other : ∀ m < 10, 0 < m → [m.digitChar].head? ≠ some '0' := by decide
      exact other n small h
    · have smaller := ih (n / 10) (Nat.div_lt_self h (by decide)) (by omega)
      rwa [List.head?_append, Option.or_of_isSome (by simp [Nat.toDigits_ne_nil])]

theorem isDigit_of_mem_toDigits {n : Nat} (h : c ∈ Nat.toDigits 10 n) : c.isDigit = true :=
  Nat.isDigit_of_mem_toDigits (by decide) (by decide) h

/-- A text of digits alone is the number they show, unless it is too large. -/
theorem numberOf?_toDigits {n : Nat} {negative : Bool} (fits : n < UInt64.size)
    (signed : negative = true → 0 < n ∧ n ≤ 0x8000000000000000) :
    numberOf? negative (Nat.toDigits 10 n) = some (.int (if negative then -n else n)) := by
  have all : ∀ c ∈ Nat.toDigits 10 n, c.isDigit = true := fun _ => isDigit_of_mem_toDigits
  have whole : (Nat.toDigits 10 n).takeWhile Char.isDigit = Nat.toDigits 10 n :=
    List.takeWhile_eq_self_iff.2 all
  have rest : (Nat.toDigits 10 n).dropWhile Char.isDigit = [] := List.dropWhile_eq_nil_iff.2 all
  have read : significand 0 (Nat.toDigits 10 n) = (n, 0) := by
    have value := Nat.ofDigitChars_ten_toDigits (n := n)
    rw [significand_eq 0 _ (by rwa [value]), value]
  have first : ((Nat.toDigits 10 n).isEmpty ||
      ((Nat.toDigits 10 n).length > 1 && (Nat.toDigits 10 n).head? == some '0')) = false := by
    rcases Nat.eq_zero_or_pos n with rfl | positive
    · decide
    · simp [head?_toDigits positive, Nat.toDigits_ne_nil]
  have allowed : (!negative || (decide (0 < n) && decide (n ≤ 0x8000000000000000))) = true := by
    cases negative with
    | false => rfl
    | true => simpa using signed rfl
  unfold numberOf?
  simp only [whole, rest, first, read, List.isEmpty_nil, beq_self_eq_true, Bool.true_and, allowed]
  rfl

theorem toList_toString_ofNat (n : Nat) : (toString (n : Int)).toList = Nat.toDigits 10 n := by
  rw [← Nat.toList_repr]
  rfl

theorem toList_toString_neg {n : Nat} (h : 0 < n) :
    (toString (-n : Int)).toList = '-' :: Nat.toDigits 10 n := by
  obtain ⟨n, rfl⟩ := Nat.exists_eq_succ_of_ne_zero (Nat.ne_of_gt h)
  change ("-" ++ Nat.repr (n + 1)).toList = _
  rw [String.toList_append, Nat.toList_repr]
  rfl

/-- The whole numbers that are read as such: those of 64 bits, with or without sign. -/
def IsWhole (n : Int) : Prop := -0x8000000000000000 ≤ n ∧ n < UInt64.size

theorem number?_of_ne {cs : List Char} (h : cs.head? ≠ some '-') :
    number? cs = numberOf? false cs := by
  unfold number?
  split
  · exact absurd rfl h
  · rfl

theorem number?_toString {n : Int} (h : IsWhole n) :
    number? (toString n).toList = some (.int n) := by
  obtain ⟨low, high⟩ := h
  rcases Int.lt_or_le n 0 with negative | positive
  · obtain ⟨m, rfl⟩ := Int.exists_eq_neg_ofNat (Int.le_of_lt negative)
    have fits : 0 < m ∧ m ≤ 0x8000000000000000 := by omega
    rw [toList_toString_neg fits.1]
    exact numberOf?_toDigits (Nat.lt_of_le_of_lt fits.2 (by decide)) fun _ => fits
  · obtain ⟨m, rfl⟩ := Int.eq_ofNat_of_zero_le positive
    have sign : (Nat.toDigits 10 m).head? ≠ some '-' := by
      intro h
      have digit := isDigit_of_mem_toDigits (List.mem_of_head? h)
      exact absurd digit (by decide)
    rw [toList_toString_ofNat, number?_of_ne sign]
    exact numberOf?_toDigits (Int.ofNat_lt.1 high) nofun

/-! ## Doubles -/

/-- The number that is read from the text of a double. -/
def rereadReal? (x : Double) : Option Double :=
  match number? (writeReal x).toList with
  | some (.real y) => some y
  | _ => none

/-- A number with anything but digits in it is read as a double, if at all. -/
theorem numberOf?_real {negative : Bool} (h : ∃ c ∈ cs, c.isDigit = false) :
    numberOf? negative cs = none ∨ ∃ x, numberOf? negative cs = some (.real x) := by
  have rest : (cs.dropWhile Char.isDigit).isEmpty = false := by
    obtain ⟨c, hc, other⟩ := h
    rw [List.isEmpty_eq_false_iff]
    intro nothing
    have digit := List.dropWhile_eq_nil_iff.1 nothing c hc
    rw [other] at digit
    cases digit
  have scaled (o : Option Double) (f : Double → Double) :
      (o.map fun x => real (f x)) = none ∨ ∃ x, (o.map fun x => real (f x)) = some (.real x) := by
    cases o with
    | none => exact .inl rfl
    | some x => exact .inr ⟨f x, rfl⟩
  unfold numberOf?
  simp only [rest, Bool.false_and, Bool.false_eq_true, if_false]
  split
  · exact .inl rfl
  split <;> split
  · exact .inl rfl
  · split
    · exact .inl rfl
    · exact scaled _ _
  · exact .inl rfl
  · split
    · exact .inl rfl
    · exact scaled _ _

theorem isNumberChar_of_isDigit (h : c.isDigit = true) : isNumberChar c = true := by
  simp [isNumberChar, h]

theorem isNumberChar_toString (n : Int) : ∀ c ∈ (toString n).toList, isNumberChar c = true := by
  have digits (m : Nat) : ∀ c ∈ Nat.toDigits 10 m, isNumberChar c = true := fun _ h =>
    isNumberChar_of_isDigit (isDigit_of_mem_toDigits h)
  obtain ⟨m, rfl | rfl⟩ := n.eq_nat_or_neg
  · rw [toList_toString_ofNat]
    exact digits m
  · rcases Nat.eq_zero_or_pos m with rfl | positive
    · exact digits 0
    · rw [toList_toString_neg positive]
      exact List.forall_mem_cons.2 ⟨by decide, digits m⟩

theorem isNumberChar_decimal (l : Layout) (d : Decimal) :
    ∀ c ∈ l.decimal d, isNumberChar c = true := by
  have digits : ∀ c ∈ Nat.toDigits 10 d.digits, isNumberChar c = true := fun _ h =>
    isNumberChar_of_isDigit (isDigit_of_mem_toDigits h)
  have zeros (n : Nat) : ∀ c ∈ List.replicate n '0', isNumberChar c = true := fun c h => by
    rw [List.eq_of_mem_replicate h]
    decide
  have first (n : Nat) : ∀ c ∈ (Nat.toDigits 10 d.digits).take n, isNumberChar c = true :=
    fun c h => digits c (List.mem_of_mem_take h)
  have later (n : Nat) : ∀ c ∈ (Nat.toDigits 10 d.digits).drop n, isNumberChar c = true :=
    fun c h => digits c (List.mem_of_mem_drop h)
  have point : isNumberChar '.' = true := by decide
  unfold Layout.decimal
  simp only
  split
  · simp only [List.forall_mem_append]
    exact ⟨⟨digits, zeros _⟩, List.forall_mem_cons.2 ⟨point, zeros 1⟩⟩
  split
  · simp only [List.forall_mem_append, List.forall_mem_cons]
    exact ⟨first _, point, later _⟩
  split
  · simp only [List.forall_mem_append, List.forall_mem_cons, List.cons_append]
    exact ⟨by decide, point, zeros _, digits⟩
  · simp only [List.forall_mem_append, List.forall_mem_cons]
    refine ⟨⟨first _, ?_⟩, by decide, isNumberChar_toString _⟩
    split
    · exact List.forall_mem_nil _
    · exact List.forall_mem_cons.2 ⟨point, later _⟩

/-- A point or an exponent is part of every such text. -/
theorem exists_mem_decimal (l : Layout) (d : Decimal) : ∃ c ∈ l.decimal d, c.isDigit = false := by
  unfold Layout.decimal
  simp only
  split
  · exact ⟨'.', by simp, by decide⟩
  split
  · exact ⟨'.', by simp, by decide⟩
  split
  · exact ⟨'.', by simp, by decide⟩
  · exact ⟨'e', by simp, by decide⟩

theorem exists_decimal_cons (l : Layout) (d : Decimal) :
    ∃ c cs, l.decimal d = c :: cs ∧ c.isDigit = true := by
  obtain ⟨c, cs, digits⟩ :=
    List.exists_cons_of_ne_nil (Nat.toDigits_ne_nil (n := d.digits) (b := 10))
  have digit : c.isDigit = true :=
    isDigit_of_mem_toDigits (n := d.digits) (digits ▸ List.mem_cons_self ..)
  unfold Layout.decimal
  simp only [digits]
  split
  · exact ⟨c, _, rfl, digit⟩
  split
  · rename_i place
    simp only [Bool.and_eq_true, decide_eq_true_eq] at place
    obtain ⟨k, hk⟩ := Nat.exists_eq_succ_of_ne_zero (Nat.ne_of_gt (Int.lt_toNat.2 place.1))
    rw [hk]
    exact ⟨c, _, rfl, digit⟩
  split
  · exact ⟨'0', _, rfl, by decide⟩
  · exact ⟨c, _, rfl, digit⟩

theorem toList_writeReal {x : Double} (h : x.isFinite = true) : (writeReal x).toList =
    if x.isNegative then '-' :: Layout.sql.decimal (Decimal.shortest x)
    else Layout.sql.decimal (Decimal.shortest x) := by
  have number : x.isNaN = false := by
    have field : (x.exponentField == 0x7ff) = false := by simpa [Double.isFinite] using h
    rw [Double.isNaN, field, Bool.false_and]
  rw [writeReal, if_pos h, Layout.write, number, if_neg Bool.false_ne_true, String.toList_ofList,
    if_pos h]

theorem isNumberChar_writeReal {x : Double} (h : x.isFinite = true) :
    ∀ c ∈ (writeReal x).toList, isNumberChar c = true := by
  rw [toList_writeReal h]
  split
  · exact List.forall_mem_cons.2 ⟨by decide, isNumberChar_decimal _ _⟩
  · exact isNumberChar_decimal _ _

/-- The text of a finite double is read as a double, if at all. -/
theorem number?_writeReal {x : Double} (h : x.isFinite = true) :
    number? (writeReal x).toList = (rereadReal? x).map .real := by
  have real : number? (writeReal x).toList = none ∨
      ∃ y, number? (writeReal x).toList = some (.real y) := by
    obtain ⟨c, hc, other⟩ := exists_mem_decimal Layout.sql (Decimal.shortest x)
    rw [toList_writeReal h]
    split
    · exact numberOf?_real ⟨c, hc, other⟩
    · have plain : (Layout.sql.decimal (Decimal.shortest x)).head? ≠ some '-' := by
        obtain ⟨d, ds, same, digit⟩ := exists_decimal_cons Layout.sql (Decimal.shortest x)
        rw [same]
        rintro ⟨⟩
        exact absurd digit (by decide)
      rw [number?_of_ne plain]
      exact numberOf?_real ⟨c, hc, other⟩
  unfold rereadReal?
  rcases real with none | ⟨y, some⟩
  · rw [none]
    rfl
  · rw [some]
    rfl

end SemanticLayer.Json
