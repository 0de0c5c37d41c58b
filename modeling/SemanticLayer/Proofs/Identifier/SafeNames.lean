import SemanticLayer.Identifier

/-!
# Safe names

What a name is reduced to, whatever it is written in, and whatever digest tells reduced names
apart.

* `IsSafe`: names that need no quotes;
* `Digest.isHexDigest_sha256Hex`: the digest in use gives 64 hexadecimal digits;
* `safeWith_eq_self_iff`: the names that are kept as they are;
* `safeWith_isSafe_and_stable`: every other name gets a safe and short one, and that one is kept.
-/

namespace SemanticLayer

namespace Digest

def isHexChar (c : Char) : Bool := c.isDigit || ('a' ≤ c && c ≤ 'f')

/-- Whether a digest gives 64 lower-case hexadecimal digits for every text. -/
structure IsHexDigest (digest : String → List Char) : Prop where
  length : ∀ text, (digest text).length = 64
  chars : ∀ text, ∀ c ∈ digest text, isHexChar c = true

theorem isHexChar_hexDigit (n : Nat) : isHexChar (hexDigit n) = true := by
  have listed : "0123456789abcdef".toList.all isHexChar = true := by decide
  unfold hexDigit
  rw [List.getD_eq_getElem?_getD]
  cases found : "0123456789abcdef".toList[n]? with
  | none => decide
  | some c => exact List.all_eq_true.1 listed c (List.mem_of_getElem? found)

theorem length_hexWord (w : UInt32) : (hexWord w).length = 8 := by
  unfold hexWord
  rw [List.length_map]
  rfl

theorem isHexDigest_sha256Hex : IsHexDigest sha256Hex := by
  refine ⟨fun text => ?_, fun text c hc => ?_⟩
  · unfold sha256Hex State.words
    simp [length_hexWord]
  · obtain ⟨w, _, hc⟩ := List.mem_flatMap.1 hc
    obtain ⟨shift, _, rfl⟩ := List.mem_map.1 hc
    exact isHexChar_hexDigit _

end Digest

namespace Identifier

/-! ## Characters -/

def isSafeChar (c : Char) : Bool := c.isLower || c.isDigit || c == '_'

def isSafeStart (c : Char) : Bool := c.isLower || c == '_'

/-- What stands for a character in a reduced name. -/
def reducedChar (c : Char) : Char := if isWordChar c then c.toLower else '_'

/-- What holds of the first characters by their numbers. -/
theorem of_ascii (p : Char → Prop) (h : ∀ n < 128, p (Char.ofNat n)) {c : Char}
    (small : c.toNat < 128) : p c := by
  rw [← Char.ofNat_toNat c]
  exact h _ small

theorem toNat_lt_of_isWordChar {c : Char} (h : isWordChar c = true) : c.toNat < 128 := by
  have letter : c.isAlpha = (decide (c.val ≥ 'A'.val ∧ c.val ≤ 'Z'.val) ||
      decide (c.val ≥ 'a'.val) && decide (c.val ≤ 'z'.val)) := rfl
  simp only [isWordChar, Char.isAlphanum, letter, Char.isDigit, UInt32.le_iff_toNat_le,
    Bool.or_eq_true, Bool.and_eq_true, decide_eq_true_eq, beq_iff_eq, ge_iff_le] at h
  change c.val.toNat < 128
  have upper : 'Z'.val.toNat = 90 := rfl
  have lower : 'z'.val.toNat = 122 := rfl
  have digit : '9'.val.toNat = 57 := rfl
  rcases h with h | rfl
  · omega
  · decide

theorem isWordChar_of_isSafeChar {c : Char} (h : isSafeChar c = true) : isWordChar c = true := by
  have letter : c.isAlpha = (c.isUpper || c.isLower) := rfl
  simp only [isSafeChar, isWordChar, Char.isAlphanum, letter, Bool.or_eq_true] at h ⊢
  rcases h with (lower | digit) | bar
  · exact .inl (.inl (.inr lower))
  · exact .inl (.inr digit)
  · exact .inr bar

theorem isSafeChar_of_isHexChar {c : Char} (h : Digest.isHexChar c = true) :
    isSafeChar c = true := by
  have small : c.toNat < 128 := by
    simp only [Digest.isHexChar, Char.isDigit, Char.le_def, UInt32.le_iff_toNat_le,
      Bool.or_eq_true, Bool.and_eq_true, decide_eq_true_eq, ge_iff_le] at h
    change c.val.toNat < 128
    have digit : '9'.val.toNat = 57 := rfl
    have letter : 'f'.val.toNat = 102 := rfl
    omega
  exact of_ascii (fun c => Digest.isHexChar c = true → isSafeChar c = true) (by decide) small h

/-- A safe character stands for itself. -/
theorem reducedChar_of_isSafeChar {c : Char} (h : isSafeChar c = true) : reducedChar c = c := by
  have word := isWordChar_of_isSafeChar h
  unfold reducedChar
  rw [if_pos word]
  exact of_ascii (fun c => isSafeChar c = true → c.toLower = c) (by decide)
    (toNat_lt_of_isWordChar word) h

theorem isSafeChar_reducedChar (c : Char) : isSafeChar (reducedChar c) = true := by
  unfold reducedChar
  by_cases word : isWordChar c = true
  · rw [if_pos word]
    exact of_ascii (fun c => isWordChar c = true → isSafeChar c.toLower = true) (by decide)
      (toNat_lt_of_isWordChar word) word
  · rw [if_neg word]
    decide

/-- A letter of another script may stand in front, and an underscore stands for it. -/
theorem isSafeStart_reducedChar {c : Char} (h : startsSafely c = true) :
    isSafeStart (reducedChar c) = true := by
  unfold reducedChar
  by_cases word : isWordChar c = true
  · rw [if_pos word]
    exact of_ascii (fun c => isWordChar c = true → startsSafely c = true →
      isSafeStart c.toLower = true) (by decide) (toNat_lt_of_isWordChar word) word h
  · rw [if_neg word]
    decide

theorem startsSafely_of_isSafeStart {c : Char} (h : isSafeStart c = true) :
    startsSafely c = true := by
  have safe : isSafeChar c = true := by
    simp only [isSafeStart, isSafeChar, Bool.or_eq_true] at h ⊢
    exact h.imp_left .inl
  exact of_ascii (fun c => isSafeStart c = true → startsSafely c = true) (by decide)
    (toNat_lt_of_isWordChar (isWordChar_of_isSafeChar safe)) h

/-! ## Names -/

/-- Whether a name consists of lower-case letters, digits and underscores, with a letter or an
underscore in front. -/
structure IsSafe (cs : List Char) : Prop where
  chars : ∀ c ∈ cs, isSafeChar c = true
  start : ∃ c rest, cs = c :: rest ∧ isSafeStart c = true

theorem withSafeStart_of_isSafe {cs : List Char} (h : IsSafe cs) : withSafeStart cs = cs := by
  obtain ⟨c, rest, rfl, start⟩ := h.start
  exact if_pos (startsSafely_of_isSafeStart start)

theorem reduced_of_isSafe {cs : List Char} (h : IsSafe cs) : reduced cs = cs := by
  refine (List.map_congr_left fun c hc => ?_).trans (List.map_id _)
  exact reducedChar_of_isSafeChar (h.chars c hc)

theorem exists_withSafeStart_eq {cs : List Char} (h : cs ≠ []) :
    ∃ c rest, withSafeStart cs = c :: rest ∧ startsSafely c = true := by
  cases cs with
  | nil => exact absurd rfl h
  | cons c cs =>
    rw [withSafeStart]
    by_cases start : startsSafely c = true
    · rw [if_pos start]
      exact ⟨c, cs, rfl, start⟩
    · rw [if_neg start]
      exact ⟨'_', c :: cs, rfl, rfl⟩

theorem isSafe_reduced {cs : List Char} (h : cs ≠ []) : IsSafe (reduced (withSafeStart cs)) := by
  obtain ⟨c, rest, eq, start⟩ := exists_withSafeStart_eq h
  refine ⟨fun x hx => ?_, reducedChar c, reduced rest, ?_, isSafeStart_reducedChar start⟩
  · obtain ⟨y, _, rfl⟩ := List.mem_map.1 hx
    exact isSafeChar_reducedChar y
  · rw [eq]
    rfl

theorem IsSafe.take_append {cs suffix : List Char} (h : IsSafe cs) {n : Nat} (some : 0 < n)
    (hs : ∀ c ∈ suffix, isSafeChar c = true) : IsSafe (cs.take n ++ suffix) := by
  refine ⟨fun x hx => ?_, ?_⟩
  · rcases List.mem_append.1 hx with hx | hx
    · exact h.chars x (List.mem_of_mem_take hx)
    · exact hs x hx
  · obtain ⟨c, rest, rfl, start⟩ := h.start
    obtain ⟨k, rfl⟩ := Nat.exists_eq_add_one.2 some
    exact ⟨c, rest.take k ++ suffix, rfl, start⟩

section
variable {digest : String → List Char} {name : String}

/-- The text that a name's digest is taken of. -/
def started (name : String) : String := String.ofList (withSafeStart name.toList)

/-- The characters that tell a reduced name apart. -/
def mark (digest : String → List Char) (name : String) : List Char :=
  (digest (started name)).take digestLength

/-- What a name that is not kept gets: the beginning of its reduced form and its mark. -/
theorem safeWith_of_ne (h : reduced (withSafeStart name.toList) ≠ name.toList) :
    (safeWith digest name).toList =
      (reduced (withSafeStart name.toList)).take 44 ++ '_' :: mark digest name := by
  unfold safeWith
  dsimp only
  rw [if_neg h, String.toList_ofList]
  rfl

theorem safeWith_of_reduced (start : withSafeStart name.toList = name.toList)
    (plain : reduced name.toList = name.toList) : safeWith digest name = name := by
  unfold safeWith
  dsimp only
  rw [start, if_pos plain]

theorem safeWith_of_isSafe (h : IsSafe name.toList) : safeWith digest name = name :=
  safeWith_of_reduced (withSafeStart_of_isSafe h) (reduced_of_isSafe h)

theorem safeWith_empty : safeWith digest "" = "" := rfl

theorem toList_ne_nil (h : name ≠ "") : name.toList ≠ [] := fun e =>
  h (String.toList_eq_nil_iff.1 e)

/-- A name that has its own reduced form is safe. -/
theorem isSafe_of_reduced_eq (h : name ≠ "")
    (same : reduced (withSafeStart name.toList) = name.toList) : IsSafe name.toList := by
  rw [← same]
  exact isSafe_reduced (toList_ne_nil h)

theorem isSafe_safeWith (hex : Digest.IsHexDigest digest) (h : name ≠ "") :
    IsSafe (safeWith digest name).toList := by
  by_cases same : reduced (withSafeStart name.toList) = name.toList
  · have safe := isSafe_of_reduced_eq h same
    rwa [safeWith_of_isSafe safe]
  · rw [safeWith_of_ne same]
    refine (isSafe_reduced (toList_ne_nil h)).take_append (by decide) ?_
    rw [List.forall_mem_cons]
    refine ⟨by decide, fun c hc => ?_⟩
    exact isSafeChar_of_isHexChar (hex.chars _ c (List.mem_of_mem_take hc))

/-- The names that are kept are the safe ones, and the empty one. -/
theorem safeWith_eq_self_iff (hex : Digest.IsHexDigest digest) :
    safeWith digest name = name ↔ name = "" ∨ IsSafe name.toList := by
  constructor
  · intro same
    by_cases empty : name = ""
    · exact .inl empty
    · have safe := isSafe_safeWith hex empty
      rw [same] at safe
      exact .inr safe
  · rintro (rfl | safe)
    · exact safeWith_empty
    · exact safeWith_of_isSafe safe

theorem length_mark (hex : Digest.IsHexDigest digest) : (mark digest name).length = 18 := by
  unfold mark
  rw [List.length_take, hex.length]
  rfl

/-- A name that changes is none that has its own reduced form. -/
theorem reduced_ne_of_changed (h : safeWith digest name ≠ name) :
    reduced (withSafeStart name.toList) ≠ name.toList := by
  intro same
  by_cases empty : name = ""
  · rw [empty] at h
    exact h safeWith_empty
  · exact h (safeWith_of_isSafe (isSafe_of_reduced_eq empty same))

/-- Under any digest, a name gets lower-case letters, digits and underscores with a letter or an
underscore in front.  A new name has at most 63 characters, and no name changes a second time. -/
theorem safeWith_isSafe_and_stable (hex : Digest.IsHexDigest digest) (h : name ≠ "") :
    IsSafe (safeWith digest name).toList ∧
      (safeWith digest name ≠ name → (safeWith digest name).length ≤ 63) ∧
      safeWith digest (safeWith digest name) = safeWith digest name := by
  have safe := isSafe_safeWith hex h
  refine ⟨safe, fun changed => ?_, safeWith_of_isSafe safe⟩
  have short : ((reduced (withSafeStart name.toList)).take 44).length ≤ 44 :=
    List.length_take_le _ _
  rw [← String.length_toList, safeWith_of_ne (reduced_ne_of_changed changed), List.length_append,
    List.length_cons, length_mark hex]
  omega

/-- A digit in front and a letter of another script, under the digest in use. -/
theorem safeWith_isSafe_and_stable_day :
    Digest.IsHexDigest Digest.sha256Hex ∧ "1día" ≠ "" ∧ safe "1día" ≠ "1día" ∧
      IsSafe (safe "1día").toList ∧ (safe "1día").length ≤ 63 ∧
      safe (safe "1día") = safe "1día" := by
  have hex := Digest.isHexDigest_sha256Hex
  have some : "1día" ≠ "" := by decide
  have changed : safe "1día" ≠ "1día" := by
    intro same
    have letter := (((safeWith_eq_self_iff hex).1 same).resolve_left some).chars 'í' (by decide)
    cases letter
  obtain ⟨safe, short, stable⟩ := safeWith_isSafe_and_stable hex some
  exact ⟨hex, some, changed, safe, short changed, stable⟩

end

end Identifier

end SemanticLayer
