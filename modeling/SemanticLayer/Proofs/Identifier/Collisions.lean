import Mathlib.Data.Set.Insert
import SemanticLayer.Formula.Outcome
import SemanticLayer.Model.Definition
import SemanticLayer.Proofs.Identifier.SafeNames
import SemanticLayer.Taxonomy.Taxon

/-!
# Names that meet

The digest that tells reduced names apart is taken of the name as it is once it starts safely.  So
a name that needs an underscore in front meets the name that has it.

* `safeWith_eq_iff`: when two names that change become the same, in terms of their texts;
* `started_eq_iff`: which names have one text;
* `StandsFor`: the columns, labels and tables of a query that are named this way;
* `changed_apart_iff`: both together, for any digest that tells the texts apart.
-/

namespace SemanticLayer

namespace Identifier

/-- Whether the digits that are kept of a digest tell some texts apart.  There are fewer such rows
of digits than texts, so no digest does this for all of them. -/
def IsCollisionFree (digest : String → List Char) (texts : Set String) : Prop :=
  ∀ a ∈ texts, ∀ b ∈ texts,
    (digest a).take digestLength = (digest b).take digestLength → a = b

/-- Whether the first character of a name is one that no safe name starts with, in any script. -/
def NeedsUnderscore (name : String) : Prop :=
  ∃ c rest, name.toList = c :: rest ∧ startsSafely c = false

/-- Whether the second name is the first one with the underscore in front that it needs. -/
def Completes (name other : String) : Prop := NeedsUnderscore name ∧ other = "_" ++ name

theorem toList_underscore (name : String) : ("_" ++ name).toList = '_' :: name.toList :=
  String.toList_append

theorem underscore_inj {u v : String} (h : "_" ++ u = "_" ++ v) : u = v := by
  have chars := congrArg String.toList h
  rw [toList_underscore, toList_underscore] at chars
  exact String.toList_inj.1 (List.cons.inj chars).2

theorem not_needsUnderscore_underscore (name : String) : ¬ NeedsUnderscore ("_" ++ name) := by
  rintro ⟨c, rest, chars, start⟩
  rw [toList_underscore] at chars
  obtain ⟨rfl, _⟩ := List.cons.inj chars
  cases start

theorem started_of_needsUnderscore {name : String} (h : NeedsUnderscore name) :
    started name = "_" ++ name := by
  obtain ⟨c, rest, chars, start⟩ := h
  have text : withSafeStart name.toList = ("_" ++ name).toList := by
    rw [toList_underscore, chars, withSafeStart, if_neg (Bool.eq_false_iff.1 start)]
  unfold started
  rw [text, String.ofList_toList]

theorem started_of_not_needsUnderscore {name : String} (h : ¬ NeedsUnderscore name) :
    started name = name := by
  have text : withSafeStart name.toList = name.toList := by
    cases chars : name.toList with
    | nil => rfl
    | cons c rest =>
      have start : startsSafely c = true := by
        by_contra other
        exact h ⟨c, rest, chars, Bool.eq_false_iff.2 other⟩
      exact if_pos start
  unfold started
  rw [text, String.ofList_toList]

theorem Completes.started_eq {u v : String} (h : Completes u v) : started u = started v := by
  obtain ⟨needs, rfl⟩ := h
  rw [started_of_needsUnderscore needs,
    started_of_not_needsUnderscore (not_needsUnderscore_underscore u)]

/-- Two names have one text if one of them is the other with the underscore that it needs. -/
theorem started_eq_iff {u v : String} :
    started u = started v ↔ u = v ∨ Completes u v ∨ Completes v u := by
  constructor
  · intro same
    by_cases hu : NeedsUnderscore u
    · rw [started_of_needsUnderscore hu] at same
      by_cases hv : NeedsUnderscore v
      · rw [started_of_needsUnderscore hv] at same
        exact .inl (underscore_inj same)
      · rw [started_of_not_needsUnderscore hv] at same
        exact .inr (.inl ⟨hu, same.symm⟩)
    · rw [started_of_not_needsUnderscore hu] at same
      by_cases hv : NeedsUnderscore v
      · rw [started_of_needsUnderscore hv] at same
        exact .inr (.inr ⟨hv, same⟩)
      · rw [started_of_not_needsUnderscore hv] at same
        exact .inl same
  · rintro (rfl | h | h)
    · rfl
    · exact h.started_eq
    · exact h.started_eq.symm

section
variable {digest : String → List Char} {u v : String}

/-- Names that change get the same name if they have the same text. -/
theorem safeWith_eq_of_started_eq (hu : safeWith digest u ≠ u) (hv : safeWith digest v ≠ v)
    (h : started u = started v) : safeWith digest u = safeWith digest v := by
  have text : withSafeStart u.toList = withSafeStart v.toList := String.ofList_injective h
  refine String.toList_inj.1 ?_
  rw [safeWith_of_ne (reduced_ne_of_changed hu), safeWith_of_ne (reduced_ne_of_changed hv)]
  unfold mark
  rw [text, h]

/-- The last 18 characters of a changed name are digits of its text's digest. -/
theorem mark_eq_of_safeWith_eq (hex : Digest.IsHexDigest digest) (hu : safeWith digest u ≠ u)
    (hv : safeWith digest v ≠ v) (h : safeWith digest u = safeWith digest v) :
    mark digest u = mark digest v := by
  have chars := congrArg String.toList h
  rw [safeWith_of_ne (reduced_ne_of_changed hu), safeWith_of_ne (reduced_ne_of_changed hv)]
    at chars
  have same := List.append_inj_right' chars (by
    rw [List.length_cons, List.length_cons, length_mark hex, length_mark hex])
  exact (List.cons.inj same).2

/-- Where the digest tells their texts apart, two names that change become the same exactly if they
have one text. -/
theorem safeWith_eq_iff (hex : Digest.IsHexDigest digest) {texts : Set String}
    (free : IsCollisionFree digest texts) (mu : started u ∈ texts) (mv : started v ∈ texts)
    (hu : safeWith digest u ≠ u) (hv : safeWith digest v ≠ v) :
    safeWith digest u = safeWith digest v ↔ started u = started v := by
  constructor
  · intro same
    exact free _ mu _ mv (mark_eq_of_safeWith_eq hex hu hv same)
  · exact safeWith_eq_of_started_eq hu hv

end

/-- What stands for names in a query: columns for taxons, labels for formulas and for templates of
one data source, and tables for models. -/
inductive StandsFor : String → String → Prop
  | column (t : Taxon) : StandsFor t.columnName t.slug
  | label (formula : Sql.Expr) (label : String) (aggregation : Aggregation) :
      StandsFor (Formula.PreFormula.of formula label aggregation).label label
  | template (template : Sql.Expr) (label dataSource : String) (used : NameSet) :
      StandsFor (Formula.SourceTemplate.of template label dataSource used).label label
  | table (m : Model) : StandsFor m.tableAlias m.name

theorem StandsFor.eq_safe {a name : String} (h : StandsFor a name) : a = safe name := by
  cases h with
  | column t => rfl
  | label formula label aggregation => rfl
  | template template label dataSource used => rfl
  | table m => rfl

/-- Where a digest tells the texts of names apart, two different names that change stay apart unless
one of them is the other with the underscore that it needs.  Under the digest in use, so do the
columns, labels and tables that stand for such names. -/
theorem changed_apart_iff {digest : String → List Char} (hex : Digest.IsHexDigest digest)
    {texts : Set String} (free : IsCollisionFree digest texts) :
    (∀ u v, started u ∈ texts → started v ∈ texts → u ≠ v →
      safeWith digest u ≠ u → safeWith digest v ≠ v →
        (safeWith digest u ≠ safeWith digest v ↔ ¬ Completes u v ∧ ¬ Completes v u)) ∧
    (digest = Digest.sha256Hex → ∀ a u b v, StandsFor a u → StandsFor b v →
      started u ∈ texts → started v ∈ texts → u ≠ v → a ≠ u → b ≠ v →
        (a ≠ b ↔ ¬ Completes u v ∧ ¬ Completes v u)) := by
  have apart (u v : String) (mu : started u ∈ texts) (mv : started v ∈ texts) (other : u ≠ v)
      (hu : safeWith digest u ≠ u) (hv : safeWith digest v ≠ v) :
      safeWith digest u ≠ safeWith digest v ↔ ¬ Completes u v ∧ ¬ Completes v u := by
    rw [ne_eq, safeWith_eq_iff hex free mu mv hu hv, started_eq_iff, or_iff_right other, not_or]
  refine ⟨apart, ?_⟩
  rintro rfl a u b v ha hb mu mv other hu hv
  rw [ha.eq_safe] at hu ⊢
  rw [hb.eq_safe] at hv ⊢
  exact apart u v mu mv other hu hv

/-- The spend of one data source, and a taxon with a point in its name. -/
theorem changed_apart_spend :
    let texts : Set String := {"fb|spend", "fb.spend"}
    Digest.IsHexDigest Digest.sha256Hex ∧ IsCollisionFree Digest.sha256Hex texts ∧
      safe "fb|spend" ≠ "fb|spend" ∧ safe "fb.spend" ≠ "fb.spend" ∧
      safe "fb|spend" ≠ safe "fb.spend" := by
  intro texts
  have free : IsCollisionFree Digest.sha256Hex texts := by
    have other : (Digest.sha256Hex "fb|spend").take digestLength ≠
        (Digest.sha256Hex "fb.spend").take digestLength := by decide +kernel
    rintro a (rfl | rfl) b (rfl | rfl) same
    · rfl
    · exact absurd same other
    · exact absurd same.symm other
    · rfl
  have bar : safe "fb|spend" ≠ "fb|spend" := by decide +kernel
  have point : safe "fb.spend" ≠ "fb.spend" := by decide +kernel
  have hex := Digest.isHexDigest_sha256Hex
  refine ⟨hex, free, bar, point, ?_⟩
  refine ((changed_apart_iff hex free).1 "fb|spend" "fb.spend" (.inl rfl) (.inr rfl) (by decide)
    bar point).2 ⟨?_, ?_⟩
  · rintro ⟨_, longer⟩
    exact absurd longer (by decide)
  · rintro ⟨_, longer⟩
    exact absurd longer (by decide)

/-- A name with a digit in front, and the same name with the underscore that it needs. -/
theorem not_apart_day :
    let texts : Set String := {started "1Day", started "_1Day"}
    IsCollisionFree Digest.sha256Hex texts ∧ "1Day" ≠ "_1Day" ∧ safe "1Day" ≠ "1Day" ∧
      safe "_1Day" ≠ "_1Day" ∧ safe "1Day" = safe "_1Day" := by
  intro texts
  have same : started "1Day" = started "_1Day" := by decide
  have digit : safe "1Day" ≠ "1Day" := by decide +kernel
  have bar : safe "_1Day" ≠ "_1Day" := by decide +kernel
  refine ⟨?_, by decide, digit, bar, safeWith_eq_of_started_eq digit bar same⟩
  rintro a (rfl | rfl) b (rfl | rfl) _
  · rfl
  · exact same
  · exact same.symm
  · rfl

end Identifier

end SemanticLayer
