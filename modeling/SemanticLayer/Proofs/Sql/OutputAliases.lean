import Mathlib.Data.List.Nodup
import SemanticLayer.Proofs.Collections.Entries
import SemanticLayer.Proofs.Formula.Labels
import SemanticLayer.Sql.OutputAlias

/-!
# Names of the columns of an answer

The alias of a slug is the first of numbered candidates that no earlier slug has got.

* `Finds`, `Names`: the search for one alias and the naming of all slugs, step by step;
* `finds_iff`, `names_iff`: each search ends, and its end is the alias that is assigned;
* `notMem_assign`, `nodup_assign`: no alias is given twice;
* `all_isNaming`: what holds of the names of any slugs in each dialect.
-/

namespace SemanticLayer.Sql.OutputAlias

/-! ## The search for one alias -/

/-- The search for an alias from one number on: the first candidate that is not used. -/
inductive Finds (used : NameSet) (base : String) : Nat → String → Prop
  | free {n : Nat} (unused : candidate base n ∉ used) : Finds used base n (candidate base n)
  | taken {n : Nat} {a : String} (h : candidate base n ∈ used) (next : Finds used base (n + 1) a) :
      Finds used base n a

theorem candidate_succ (base : String) (n : Nat) :
    (candidate base (n + 1)).toList = base.toList ++ '_' :: (n + 1).repr.toList := by
  unfold candidate
  rw [String.toList_append, String.toList_append, List.append_assoc]
  rfl

theorem candidate_injective (base : String) : Function.Injective (candidate base) := by
  have longer (n : Nat) : candidate base (n + 1) ≠ base := by
    intro h
    have chars := congrArg (List.length ∘ String.toList) h
    simp [candidate_succ] at chars
  intro n m h
  cases n with
  | zero =>
    cases m with
    | zero => rfl
    | succ m => exact absurd h.symm (longer m)
  | succ n =>
    cases m with
    | zero => exact absurd h (longer n)
    | succ m =>
      have chars := congrArg String.toList h
      rw [candidate_succ, candidate_succ] at chars
      have digits := (List.cons.inj (List.append_cancel_left chars)).2
      exact Formula.eq_of_repr_eq (String.toList_inj.1 digits)

/-- There are more candidates than used names, so one of the first is free. -/
theorem exists_candidate_notMem (used : NameSet) (base : String) :
    ∃ n ≤ used.size, candidate base n ∉ used := by
  by_contra none
  have all : ∀ a ∈ (List.range (used.size + 1)).map (candidate base), a ∈ used.toList := by
    intro a ha
    obtain ⟨n, hn, rfl⟩ := List.mem_map.1 ha
    by_contra free
    exact none ⟨n, Nat.lt_succ_iff.1 (List.mem_range.1 hn), free⟩
  have distinct : ((List.range (used.size + 1)).map (candidate base)).Nodup :=
    List.nodup_range.map (candidate_injective base)
  have size := (distinct.subperm all).length_le
  rw [List.length_map, List.length_range] at size
  exact absurd size (Nat.not_succ_le_self _)

/-- The candidate that is chosen is free, and none before it is. -/
theorem exists_fresh_eq (used : NameSet) (base : String) :
    ∃ n, fresh used base = candidate base n ∧ candidate base n ∉ used ∧
      ∀ k < n, candidate base k ∈ used := by
  have unused (n : Nat) : ((fun a => !used.contains a) ∘ candidate base) n = true ↔
      candidate base n ∉ used := by
    rw [Function.comp_apply, Bool.not_eq_true', ← Bool.not_eq_true, SortedSet.contains_iff]
  unfold fresh
  rw [List.find?_map]
  cases found : (List.range (used.size + 1)).find?
      ((fun a => !used.contains a) ∘ candidate base) with
  | none =>
    obtain ⟨n, small, free⟩ := exists_candidate_notMem used base
    have taken := List.find?_eq_none.1 found n (List.mem_range.2 (Nat.lt_succ_of_le small))
    exact absurd ((unused n).2 free) taken
  | some n =>
    obtain ⟨free, _, earlier⟩ := List.find?_range_eq_some.1 found
    refine ⟨n, rfl, (unused n).1 free, fun k hk => ?_⟩
    by_contra free'
    have taken := earlier k hk
    rw [(unused k).2 free'] at taken
    cases taken

theorem fresh_notMem (used : NameSet) (base : String) : fresh used base ∉ used := by
  obtain ⟨n, same, free, _⟩ := exists_fresh_eq used base
  rw [same]
  exact free

theorem fresh_of_notMem {used : NameSet} {base : String} (h : base ∉ used) :
    fresh used base = base := by
  obtain ⟨n, same, _, earlier⟩ := exists_fresh_eq used base
  cases n with
  | zero => exact same
  | succ n => exact absurd (earlier 0 n.succ_pos) h

theorem finds_of_taken {used : NameSet} {base : String} {k m : Nat}
    (free : candidate base (k + m) ∉ used) (taken : ∀ i < k + m, candidate base i ∈ used) :
    Finds used base k (candidate base (k + m)) := by
  induction m generalizing k with
  | zero => exact .free free
  | succ m ih =>
    have first : candidate base k ∈ used := taken k (by omega)
    have shift : k + (m + 1) = k + 1 + m := by omega
    rw [shift] at free taken ⊢
    exact .taken first (ih free taken)

/-- A search has one end. -/
theorem Finds.unique {used : NameSet} {base : String} {n : Nat} {a b : String}
    (ha : Finds used base n a) (hb : Finds used base n b) : a = b := by
  induction ha with
  | free unused =>
    cases hb with
    | free _ => rfl
    | taken h _ => exact absurd h unused
  | taken h _ ih =>
    cases hb with
    | free unused => exact absurd h unused
    | taken _ next => exact ih next

/-- The search for an alias ends, whatever is used, and finds the one that is chosen. -/
theorem finds_iff {used : NameSet} {base a : String} :
    Finds used base 0 a ↔ a = fresh used base := by
  obtain ⟨n, same, free, taken⟩ := exists_fresh_eq used base
  have ends : Finds used base 0 (fresh used base) := by
    rw [same, ← Nat.zero_add n]
    rw [← Nat.zero_add n] at free taken
    exact finds_of_taken free taken
  constructor
  · intro h
    exact h.unique ends
  · rintro rfl
    exact ends

/-! ## The names of all slugs -/

/-- The naming of slugs in their order, by one search after the other. -/
inductive Names (d : Dialect) : NameSet → List String → List (String × String) → Prop
  | nil {used : NameSet} : Names d used [] []
  | cons {used : NameSet} {slug a : String} {slugs : List String} {named : List (String × String)}
      (search : Finds used (d.outputAlias slug) 0 a) (rest : Names d (used.insert a) slugs named) :
      Names d used (slug :: slugs) ((slug, a) :: named)

section
variable {d : Dialect} {used : NameSet} {slugs : List String}

theorem names_iff {named : List (String × String)} :
    Names d used slugs named ↔ named = assign d used slugs := by
  induction slugs generalizing used named with
  | nil =>
    constructor
    · rintro ⟨⟩
      rfl
    · rintro rfl
      exact .nil
  | cons slug slugs ih =>
    rw [assign]
    constructor
    · rintro (_ | ⟨search, rest⟩)
      rw [← finds_iff.1 search, ← ih.1 rest]
    · rintro rfl
      exact .cons (finds_iff.2 rfl) (ih.2 rfl)

theorem slugs_assign (d : Dialect) (used : NameSet) (slugs : List String) :
    (assign d used slugs).map (·.1) = slugs := by
  induction slugs generalizing used with
  | nil => rfl
  | cons slug slugs ih =>
    rw [assign, List.map_cons, ih]

theorem notMem_assign {a : String} (h : a ∈ (assign d used slugs).map (·.2)) : a ∉ used := by
  induction slugs generalizing used with
  | nil => cases h
  | cons slug slugs ih =>
    rw [assign, List.map_cons, List.mem_cons] at h
    rcases h with rfl | h
    · exact fresh_notMem used _
    · exact fun old => ih h (SortedSet.mem_insert.2 (.inr old))

theorem nodup_assign : ((assign d used slugs).map (·.2)).Nodup := by
  induction slugs generalizing used with
  | nil => exact List.nodup_nil
  | cons slug slugs ih =>
    rw [assign, List.map_cons, List.nodup_cons]
    exact ⟨fun again => notMem_assign again (SortedSet.mem_insert.2 (.inl rfl)), ih⟩

/-- Each alias is a candidate for its slug. -/
theorem exists_candidate_of_mem_assign {e : String × String} (h : e ∈ assign d used slugs) :
    ∃ n, e.2 = candidate (d.outputAlias e.1) n := by
  induction slugs generalizing used with
  | nil => cases h
  | cons slug slugs ih =>
    rw [assign, List.mem_cons] at h
    rcases h with rfl | h
    · obtain ⟨n, same, _⟩ := exists_fresh_eq used (d.outputAlias slug)
      exact ⟨n, same⟩
    · exact ih h

/-- Where the dialect takes slugs as they are, different slugs keep themselves as aliases. -/
theorem map_snd_assign (plain : ∀ slug, d.outputAlias slug = slug) (distinct : slugs.Nodup)
    (free : ∀ slug ∈ slugs, slug ∉ used) : (assign d used slugs).map (·.2) = slugs := by
  induction slugs generalizing used with
  | nil => rfl
  | cons slug slugs ih =>
    rw [List.nodup_cons] at distinct
    rw [List.forall_mem_cons] at free
    rw [assign, List.map_cons, plain, fresh_of_notMem free.1]
    refine congrArg (slug :: ·) (ih distinct.2 fun other listed => ?_)
    rw [SortedSet.mem_insert, not_or]
    exact ⟨ne_of_mem_of_not_mem listed distinct.1, free.2 other listed⟩

end

/-! ## Names of columns -/

/-- Whether a text is a letter or an underscore with letters, digits and underscores after it. -/
def IsColumnName (s : String) : Prop :=
  ∃ c rest, s.toList = c :: rest ∧ (c.isAlpha || c == '_') = true ∧
    ∀ x ∈ rest, Dialect.isWordChar x = true

theorem isColumnName_wordAlias {s : String} (h : s ≠ "") : IsColumnName (Dialect.wordAlias s) := by
  have each : ∀ x ∈ s.toList.map fun c => if Dialect.isWordChar c then c else '_',
      Dialect.isWordChar x = true := by
    intro x hx
    obtain ⟨c, _, rfl⟩ := List.mem_map.1 hx
    by_cases word : Dialect.isWordChar c = true
    · rwa [if_pos word]
    · rw [if_neg word]
      rfl
  unfold Dialect.wordAlias
  cases chars : s.toList.map fun c => if Dialect.isWordChar c then c else '_' with
  | nil =>
    rw [List.map_eq_nil_iff] at chars
    exact absurd (String.toList_eq_nil_iff.1 chars) h
  | cons c cs =>
    rw [chars, List.forall_mem_cons] at each
    obtain ⟨word, rest⟩ := each
    dsimp only
    by_cases digit : c.isDigit = true
    · rw [if_pos digit]
      refine ⟨'_', c :: cs, String.toList_ofList, rfl, ?_⟩
      rw [List.forall_mem_cons]
      exact ⟨word, rest⟩
    · rw [if_neg digit]
      refine ⟨c, cs, String.toList_ofList, ?_, rest⟩
      simpa [Dialect.isWordChar, Char.isAlphanum, digit] using word

theorem isColumnName_candidate {base : String} (h : IsColumnName base) (n : Nat) :
    IsColumnName (candidate base n) := by
  cases n with
  | zero => exact h
  | succ n =>
    obtain ⟨c, rest, chars, start, word⟩ := h
    refine ⟨c, rest ++ '_' :: (n + 1).repr.toList, ?_, start, fun x hx => ?_⟩
    · rw [candidate_succ, chars]
      rfl
    · rcases List.mem_append.1 hx with hx | hx
      · exact word x hx
      · rcases List.mem_cons.1 hx with rfl | hx
        · rfl
        · have digit := Formula.isDigit_of_mem_repr hx
          simp [Dialect.isWordChar, Char.isAlphanum, digit]

/-- The naming of any slugs in any dialect ends in one way.  Each slug in its order gets an alias,
and no alias is given twice.  For BigQuery, each slug with some text gets the name of a column; the
other dialects take slugs that differ as they are. -/
theorem all_isNaming (d : Dialect) (slugs : List String) :
    (∀ named, Names d .empty slugs named ↔ named = all d slugs) ∧
      (all d slugs).map (·.1) = slugs ∧
      ((all d slugs).map (·.2)).Nodup ∧
      (d = .bigQuery → ∀ e ∈ all d slugs, e.1 ≠ "" → IsColumnName e.2) ∧
      (d ≠ .bigQuery → slugs.Nodup → (all d slugs).map (·.2) = slugs) := by
  refine ⟨fun _ => names_iff, slugs_assign d .empty slugs, nodup_assign, ?_, ?_⟩
  · rintro rfl e listed some
    obtain ⟨n, same⟩ := exists_candidate_of_mem_assign listed
    rw [same]
    exact isColumnName_candidate (isColumnName_wordAlias some) n
  · intro other distinct
    refine map_snd_assign (fun slug => ?_) distinct fun slug _ => SortedSet.not_mem_empty slug
    cases d with
    | bigQuery => exact absurd rfl other
    | snowflake => rfl
    | postgres => rfl
    | mySql => rfl

/-- Slugs that meet once they are corrected, and one that has a number already. -/
theorem all_isNaming_spend :
    let slugs := ["1day", "fb|spend", "fb.spend", "fb_spend_1"]
    (((all .bigQuery slugs).map (·.2)).Nodup ∧
      ∀ e ∈ all .bigQuery slugs, e.1 ≠ "" → IsColumnName e.2) ∧
      slugs.Nodup ∧ (all .mySql slugs).map (·.2) = slugs := by
  intro slugs
  obtain ⟨_, _, distinct, named, _⟩ := all_isNaming .bigQuery slugs
  obtain ⟨_, _, _, _, kept⟩ := all_isNaming .mySql slugs
  have different : slugs.Nodup := by decide
  exact ⟨⟨distinct, named rfl⟩, different, kept (by decide) different⟩

end SemanticLayer.Sql.OutputAlias
