import Mathlib.Data.List.Flatten
import Mathlib.Data.List.Nodup
import Mathlib.Data.List.Pairwise
import SemanticLayer.Formula.Evaluation
import SemanticLayer.Proofs.Identifier.SafeNames

/-!
# Labels of a formula

A formula numbers the columns of its moves, and the columns it ends with go by its own slug.  Two
formulas number their columns apart from each other, so their names may fall together: column eleven
of `m` is called as column one of `m1`.

* `AreLabels`: labels of distinct columns of one formula;
* `DrawsLabels`: labels for each stage, with numbers drawn from one state to another, none twice;
* `labels_evaluateCall`: a call carries labels of its arguments only, in their order;
* `columnLabel_eq_columnName`: the columns under a plain slug are labelled by their names;
* `columnLabel_inj`: plain slugs share no label unless one is the other with digits after it;
* `AreApart.label_inj`: so all columns of some slugs are known by their labels.
-/

namespace SemanticLayer.Formula

/-- What a column of a formula is called: by its number, or by the slug alone. -/
def columnName (slug : String) : Option Nat → String
  | some n => "__" ++ slug ++ toString n
  | none => slug

/-- The label of a column of a formula. -/
def columnLabel (slug : String) (number? : Option Nat) : String :=
  Identifier.safe (columnName slug number?)

/-- Whether labels are those of distinct columns of a formula, with certain numbers. -/
def AreLabels (slug : String) (numbers : Option Nat → Prop) (labels : List String) : Prop :=
  ∃ ns : List (Option Nat), ns.Nodup ∧ (∀ n ∈ ns, numbers n) ∧ labels = ns.map (columnLabel slug)

namespace AreLabels

variable {slug : String} {p q : Option Nat → Prop} {labels more : List String}

theorem nil : AreLabels slug p [] := ⟨[], List.nodup_nil, List.forall_mem_nil _, rfl⟩

theorem mono (h : AreLabels slug p labels) (hpq : ∀ n, p n → q n) : AreLabels slug q labels := by
  obtain ⟨ns, nodup, numbers, rfl⟩ := h
  exact ⟨ns, nodup, fun n hn => hpq n (numbers n hn), rfl⟩

theorem sublist (h : AreLabels slug p labels) (hs : more.Sublist labels) :
    AreLabels slug p more := by
  obtain ⟨ns, nodup, numbers, rfl⟩ := h
  obtain ⟨ms, hms, rfl⟩ := List.sublist_map_iff.1 hs
  exact ⟨ms, hms.nodup nodup, fun n hn => numbers n (hms.subset hn), rfl⟩

theorem append (h : AreLabels slug p labels) (h' : AreLabels slug q more)
    (apart : ∀ n, p n → ¬ q n) : AreLabels slug (fun n => p n ∨ q n) (labels ++ more) := by
  obtain ⟨ns, nodup, numbers, rfl⟩ := h
  obtain ⟨ms, nodup', numbers', rfl⟩ := h'
  refine ⟨ns ++ ms, List.nodup_append.2 ⟨nodup, nodup', ?_⟩, ?_, List.map_append.symm⟩
  · rintro n hn _ hm rfl
    exact apart n (numbers n hn) (numbers' n hm)
  · intro n hn
    exact (List.mem_append.1 hn).imp (numbers n) (numbers' n)

theorem cons (h : AreLabels slug p labels) {n : Option Nat} (new : ¬ p n) :
    AreLabels slug (fun m => m = n ∨ p m) (columnLabel slug n :: labels) := by
  obtain ⟨ns, nodup, numbers, rfl⟩ := h
  refine ⟨n :: ns, List.nodup_cons.2 ⟨fun hn => new (numbers n hn), nodup⟩, ?_, rfl⟩
  exact List.forall_mem_cons.2 ⟨.inl rfl, fun m hm => .inr (numbers m hm)⟩

/-- Entries with the same label are one entry, or they stand under two columns whose labels fall
together. -/
theorem eq_or_clash {α : Type} {entries : List α} {label : α → String}
    (h : AreLabels slug p (entries.map label)) {a b : α} (ha : a ∈ entries) (hb : b ∈ entries)
    (same : label a = label b) :
    a = b ∨ ∃ n m, n ≠ m ∧ label a = columnLabel slug n ∧ label b = columnLabel slug m := by
  obtain ⟨ns, nodup, _, labels⟩ := h
  have lengths : entries.length = ns.length := by
    simpa only [List.length_map] using congrArg List.length labels
  have column {i : Nat} (hi : i < entries.length) (hi' : i < ns.length) :
      label entries[i] = columnLabel slug ns[i] := by
    have each := List.getElem_of_eq labels (i := i) (by rwa [List.length_map])
    rwa [List.getElem_map, List.getElem_map] at each
  obtain ⟨i, hi, rfl⟩ := List.getElem_of_mem ha
  obtain ⟨j, hj, rfl⟩ := List.getElem_of_mem hb
  by_cases e : i = j
  · subst e
    exact .inl rfl
  · refine .inr ⟨_, _, ?_, column hi (lengths ▸ hi), column hj (lengths ▸ hj)⟩
    intro equal
    exact e ((List.Nodup.getElem_inj_iff nodup).1 equal)

/-- Each entry stands under a column. -/
theorem exists_label {α : Type} {entries : List α} {label : α → String}
    (h : AreLabels slug p (entries.map label)) {a : α} (ha : a ∈ entries) :
    ∃ n, label a = columnLabel slug n := by
  obtain ⟨ns, _, _, labels⟩ := h
  have mem : label a ∈ ns.map (columnLabel slug) := labels ▸ List.mem_map_of_mem ha
  obtain ⟨n, _, e⟩ := List.mem_map.1 mem
  exact ⟨n, e.symm⟩

end AreLabels

/-- The numbers that are drawn from one state of an evaluation to another. -/
def Drawn (s s' : Nat) : Option Nat → Prop
  | some n => s < n ∧ n ≤ s'
  | none => False

/-- Whether the labels that evaluation puts into each stage have numbers that it draws, none twice. -/
def DrawsLabels (slug : String) (s s' : Nat) (labels : Target → List String) : Prop :=
  s ≤ s' ∧ ∀ t, AreLabels slug (Drawn s s') (labels t)

namespace DrawsLabels

variable {slug : String} {s u s' : Nat} {before after labels : Target → List String}

theorem none (s : Nat) (h : ∀ t, labels t = []) : DrawsLabels slug s s labels :=
  ⟨Nat.le_refl s, fun t => h t ▸ .nil⟩

theorem append (h : DrawsLabels slug s u before) (h' : DrawsLabels slug u s' after) :
    DrawsLabels slug s s' fun t => before t ++ after t := by
  refine ⟨Nat.le_trans h.1 h'.1, fun t => ((h.2 t).append (h'.2 t) ?_).mono ?_⟩
  · rintro (_ | n) hn hn'
    · exact hn
    · exact absurd hn'.1 (Nat.not_lt.2 hn.2)
  · rintro (_ | n) (hn | hn)
    · exact hn
    · exact hn
    · exact ⟨hn.1, Nat.le_trans hn.2 h'.1⟩
    · exact ⟨Nat.lt_of_le_of_lt h.1 hn.1, hn.2⟩

theorem sublist (h : DrawsLabels slug s s' before) (hs : ∀ t, (labels t).Sublist (before t)) :
    DrawsLabels slug s s' labels :=
  ⟨h.1, fun t => (h.2 t).sublist (hs t)⟩

/-- The next label is new. -/
theorem next {t : Target} (h : DrawsLabels slug s u before) :
    DrawsLabels slug s (u + 1) fun v =>
      if v = t then columnLabel slug (some (u + 1)) :: before v else before v := by
  have later {n : Option Nat} (hn : Drawn s u n) : Drawn s (u + 1) n := by
    cases n with
    | none => exact hn
    | some n => exact ⟨hn.1, Nat.le_succ_of_le hn.2⟩
  refine ⟨Nat.le_succ_of_le h.1, fun v => ?_⟩
  dsimp only
  split
  · refine ((h.2 v).cons (n := some (u + 1)) fun drawn => Nat.not_succ_le_self u drawn.2).mono ?_
    rintro n (rfl | hn)
    · exact ⟨Nat.lt_succ_of_le h.1, Nat.le_refl _⟩
    · exact later hn
  · exact (h.2 v).mono fun n => later

end DrawsLabels

/-! ## Fragments -/

namespace Fragment

/-- The labels of what a fragment needs from the stage that a move leads past. -/
def labels (t : Target) (r : Fragment) : List String :=
  match t with
  | .dimension => r.sourceTemplates.map (·.label)
  | .aggregation => r.dimensionFormulas.map (·.label)
  | .postAggregation => r.aggregations.map (·.label)

variable {t : Target}

@[simp] theorem labels_ofSql (sql : Sql.Expr) : (ofSql sql).labels t = [] := by
  cases t <;> rfl

@[simp] theorem labels_map (r : Fragment) (f : Sql.Expr → Sql.Expr) :
    (r.map f).labels t = r.labels t := by
  cases t <;> rfl

@[simp] theorem labels_collect (r s : Fragment) :
    (r.collect s).labels t = r.labels t ++ s.labels t := by
  cases t <;> exact List.map_append

theorem labels_foldl_collect (r : Fragment) (rs : List Fragment) :
    (rs.foldl collect r).labels t = r.labels t ++ rs.flatMap (labels t) := by
  induction rs generalizing r with
  | nil => exact (List.append_nil _).symm
  | cons s rs ih =>
    rw [List.foldl_cons, ih, labels_collect, List.flatMap_cons, List.append_assoc]

/-- New SQL with what the counted fragments need. -/
theorem labels_gathered (sql template : Sql.Expr) (counted : List Fragment) :
    (counted.foldl collect { ofSql sql with template? := some template }).labels t =
      counted.flatMap (labels t) := by
  have start : ({ ofSql sql with template? := some template } : Fragment).labels t = [] := by
    cases t <;> rfl
  rw [labels_foldl_collect, start, List.nil_append]

theorem labels_combine (f : List Sql.Expr → Sql.Expr) (parts counted : List Fragment) :
    (combine f parts counted).labels t = counted.flatMap (labels t) := labels_gathered ..

end Fragment

namespace Node

variable {ctx : Context}

open Fragment (labels labels_combine labels_gathered)

/-! ## Calls -/

theorem map_fst_zip_sublist {α β : Type} (as : List α) (bs : List β) :
    ((as.zip bs).map (·.1)).Sublist as := by
  induction as generalizing bs with
  | nil => exact List.nil_sublist _
  | cons a as ih =>
    cases bs with
    | nil => exact List.nil_sublist _
    | cons b bs => exact (ih bs).cons_cons a

theorem labels_changeFirst {f : Function} {change : Sql.Expr → Sql.Expr}
    {results : List Fragment} {r : Fragment} (h : changeFirst f change results = .ok r)
    (t : Target) : (r.labels t).Sublist (results.flatMap (labels t)) := by
  cases results with
  | nil => cases h
  | cons first rest =>
    cases h
    rw [Fragment.labels_map, List.flatMap_cons]
    exact List.sublist_append_left ..

/-- A call carries labels of its arguments only, in their order. -/
theorem labels_evaluateCall {f : Function} {phase : Phase} {args : List Node}
    {results : List Fragment} {r : Fragment} (h : evaluateCall ctx f phase args results = .ok r)
    (t : Target) : (r.labels t).Sublist (results.flatMap (labels t)) := by
  have first {s : Fragment} {rest : List Fragment} (hs : r.labels t = s.labels t) :
      (r.labels t).Sublist ((s :: rest).flatMap (labels t)) := by
    rw [hs, List.flatMap_cons]
    exact List.sublist_append_left ..
  unfold evaluateCall at h
  cases f with
  | iff | ifs =>
    cases h
    unfold evaluateCondition
    rw [labels_gathered]
    exact List.Sublist.flatMap ((List.filter_sublist.map _).trans (map_fst_zip_sublist ..)) _
  | coalesce | concat | merge | parse =>
    cases h
    rw [labels_combine]
  | convertTimezone | toDate =>
    cases results with
    | nil => cases h
    | cons s rest =>
      cases h
      exact first (by cases t <;> rfl)
  | toBool =>
    cases results with
    | nil => cases h
    | cons s rest =>
      cases h
      refine first ?_
      split <;> simp
  | dateDiff =>
    cases h
    match results with
    | [] => simp
    | [_] => simp
    | [_, _] => simp
    | _ :: start :: stop :: _ =>
      dsimp only
      rw [labels_combine]
      refine List.Sublist.flatMap ?_ _
      exact .cons _ (List.sublist_append_left [start, stop] _)
  | override =>
    cases results with
    | nil => cases h
    | cons s rest =>
      cases h
      exact first (by cases t <;> rfl)
  | cumulative =>
    cases h
    match results, args with
    | [], _ => simp
    | [_], _ => simp
    | _ :: _ :: _, [] => simp
    | _ :: _ :: _, [_] => simp
    | metric :: time :: rest, _ :: _ :: _ =>
      have total (sql grouped : Sql.Expr) := labels_gathered (t := t) sql grouped [metric, time]
      have two : ([metric, time].flatMap (labels t)).Sublist
          ((metric :: time :: rest).flatMap (labels t)) :=
        List.Sublist.flatMap (List.sublist_append_left [metric, time] rest) _
      rw [← total] at two
      cases t <;> exact two
  | overall =>
    cases results with
    | nil => cases h
    | cons s rest =>
      cases h
      exact first (by rw [labels_combine, List.flatMap_singleton])
  | now =>
    cases h
    cases t <;> exact List.nil_sublist _
  | _ => exact labels_changeFirst h t

end Node

end SemanticLayer.Formula

namespace SemanticLayer

theorem Identifier.safe_eq_self {name : String}
    (chars : ∀ c ∈ name.toList, isWordChar c = true ∧ c.toLower = c)
    (start : withSafeStart name.toList = name.toList) : safe name = name := by
  have same : reduced name.toList = name.toList := by
    unfold reduced
    refine (List.map_congr_left fun c hc => ?_).trans (List.map_id _)
    rw [if_pos (chars c hc).1, (chars c hc).2]
    rfl
  exact safeWith_of_reduced start same

namespace Formula

/-- Whether a slug is a safe identifier as it stands, other than the name of a numbered column. -/
structure IsPlainSlug (slug : String) : Prop where
  chars : slug.toList.all (fun c => Identifier.isWordChar c && c.toLower = c) = true
  start : Identifier.withSafeStart slug.toList = slug.toList
  unnumbered : ¬ "__".toList <+: slug.toList

instance : DecidablePred IsPlainSlug := fun _ =>
  decidable_of_iff (_ ∧ _ ∧ _) ⟨fun h => ⟨h.1, h.2.1, h.2.2⟩, fun h => ⟨h.1, h.2, h.3⟩⟩

theorem IsPlainSlug.isPlain_of_mem {slug : String} (h : IsPlainSlug slug) {c : Char}
    (hc : c ∈ slug.toList) : Identifier.isWordChar c = true ∧ c.toLower = c := by
  obtain ⟨word, lower⟩ := Bool.and_eq_true_iff.1 (List.all_eq_true.1 h.chars c hc)
  exact ⟨word, of_decide_eq_true lower⟩

/-- Whether a slug is another one with digits after it. -/
def Continues (slug other : String) : Prop :=
  other.toList <+: slug.toList ∧
    (slug.toList.drop other.toList.length).all Char.isDigit = true

instance (slug other : String) : Decidable (Continues slug other) :=
  inferInstanceAs (Decidable (_ ∧ _))

theorem continues_of_append {slug other : String} {digits : List Char}
    (h : slug.toList = other.toList ++ digits) (hd : ∀ d ∈ digits, d.isDigit = true) :
    Continues slug other := by
  refine ⟨⟨digits, h.symm⟩, ?_⟩
  rw [h, List.drop_left]
  exact List.all_eq_true.2 hd

theorem isDigit_of_mem_repr {n : Nat} {c : Char} (h : c ∈ n.repr.toList) : c.isDigit = true := by
  rw [Nat.repr_eq_ofList_toDigits, String.toList_ofList] at h
  exact Nat.isDigit_of_mem_toDigits (by decide) (by decide) h

/-- A number is known by its digits. -/
theorem eq_of_repr_eq {n m : Nat} (h : n.repr = m.repr) : n = m := by
  rw [Nat.repr_eq_ofList_toDigits, Nat.repr_eq_ofList_toDigits] at h
  have digits := congrArg (Nat.ofDigitChars 10 · 0) (String.ofList_injective h)
  simpa using digits

theorem toLower_of_isDigit {c : Char} (h : c.isDigit = true) : c.toLower = c := by
  have digit : c.val.toNat ≤ 57 := by
    simp only [Char.isDigit, Bool.and_eq_true, decide_eq_true_eq] at h
    exact UInt32.le_iff_toNat_le.1 h.2
  unfold Char.toLower
  rw [dif_neg]
  intro upper
  have letter : 65 ≤ c.val.toNat := UInt32.le_iff_toNat_le.1 upper.1
  omega

theorem toList_columnName (slug : String) (n : Nat) :
    (columnName slug (some n)).toList = '_' :: '_' :: (slug.toList ++ n.repr.toList) := by
  unfold columnName
  rw [String.toList_append, String.toList_append, List.append_assoc]
  rfl

/-- The columns under a plain slug are labelled by their names. -/
theorem columnLabel_eq_columnName {slug : String} (h : IsPlainSlug slug) (n? : Option Nat) :
    columnLabel slug n? = columnName slug n? := by
  cases n? with
  | none => exact Identifier.safe_eq_self (fun _ => h.isPlain_of_mem) h.start
  | some n =>
    refine Identifier.safe_eq_self ?_ ?_
    · intro c hc
      rw [toList_columnName, List.mem_cons, List.mem_cons, List.mem_append] at hc
      rcases hc with rfl | rfl | hc | hc
      · decide
      · decide
      · exact h.isPlain_of_mem hc
      · have digit := isDigit_of_mem_repr hc
        exact ⟨by simp [Identifier.isWordChar, Char.isAlphanum, digit], toLower_of_isDigit digit⟩
    · rw [toList_columnName]
      rfl

/-- Plain slugs have no label in common, unless one is the other with digits after it. -/
theorem columnLabel_inj {slug other : String} (hs : IsPlainSlug slug) (ho : IsPlainSlug other)
    (apart : slug = other ∨ ¬ Continues slug other ∧ ¬ Continues other slug) {n m : Option Nat}
    (h : columnLabel slug n = columnLabel other m) : slug = other ∧ n = m := by
  rw [columnLabel_eq_columnName hs, columnLabel_eq_columnName ho] at h
  have unnumbered {slug other : String} {n : Nat} (hs : IsPlainSlug slug) :
      columnName slug none ≠ columnName other (some n) := by
    intro h
    refine hs.unnumbered ⟨other.toList ++ n.repr.toList, ?_⟩
    have chars : slug.toList = _ := congrArg String.toList h
    rw [chars, toList_columnName]
    rfl
  cases n with
  | none =>
    cases m with
    | none => exact ⟨h, rfl⟩
    | some m => exact absurd h (unnumbered hs)
  | some n =>
    cases m with
    | none => exact absurd h.symm (unnumbered ho)
    | some m =>
      have chars := congrArg String.toList h
      rw [toList_columnName, toList_columnName] at chars
      have chars := (List.cons.inj (List.cons.inj chars).2).2
      rcases apart with rfl | ⟨left, right⟩
      · have digits := String.toList_inj.1 (List.append_cancel_left chars)
        exact ⟨rfl, congrArg some (eq_of_repr_eq digits)⟩
      · -- one slug reaches into the digits after the other
        rcases List.append_eq_append_iff.1 chars with ⟨ds, e, digits⟩ | ⟨ds, e, digits⟩
        · refine absurd (continues_of_append e fun d hd => isDigit_of_mem_repr (n := n) ?_) right
          rw [digits]
          exact List.mem_append_left _ hd
        · refine absurd (continues_of_append e fun d hd => isDigit_of_mem_repr (n := m) ?_) left
          rw [digits]
          exact List.mem_append_left _ hd

/-- Whether slugs are plain and distinct, and none is another one with digits after it. -/
structure AreApart (slugs : List String) : Prop where
  plain : ∀ slug ∈ slugs, IsPlainSlug slug
  apart : slugs.Pairwise fun slug other => ¬ Continues slug other ∧ ¬ Continues other slug

instance : DecidablePred AreApart := fun _ =>
  decidable_of_iff (_ ∧ _) ⟨fun h => ⟨h.1, h.2⟩, fun h => ⟨h.1, h.2⟩⟩

namespace AreApart

variable {slugs : List String} {slug other : String}

theorem nodup (h : AreApart slugs) : slugs.Nodup := by
  refine h.apart.imp ?_
  rintro slug _ ⟨left, _⟩ rfl
  exact left (continues_of_append (List.append_nil _).symm nofun)

/-- Columns under slugs that are apart are known by their labels. -/
theorem label_inj (h : AreApart slugs) (hs : slug ∈ slugs) (ho : other ∈ slugs)
    {n m : Option Nat} (label : columnLabel slug n = columnLabel other m) :
    slug = other ∧ n = m := by
  refine columnLabel_inj (h.plain slug hs) (h.plain other ho) ?_ label
  by_cases same : slug = other
  · exact .inl same
  · have symm : Std.Symm fun slug other => ¬ Continues slug other ∧ ¬ Continues other slug :=
      ⟨fun _ _ => And.symm⟩
    exact .inr (h.apart.forall hs ho same)

end AreApart

end Formula

end SemanticLayer
