import Mathlib.Data.List.Nodup
import Mathlib.Data.List.Perm.Subperm
import SemanticLayer.Collections.SortedMap

/-!
# Entries of sorted maps and members of sorted sets

The keys of a map are distinct, so an entry is what a look-up finds, and a list of entries whose
keys increase is the list of its map.

* `keys_nodup`, `get?_eq_some_iff`: entries and look-ups;
* `mem_keys_ofList`, `mem_keys_merge`, `mem_keys_insertIfNew`: the keys after stores;
* `get?_merge`: look-ups in two maps;
* `toList_ofList`: stores in the order of the keys;
* `ext`: look-ups tell maps apart;
* `get?_filter`, `get?_erase`, `get?_insert_eq_some_iff`: what is found in a map after them;
* `mem_unions`, `mem_diff`: membership after operations on whole sets;
* `size_le_of_subset`, `size_lt_of_subset`: a set is as large as it has members.
-/

namespace SemanticLayer

section
variable {α : Type} [Ord α] [Std.LawfulEqOrd α]

theorem ne_of_compare_lt {a b : α} (h : compare a b = .lt) : a ≠ b := by
  rintro rfl
  simp [Std.ReflCmp.compare_self] at h

end

namespace SortedMap

variable {κ α β : Type} [Ord κ]

section
variable [DecidableEq κ] {m : SortedMap κ α} {k : κ} {v : α}

theorem contains_iff : m.contains k = true ↔ k ∈ m.keys := by
  unfold contains keys
  rw [List.any_eq_true, List.mem_map]
  simp only [decide_eq_true_eq]

theorem contains_eq_isSome : m.contains k = (m.get? k).isSome := by
  unfold contains get?
  rw [Option.isSome_map, List.isSome_find?]

theorem mem_of_get? (h : m.get? k = some v) : (k, v) ∈ m.toList := by
  obtain ⟨⟨l, w⟩, he, e⟩ := Option.map_eq_some_iff.1 h
  have hl : l = k := by simpa using List.find?_some he
  cases hl
  cases e
  exact List.mem_of_find?_eq_some he

end

theorem mem_values {m : SortedMap κ α} {v : α} : v ∈ m.values ↔ ∃ k, (k, v) ∈ m.toList := by
  unfold values
  rw [List.mem_map]
  constructor
  · rintro ⟨⟨k, w⟩, h, rfl⟩
    exact ⟨k, h⟩
  · rintro ⟨k, h⟩
    exact ⟨(k, v), h, rfl⟩

theorem mem_keys {m : SortedMap κ α} {k : κ} : k ∈ m.keys ↔ ∃ v, (k, v) ∈ m.toList := by
  unfold keys
  rw [List.mem_map]
  constructor
  · rintro ⟨⟨l, v⟩, h, rfl⟩
    exact ⟨v, h⟩
  · rintro ⟨v, h⟩
    exact ⟨(k, v), h, rfl⟩

theorem mem_filter {m : SortedMap κ α} {p : κ → α → Bool} {k : κ} {v : α} :
    (k, v) ∈ (m.filter p).toList ↔ (k, v) ∈ m.toList ∧ p k v = true := List.mem_filter

variable [Std.LawfulEqOrd κ]

theorem keys_nodup (m : SortedMap κ α) : m.keys.Nodup := by
  unfold keys List.Nodup
  rw [List.pairwise_map]
  exact m.increasing.imp fun h => ne_of_compare_lt h

theorem get?_eq_some_iff [DecidableEq κ] {m : SortedMap κ α} {k : κ} {v : α} :
    m.get? k = some v ↔ (k, v) ∈ m.toList := by
  constructor
  · exact mem_of_get?
  · intro h
    have distinct : m.toList.Pairwise fun a b => a.1 ≠ b.1 :=
      m.increasing.imp fun h => ne_of_compare_lt h
    unfold get?
    generalize m.toList = es at h distinct
    induction es with
    | nil => cases h
    | cons e es ih =>
      obtain ⟨he, hes⟩ := List.pairwise_cons.1 distinct
      rcases List.mem_cons.1 h with rfl | h
      · simp
      · rw [List.find?_cons_of_neg (by simpa using he _ h)]
        exact ih h hes

theorem get?_eq_none_iff [DecidableEq κ] {m : SortedMap κ α} {k : κ} :
    m.get? k = none ↔ k ∉ m.keys := by
  rw [Option.eq_none_iff_forall_ne_some, mem_keys, not_exists]
  exact forall_congr' fun v => not_congr get?_eq_some_iff

theorem get?_filter [DecidableEq κ] {m : SortedMap κ α} {p : κ → α → Bool} {k : κ} {v : α} :
    (m.filter p).get? k = some v ↔ m.get? k = some v ∧ p k v = true := by
  rw [get?_eq_some_iff, mem_filter, get?_eq_some_iff]

theorem get?_erase [DecidableEq κ] {m : SortedMap κ α} {k l : κ} {v : α} :
    (m.erase k).get? l = some v ↔ m.get? l = some v ∧ l ≠ k := by
  unfold erase
  rw [get?_filter, decide_eq_true_iff]

/-! ## Stores -/

variable [Std.TransOrd κ]

theorem mem_keys_insertAll {m : SortedMap κ α} {es : List (κ × α)} {k : κ} :
    k ∈ (m.insertAll es).keys ↔ k ∈ es.map (·.1) ∨ k ∈ m.keys := by
  induction es generalizing m with
  | nil => simp [insertAll]
  | cons e es ih =>
    have stored : k ∈ (m.insert e.1 e.2).keys ↔ k = e.1 ∨ k ∈ m.keys := by
      unfold insert keys
      simp only
      generalize m.toList = fs
      induction fs with
      | nil => simp [storeIncreasing]
      | cons f fs ih =>
        unfold storeIncreasing
        split
        · simp
        · rename_i h
          have same : e.1 = f.1 := Std.LawfulEqCmp.eq_of_compare h
          simp [same]
        · simp only [List.map_cons, List.mem_cons, ih]
          exact or_left_comm
    rw [insertAll, List.foldl_cons, ← insertAll, ih, stored, List.map_cons, List.mem_cons]
    constructor
    · rintro (h | h | h)
      · exact .inl (.inr h)
      · exact .inl (.inl h)
      · exact .inr h
    · rintro ((h | h) | h)
      · exact .inr (.inl h)
      · exact .inl h
      · exact .inr (.inr h)

theorem mem_keys_ofList {es : List (κ × α)} {k : κ} :
    k ∈ (ofList es).keys ↔ k ∈ es.map (·.1) := by
  rw [ofList, mem_keys_insertAll]
  exact or_iff_left (by simp [keys, empty])

theorem mem_keys_merge {m n : SortedMap κ α} {k : κ} :
    k ∈ (m.merge n).keys ↔ k ∈ n.keys ∨ k ∈ m.keys := mem_keys_insertAll

theorem mem_keys_insert {m : SortedMap κ α} {k l : κ} {v : α} :
    l ∈ (m.insert k v).keys ↔ l = k ∨ l ∈ m.keys := by
  have h : l ∈ (m.insertAll [(k, v)]).keys ↔ l ∈ [(k, v)].map (·.1) ∨ l ∈ m.keys :=
    mem_keys_insertAll
  rwa [List.map_singleton, List.mem_singleton] at h

theorem mem_keys_insertIfNew [DecidableEq κ] {m : SortedMap κ α} {k l : κ} {v : α} :
    l ∈ (m.insertIfNew k v).keys ↔ l = k ∨ l ∈ m.keys := by
  unfold insertIfNew
  split
  · rename_i h
    constructor
    · exact .inr
    · rintro (rfl | hl)
      · exact contains_iff.1 h
      · exact hl
  · exact mem_keys_insert

section
variable [DecidableEq κ] {m n : SortedMap κ α} {es : List (κ × α)} {k : κ} {v : α}

theorem get?_insert_eq_some_iff {l : κ} {w : α} :
    (m.insert k v).get? l = some w ↔ l = k ∧ w = v ∨ l ≠ k ∧ m.get? l = some w := by
  rw [get?_insert]
  by_cases same : k = l
  · subst same
    simp [eq_comm]
  · simp [same, Ne.symm same]

theorem mem_toList_insertAll (h : (k, v) ∈ (m.insertAll es).toList) :
    (k, v) ∈ es ∨ (k, v) ∈ m.toList := by
  rcases get?_insertAll (get?_eq_some_iff.2 h) with h | h
  · exact .inl h
  · exact .inr (get?_eq_some_iff.1 h)

theorem get?_insertAll_of_notMem (h : k ∉ es.map (·.1)) : (m.insertAll es).get? k = m.get? k := by
  induction es generalizing m with
  | nil => rfl
  | cons e es ih =>
    rw [List.map_cons, List.mem_cons, not_or] at h
    rw [insertAll, List.foldl_cons, ← insertAll, ih h.2, get?_insert, if_neg (Ne.symm h.1)]

theorem get?_insertAll_of_mem (distinct : (es.map (·.1)).Nodup) (h : (k, v) ∈ es) :
    (m.insertAll es).get? k = some v := by
  induction es generalizing m with
  | nil => cases h
  | cons e es ih =>
    rw [List.map_cons, List.nodup_cons] at distinct
    rw [insertAll, List.foldl_cons, ← insertAll]
    rcases List.mem_cons.1 h with rfl | h
    · rw [get?_insertAll_of_notMem distinct.1, get?_insert, if_pos rfl]
    · exact ih distinct.2 h

/-- The second map's entries come before those of the first. -/
theorem get?_merge : (m.merge n).get? k = (n.get? k).or (m.get? k) := by
  cases found : n.get? k with
  | some v => exact get?_insertAll_of_mem n.keys_nodup (get?_eq_some_iff.1 found)
  | none => exact get?_insertAll_of_notMem (get?_eq_none_iff.1 found)

theorem mem_of_mem_ofList (h : (k, v) ∈ (ofList es).toList) : (k, v) ∈ es :=
  mem_of_get?_ofList (get?_eq_some_iff.2 h)

theorem mem_toList_merge (h : (k, v) ∈ (m.merge n).toList) :
    (k, v) ∈ n.toList ∨ (k, v) ∈ m.toList := mem_toList_insertAll h

end

theorem get?_insertIfNew [DecidableEq κ] {m : SortedMap κ α} {k l : κ} {v : α} :
    (m.insertIfNew k v).get? l = (m.get? l).or (if k = l then some v else none) := by
  unfold insertIfNew
  by_cases known : m.contains k = true
  · rw [if_pos known]
    by_cases same : k = l
    · obtain ⟨w, hw⟩ := mem_keys.1 (contains_iff.1 known)
      rw [← same, get?_eq_some_iff.2 hw, Option.some_or]
    · rw [if_neg same, Option.or_none]
  · rw [if_neg known, get?_insert]
    by_cases same : k = l
    · have new : m.get? l = none := get?_eq_none_iff.2 fun hl => known (contains_iff.2 (same ▸ hl))
      rw [if_pos same, if_pos same, new, Option.none_or]
    · rw [if_neg same, if_neg same, Option.or_none]

theorem mem_toList_insertIfNew [DecidableEq κ] {m : SortedMap κ α} {k l : κ} {v w : α} :
    (l, w) ∈ (m.insertIfNew k v).toList ↔
      (l, w) ∈ m.toList ∨ k ∉ m.keys ∧ l = k ∧ w = v := by
  unfold insertIfNew
  split
  · rename_i h
    exact (or_iff_left fun new => new.1 (contains_iff.1 h)).symm
  · rename_i h
    have new : k ∉ m.keys := fun hk => h (contains_iff.2 hk)
    rw [← get?_eq_some_iff, get?_insert, ← get?_eq_some_iff]
    by_cases e : k = l
    · subst e
      have none : m.get? k ≠ some w := fun hw =>
        new (mem_keys.2 ⟨w, get?_eq_some_iff.1 hw⟩)
      simp [none, new, eq_comm]
    · simp [e, Ne.symm e]

/-- Entries under distinct keys are all kept. -/
theorem toList_ofList_perm [DecidableEq κ] {es : List (κ × α)} (h : (es.map (·.1)).Nodup) :
    (ofList es).toList.Perm es := by
  refine (List.perm_ext_iff_of_nodup ((ofList es).keys_nodup.of_map _) (h.of_map _)).2 ?_
  rintro ⟨k, v⟩
  constructor
  · exact mem_of_mem_ofList
  · intro hv
    obtain ⟨w, hw⟩ := mem_keys.1 (mem_keys_ofList.2 (List.mem_map_of_mem hv))
    have same : (k, v) = (k, w) := List.inj_on_of_nodup_map h hv (mem_of_mem_ofList hw) rfl
    rw [same]
    exact hw

/-! ## Entries in the order of their keys -/

omit [Std.LawfulEqOrd κ] in
theorem storeIncreasing_append {es : List (κ × α)} {k : κ} {v : α}
    (h : ∀ e ∈ es, compare e.1 k = .lt) : storeIncreasing k v es = es ++ [(k, v)] := by
  induction es with
  | nil => rfl
  | cons e es ih =>
    have later : compare k e.1 = .gt := Std.OrientedCmp.gt_of_lt (h e (List.mem_cons_self ..))
    unfold storeIncreasing
    rw [later, ih fun f hf => h f (List.mem_cons_of_mem _ hf), List.cons_append]

theorem toList_insertAll {m : SortedMap κ α} {es : List (κ × α)}
    (h : KeysIncreasing (m.toList ++ es)) : (m.insertAll es).toList = m.toList ++ es := by
  induction es generalizing m with
  | nil => simp [insertAll]
  | cons e es ih =>
    have last : (m.insert e.1 e.2).toList = m.toList ++ [e] :=
      storeIncreasing_append fun f hf =>
        (List.pairwise_append.1 h).2.2 f hf e (List.mem_cons_self ..)
    rw [insertAll, List.foldl_cons, ← insertAll, ih] <;> rw [last, List.append_assoc]
    · rfl
    · exact h

theorem toList_ofList {es : List (κ × α)} (h : KeysIncreasing es) : (ofList es).toList = es :=
  toList_insertAll (m := empty) h

/-- Two maps in which look-ups find the same are equal. -/
theorem ext [DecidableEq κ] {m n : SortedMap κ α} (h : ∀ k v, m.get? k = some v ↔ n.get? k = some v) :
    m = n := by
  have perm : m.toList.Perm n.toList := by
    refine (List.perm_ext_iff_of_nodup (m.keys_nodup.of_map _) (n.keys_nodup.of_map _)).2 ?_
    rintro ⟨k, v⟩
    rw [← get?_eq_some_iff, ← get?_eq_some_iff]
    exact h k v
  have same : m.toList = n.toList := by
    refine perm.eq_of_pairwise ?_ m.increasing n.increasing
    intro a b _ _ hab hba
    exact absurd (Std.TransCmp.lt_trans hab hba) fun h => ne_of_compare_lt h rfl
  cases m
  cases n
  cases same
  rfl

theorem erase_of_notMem [DecidableEq κ] {m : SortedMap κ α} {k : κ} (h : k ∉ m.keys) :
    m.erase k = m := by
  refine ext fun l v => ?_
  rw [get?_erase]
  refine and_iff_left_of_imp fun found => ?_
  rintro rfl
  exact h (mem_keys.2 ⟨v, get?_eq_some_iff.1 found⟩)

end SortedMap

/-! ## Members -/

namespace SortedSet

variable {α : Type} [Ord α]

theorem isEmpty_iff {s : SortedSet α} : s.isEmpty = true ↔ ∀ a, a ∉ s := by
  unfold isEmpty
  rw [List.isEmpty_iff, List.eq_nil_iff_forall_not_mem]
  rfl

theorem exists_mem {s : SortedSet α} (h : ¬ s.isEmpty = true) : ∃ a, a ∈ s := by
  rwa [isEmpty_iff, not_forall_not] at h

theorem contains_iff [DecidableEq α] {s : SortedSet α} {a : α} : s.contains a = true ↔ a ∈ s :=
  decide_eq_true_iff

theorem mem_diff [DecidableEq α] {s t : SortedSet α} {a : α} : a ∈ s.diff t ↔ a ∈ s ∧ a ∉ t := by
  unfold diff
  rw [mem_filter, Bool.not_eq_true', ← Bool.not_eq_true, contains_iff]

section
variable [Std.LawfulEqOrd α]

theorem nodup (s : SortedSet α) : s.toList.Nodup := s.increasing.imp fun h => ne_of_compare_lt h

theorem size_le_of_subset {s : SortedSet α} {as : List α} (h : ∀ a ∈ s, a ∈ as) :
    s.size ≤ as.length :=
  (s.nodup.subperm h).length_le

theorem size_lt_of_subset {s t : SortedSet α} {a : α} (h : ∀ b ∈ s, b ∈ t) (ha : a ∈ t)
    (new : a ∉ s) : s.size < t.size := by
  have larger : (a :: s.toList).Subperm t.toList :=
    (List.nodup_cons.2 ⟨new, s.nodup⟩).subperm (List.cons_subset.2 ⟨ha, h⟩)
  exact larger.length_le

end

variable [Std.TransOrd α] [Std.LawfulEqOrd α]

theorem mem_cup {s t : SortedSet α} {a : α} : a ∈ s ∪ t ↔ a ∈ s ∨ a ∈ t := mem_union

theorem mem_unions {ss : List (SortedSet α)} {a : α} : a ∈ unions ss ↔ ∃ s ∈ ss, a ∈ s := by
  have each (start : SortedSet α) : a ∈ ss.foldl union start ↔ a ∈ start ∨ ∃ s ∈ ss, a ∈ s := by
    induction ss generalizing start with
    | nil => simp
    | cons s ss ih => rw [List.foldl_cons, ih, mem_union, List.exists_mem_cons_iff, or_assoc]
  exact (each empty).trans (or_iff_right (not_mem_empty a))

end SortedSet

end SemanticLayer
