import SemanticLayer.Json.Decode
import SemanticLayer.Proofs.Json.Texts
import SemanticLayer.Proofs.Result

/-!
# Records in JSON

The fields of an object are found again by their names, whatever their order.  So a reader that
asks for each field of a record gets what was written into it.
-/

namespace SemanticLayer

/-! ## Fields -/

namespace Decode

variable {α β : Type} {d : Decoder α} {f : α → Json} {fs : List (String × Json)} {name : String}
  {j : Json} {a : α}

theorem record_ofFields (names : List String) (fs : List (String × Json)) :
    record names (.ofFields fs) = .ok (SortedMap.ofList fs).toList := by
  rw [Json.ofFields_eq]
  rfl

theorem get?_ofList (distinct : (fs.map (·.1)).Nodup) (h : (name, j) ∈ fs) (read : d j = .ok a) :
    Fields.get? (SortedMap.ofList fs).toList name d = .ok (some a) := by
  have found := SortedMap.get?_insertAll_of_mem (m := .empty) distinct h
  obtain ⟨e, he, same⟩ := Option.map_eq_some_iff.1 found
  rw [Fields.get?, SortedMap.ofList, he]
  simp only [same, read]
  rfl

theorem get?_ofList_of_notMem (h : name ∉ fs.map (·.1)) :
    Fields.get? (SortedMap.ofList fs).toList name d = .ok none := by
  have missing := SortedMap.get?_insertAll_of_notMem (m := .empty) h
  rw [Fields.get?, SortedMap.ofList, Option.map_eq_none_iff.1 missing]

theorem getD_ofList {default : α} (distinct : (fs.map (·.1)).Nodup) (h : (name, j) ∈ fs)
    (read : d j = .ok a) :
    Fields.getD (SortedMap.ofList fs).toList name d default = .ok a := by
  rw [Fields.getD, get?_ofList distinct h read]
  rfl

theorem nullable_ofOption {o : Option α} (read : ∀ a ∈ o, d (f a) = .ok a)
    (ne : ∀ a, f a ≠ .null) : nullable d (Json.ofOption f o) = .ok o := by
  cases o with
  | none => rfl
  | some a =>
    have value : nullable d (f a) = (d (f a)).map some := by
      unfold nullable
      split
      · rename_i null
        exact absurd null (ne a)
      · rfl
    rw [Json.ofOption, value, read a rfl]
    rfl

theorem getNullable_ofList {o : Option α} (distinct : (fs.map (·.1)).Nodup)
    (h : (name, Json.ofOption f o) ∈ fs) (read : ∀ a ∈ o, d (f a) = .ok a)
    (ne : ∀ a, f a ≠ .null) :
    Fields.getNullable (SortedMap.ofList fs).toList name d = .ok o := by
  rw [Fields.getNullable, get?_ofList distinct h (nullable_ofOption read ne)]
  rfl

theorem getNullable_ofList_of_notMem (h : name ∉ fs.map (·.1)) :
    Fields.getNullable (SortedMap.ofList fs).toList name d = .ok none := by
  rw [Fields.getNullable, get?_ofList_of_notMem h]
  rfl

theorem list_map {as : List α} (read : ∀ a ∈ as, d (f a) = .ok a) :
    list d (.arr (as.map f)) = .ok as := by
  change (as.map f).mapM d = .ok as
  rw [Result.mapM_eq_ok]
  exact List.forall₂_map_left_iff.2 (List.forall₂_same.2 read)

theorem list_ofStrings (ss : List String) : list string (Json.ofStrings ss) = .ok ss :=
  list_map fun _ _ => rfl

end Decode

/-! ## Whole objects -/

namespace Json

theorem str_ne_null (s : String) : str s ≠ .null := nofun

theorem ofFields_ne_null (fs : List (String × Json)) : ofFields fs ≠ .null := nofun

theorem fieldsAreProper_iff {fs : List (String × Json)} :
    FieldsAreProper fs ↔ ∀ f ∈ fs, f.2.IsProper := by
  induction fs with
  | nil => simp [FieldsAreProper]
  | cons f fs ih => rw [List.forall_mem_cons, ← ih, FieldsAreProper]

theorem areProper_iff {js : List Json} : AreProper js ↔ ∀ j ∈ js, j.IsProper := by
  induction js with
  | nil => simp [AreProper]
  | cons j js ih => rw [List.forall_mem_cons, ← ih, AreProper]

theorem isProper_ofFields {fs : List (String × Json)} (h : ∀ f ∈ fs, f.2.IsProper) :
    (ofFields fs).IsProper := by
  rw [ofFields_eq]
  refine ⟨(SortedMap.ofList fs).increasing, fieldsAreProper_iff.2 ?_⟩
  intro f hf
  exact h f (SortedMap.mem_of_mem_ofList hf)

theorem depthOfFields_le_iff {fs : List (String × Json)} {n : Nat} :
    depthOfFields fs ≤ n ↔ ∀ f ∈ fs, f.2.depth ≤ n := by
  induction fs with
  | nil => simp [depthOfFields]
  | cons f fs ih => rw [List.forall_mem_cons, ← ih, depthOfFields, Nat.max_le]

theorem depthOfItems_le_iff {js : List Json} {n : Nat} :
    depthOfItems js ≤ n ↔ ∀ j ∈ js, j.depth ≤ n := by
  induction js with
  | nil => simp [depthOfItems]
  | cons j js ih => rw [List.forall_mem_cons, ← ih, depthOfItems, Nat.max_le]

theorem depth_ofFields_le {fs : List (String × Json)} {n : Nat} (h : ∀ f ∈ fs, f.2.depth ≤ n) :
    (ofFields fs).depth ≤ n + 1 := by
  rw [ofFields_eq, depth]
  refine Nat.succ_le_succ (depthOfFields_le_iff.2 ?_)
  intro f hf
  exact h f (SortedMap.mem_of_mem_ofList hf)

theorem depth_ofFields {fs : List (String × Json)} (distinct : (fs.map (·.1)).Nodup) :
    (ofFields fs).depth = depthOfFields fs + 1 := by
  refine Nat.le_antisymm (depth_ofFields_le (depthOfFields_le_iff.1 (Nat.le_refl _))) ?_
  have kept := SortedMap.toList_ofList_perm distinct
  rw [ofFields_eq, depth]
  refine Nat.succ_le_succ (depthOfFields_le_iff.2 ?_)
  intro f hf
  exact depthOfFields_le_iff.1 (Nat.le_refl _) f (kept.mem_iff.2 hf)

/-! ### Doubles in objects -/

theorem rereadFields?_eq_none_iff {fs : List (String × Json)} :
    rereadFields? fs = none ↔ ∃ f ∈ fs, f.2.reread? = none := by
  induction fs with
  | nil => simp [rereadFields?]
  | cons f fs ih =>
    rw [List.exists_mem_cons_iff, ← ih, rereadFields?]
    cases f.2.reread? <;> cases rereadFields? fs <;> simp

theorem rereadFields?_storeIncreasing {name : String} {j k : Json} {es gs : List (String × Json)}
    (h : rereadFields? es = some gs) (e : j.reread? = some k) :
    rereadFields? (storeIncreasing name j es) = some (storeIncreasing name k gs) := by
  induction es generalizing gs with
  | nil =>
    cases h
    simp [storeIncreasing, rereadFields?, e]
  | cons f es ih =>
    obtain ⟨other, i⟩ := f
    obtain ⟨l, hs, first, later, rfl⟩ := rereadFields?_cons h
    unfold storeIncreasing
    split
    · simp [rereadFields?, e, first, later]
    · simp [rereadFields?, e, later]
    · simp [rereadFields?, first, ih later]

theorem rereadFields?_insertAll {m n : SortedMap String Json} {fs gs : List (String × Json)}
    (h : rereadFields? m.toList = some n.toList) (e : rereadFields? fs = some gs) :
    rereadFields? (m.insertAll fs).toList = some (n.insertAll gs).toList := by
  induction fs generalizing m n gs with
  | nil =>
    cases e
    exact h
  | cons f fs ih =>
    obtain ⟨l, hs, first, later, rfl⟩ := rereadFields?_cons e
    exact ih (m := m.insert f.1 f.2) (n := n.insert f.1 l)
      (rereadFields?_storeIncreasing h first) later

theorem reread?_ofFields {fs : List (String × Json)} (distinct : (fs.map (·.1)).Nodup) :
    (ofFields fs).reread? = (rereadFields? fs).map ofFields := by
  rw [ofFields_eq, reread?]
  cases e : rereadFields? fs with
  | none =>
    obtain ⟨f, hf, lost⟩ := rereadFields?_eq_none_iff.1 e
    have kept : f ∈ (SortedMap.ofList fs).toList :=
      (SortedMap.toList_ofList_perm distinct).mem_iff.2 hf
    rw [rereadFields?_eq_none_iff.2 ⟨f, kept, lost⟩]
    rfl
  | some gs =>
    have stored : rereadFields? (SortedMap.ofList fs).toList = some (SortedMap.ofList gs).toList :=
      rereadFields?_insertAll rfl e
    rw [stored, Option.map_some, Option.map_some, ofFields_eq]

/-! ### Values that come back -/

/-- A value that comes back from its text as it is, with so many levels of arrays and objects. -/
structure ComesBack (n : Nat) (j : Json) : Prop where
  isProper : j.IsProper
  depth_le : j.depth ≤ n
  reread?_eq : j.reread? = some j

@[simp]
theorem comesBack_null (n : Nat) : ComesBack n .null := ⟨trivial, Nat.zero_le n, rfl⟩

@[simp]
theorem comesBack_bool (n : Nat) (b : Bool) : ComesBack n (.bool b) := ⟨trivial, Nat.zero_le n, rfl⟩

@[simp]
theorem comesBack_str (n : Nat) (s : String) : ComesBack n (.str s) := ⟨trivial, Nat.zero_le n, rfl⟩

theorem comesBack_ofOption {α : Type} {f : α → Json} {o : Option α} {n : Nat}
    (h : ∀ a ∈ o, ComesBack n (f a)) : ComesBack n (Json.ofOption f o) := by
  cases o with
  | none => exact comesBack_null n
  | some a => exact h a rfl

theorem comesBack_arr {js : List Json} {n : Nat} (h : ∀ j ∈ js, ComesBack n j) :
    ComesBack (n + 1) (.arr js) where
  isProper := areProper_iff.2 fun j hj => (h j hj).isProper
  depth_le := Nat.succ_le_succ (depthOfItems_le_iff.2 fun j hj => (h j hj).depth_le)
  reread?_eq := by
    have same : rereadItems? js = some js := by
      induction js with
      | nil => rfl
      | cons j js ih =>
        have first := (h j (List.mem_cons_self ..)).reread?_eq
        have later := ih fun i hi => h i (List.mem_cons_of_mem _ hi)
        simp [rereadItems?, first, later]
    rw [reread?, same]
    rfl

theorem comesBack_ofFields {fs : List (String × Json)} {n : Nat}
    (h : ∀ f ∈ fs, ComesBack n f.2) : ComesBack (n + 1) (ofFields fs) where
  isProper := isProper_ofFields fun f hf => (h f hf).isProper
  depth_le := depth_ofFields_le fun f hf => (h f hf).depth_le
  reread?_eq := by
    have same : rereadFields? fs = some fs := by
      induction fs with
      | nil => rfl
      | cons f fs ih =>
        have first := (h f (List.mem_cons_self ..)).reread?_eq
        have later := ih fun g hg => h g (List.mem_cons_of_mem _ hg)
        simp [rereadFields?, first, later]
    have stored := rereadFields?_insertAll (m := .empty) (n := .empty) rfl same
    rw [ofFields_eq, reread?, SortedMap.ofList, stored]
    rfl

@[simp]
theorem comesBack_ofStrings (n : Nat) (ss : List String) : ComesBack (n + 1) (ofStrings ss) := by
  refine comesBack_arr ?_
  intro j hj
  obtain ⟨s, -, rfl⟩ := List.mem_map.1 hj
  exact comesBack_str n s

theorem ComesBack.mono {j : Json} {m n : Nat} (h : ComesBack m j) (le : m ≤ n) : ComesBack n j :=
  ⟨h.isProper, Nat.le_trans h.depth_le le, h.reread?_eq⟩

theorem ComesBack.parse?_write {j : Json} (h : ComesBack maxDepth j) : parse? (write j) = some j := by
  rw [Json.parse?_write h.isProper, if_pos h.depth_le, h.reread?_eq]

end Json

/-! ## Readers of text -/

namespace Decode

variable {α : Type}

/-- Reads a value from its JSON text. -/
def ofText (d : Decoder α) (s : String) : Except DecodeError α :=
  match Json.parse? s with
  | some j => d j
  | none => .error .malformed

theorem ofText_write {d : Decoder α} {j : Json} (h : Json.ComesBack Json.maxDepth j) :
    ofText d j.write = d j := by
  rw [ofText, h.parse?_write]

end Decode

end SemanticLayer
