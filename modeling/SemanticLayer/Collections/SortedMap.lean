import SemanticLayer.Collections.SortedSet

/-!
# Finite maps in sorted order of their keys

A `SortedMap` keeps its entries as one list whose keys strictly increase.  Storing under a key
that is present replaces the value.

* `get?_insert`, `mem_of_get?_ofList`: what a look-up finds after stores.
-/

namespace SemanticLayer

section
variable {κ α : Type} [Ord κ]

/-- Stores a value at its key's place in an association list with increasing keys. -/
def storeIncreasing (k : κ) (v : α) : List (κ × α) → List (κ × α)
  | [] => [(k, v)]
  | (l, w) :: es =>
    match compare k l with
    | .lt => (k, v) :: (l, w) :: es
    | .eq => (k, v) :: es
    | .gt => (l, w) :: storeIncreasing k v es

/-- Keys listed from the least to the greatest, each once. -/
def KeysIncreasing (es : List (κ × α)) : Prop := es.Pairwise fun a b => compare a.1 b.1 = .lt

theorem fst_mem_storeIncreasing [Std.LawfulEqOrd κ] {k l : κ} {v w : α} {es : List (κ × α)}
    (h : (l, w) ∈ storeIncreasing k v es) : l = k ∨ ∃ u, (l, u) ∈ es := by
  induction es with
  | nil => simp [storeIncreasing] at h; exact .inl h.1
  | cons e es ih =>
    obtain ⟨m, x⟩ := e
    unfold storeIncreasing at h
    split at h
    · rcases List.mem_cons.1 h with h | h
      · exact .inl (by injection h)
      · exact .inr ⟨w, h⟩
    · rcases List.mem_cons.1 h with h | h
      · exact .inl (by injection h)
      · exact .inr ⟨w, List.mem_cons_of_mem _ h⟩
    · rcases List.mem_cons.1 h with h | h
      · exact .inr ⟨w, h ▸ List.mem_cons_self ..⟩
      · rcases ih h with h | ⟨u, h⟩
        · exact .inl h
        · exact .inr ⟨u, List.mem_cons_of_mem _ h⟩

theorem keysIncreasing_storeIncreasing [Std.TransOrd κ] [Std.LawfulEqOrd κ] {k : κ} {v : α}
    {es : List (κ × α)} (h : KeysIncreasing es) : KeysIncreasing (storeIncreasing k v es) := by
  induction es with
  | nil => simp [storeIncreasing, KeysIncreasing]
  | cons e es ih =>
    obtain ⟨m, x⟩ := e
    obtain ⟨hm, hes⟩ := List.pairwise_cons.1 h
    unfold storeIncreasing
    split
    · rename_i hkm
      refine List.pairwise_cons.2 ⟨?_, h⟩
      intro b hb
      rcases List.mem_cons.1 hb with rfl | hb
      · exact hkm
      · exact Std.TransCmp.lt_trans hkm (hm b hb)
    · rename_i hkm
      have e : k = m := Std.LawfulEqCmp.eq_of_compare hkm
      subst e
      exact List.pairwise_cons.2 ⟨hm, hes⟩
    · rename_i hkm
      refine List.pairwise_cons.2 ⟨?_, ih hes⟩
      rintro ⟨l, w⟩ hb
      rcases fst_mem_storeIncreasing hb with rfl | ⟨u, hu⟩
      · exact Std.OrientedCmp.lt_of_gt hkm
      · exact hm (l, u) hu

end

/-- A finite map; its keys stand in strictly increasing order. -/
structure SortedMap (κ : Type) (α : Type) [Ord κ] where
  toList : List (κ × α)
  increasing : KeysIncreasing toList

namespace SortedMap

section
variable {κ α β : Type} [Ord κ]

instance [DecidableEq κ] [DecidableEq α] : DecidableEq (SortedMap κ α) := fun s t =>
  if h : s.toList = t.toList then
    isTrue (by cases s; cases t; cases h; rfl)
  else
    isFalse fun e => h (e ▸ rfl)

def empty : SortedMap κ α := ⟨[], List.Pairwise.nil⟩

instance : EmptyCollection (SortedMap κ α) := ⟨empty⟩

instance : Inhabited (SortedMap κ α) := ⟨empty⟩

def get? [DecidableEq κ] (m : SortedMap κ α) (k : κ) : Option α :=
  (m.toList.find? fun e => e.1 = k).map (·.2)

def contains [DecidableEq κ] (m : SortedMap κ α) (k : κ) : Bool := m.toList.any fun e => e.1 = k

def isEmpty (m : SortedMap κ α) : Bool := m.toList.isEmpty

def keys (m : SortedMap κ α) : List κ := m.toList.map (·.1)

def values (m : SortedMap κ α) : List α := m.toList.map (·.2)

/-- The same keys with other values. -/
def mapValues (m : SortedMap κ α) (f : κ → α → β) : SortedMap κ β :=
  ⟨m.toList.map fun e => (e.1, f e.1 e.2), by
    rw [KeysIncreasing, List.pairwise_map]; exact m.increasing⟩

def filter (m : SortedMap κ α) (p : κ → α → Bool) : SortedMap κ α :=
  ⟨m.toList.filter fun e => p e.1 e.2, List.Pairwise.filter _ m.increasing⟩

def erase [DecidableEq κ] (m : SortedMap κ α) (k : κ) : SortedMap κ α :=
  m.filter fun l _ => l ≠ k

variable [Std.TransOrd κ] [Std.LawfulEqOrd κ]

def insert (m : SortedMap κ α) (k : κ) (v : α) : SortedMap κ α :=
  ⟨storeIncreasing k v m.toList, keysIncreasing_storeIncreasing m.increasing⟩

/-- Stores a value unless the key already has one. -/
def insertIfNew [DecidableEq κ] (m : SortedMap κ α) (k : κ) (v : α) : SortedMap κ α :=
  if m.contains k then m else m.insert k v

/-- Stores each entry in turn; a later one wins. -/
def insertAll (m : SortedMap κ α) (es : List (κ × α)) : SortedMap κ α :=
  es.foldl (fun m e => m.insert e.1 e.2) m

def ofList (es : List (κ × α)) : SortedMap κ α := empty.insertAll es

/-- All entries of both maps; where both have a key, the value of `n` counts. -/
def merge (m n : SortedMap κ α) : SortedMap κ α := m.insertAll n.toList

/-- The same keys with other values, if each value has one. -/
def mapValuesM {ε : Type} (m : SortedMap κ α) (f : κ → α → Except ε β) :
    Except ε (SortedMap κ β) :=
  (m.toList.mapM fun e => (f e.1 e.2).map (e.1, ·)).map ofList

/-- Replaces the value under `k` by a function of what is there, `none` where nothing is. -/
def alter [DecidableEq κ] (m : SortedMap κ α) (k : κ) (f : Option α → α) : SortedMap κ α :=
  m.insert k (f (m.get? k))

def keySet (m : SortedMap κ α) : SortedSet κ :=
  ⟨m.keys, by
    rw [Increasing, keys, List.pairwise_map]; exact m.increasing⟩

end

section
variable {κ α : Type} [Ord κ] [Std.LawfulEqOrd κ] [DecidableEq κ]

theorem find?_storeIncreasing {k l : κ} {v : α} {es : List (κ × α)} :
    (storeIncreasing k v es).find? (fun e => decide (e.1 = l)) =
      if k = l then some (k, v) else es.find? fun e => decide (e.1 = l) := by
  induction es with
  | nil => by_cases h : k = l <;> simp [storeIncreasing, h]
  | cons e es ih =>
    obtain ⟨m, x⟩ := e
    unfold storeIncreasing
    split
    · by_cases h : k = l <;> simp [List.find?_cons, h]
    · rename_i hkm
      have e : k = m := Std.LawfulEqCmp.eq_of_compare hkm
      subst e
      by_cases h : k = l <;> simp [h]
    · rename_i hkm
      by_cases h : k = l
      · subst h
        have hne : m ≠ k := by
          rintro rfl
          simp [Std.ReflCmp.compare_self] at hkm
        simp [hne, ih]
      · by_cases hm : m = l <;> simp [hm, ih, h]

theorem get?_insert [Std.TransOrd κ] {m : SortedMap κ α} {k l : κ} {v : α} :
    (m.insert k v).get? l = if k = l then some v else m.get? l := by
  rw [get?, insert, find?_storeIncreasing]
  split <;> simp [get?]

theorem get?_insertAll [Std.TransOrd κ] {m : SortedMap κ α} {es : List (κ × α)} {k : κ} {v : α}
    (h : (m.insertAll es).get? k = some v) : (k, v) ∈ es ∨ m.get? k = some v := by
  induction es generalizing m with
  | nil => exact .inr h
  | cons e es ih =>
    rw [insertAll, List.foldl_cons, ← insertAll] at h
    rcases ih h with h | h
    · exact .inl (List.mem_cons_of_mem _ h)
    · rw [get?_insert] at h
      split at h
      · rename_i hk
        cases h
        exact .inl (hk ▸ List.mem_cons_self ..)
      · exact .inr h

/-- What a look-up finds was among the entries. -/
theorem mem_of_get?_ofList [Std.TransOrd κ] {es : List (κ × α)} {k : κ} {v : α}
    (h : (ofList es).get? k = some v) : (k, v) ∈ es :=
  (get?_insertAll h).resolve_right fun h => by cases h

end

end SortedMap

end SemanticLayer
