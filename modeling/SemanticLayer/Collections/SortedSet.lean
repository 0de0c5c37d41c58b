/-!
# Finite sets in sorted order

A `SortedSet` keeps its members as one strictly increasing list, so a set has exactly one
representation: `SortedSet.ext` turns equal membership into equality.  Every answer that lists
slugs, data sources or names lists them in this order.

* `mem_insert`, `mem_union`, `mem_ofList`, `mem_filter`: membership after each operation;
* `SortedSet.ext`: two sets with the same members are equal.
-/

namespace SemanticLayer

section
variable {α : Type} [Ord α]

/-- Puts `x` at its place in an increasing list; a member that is already there stays. -/
def insertIncreasing (x : α) : List α → List α
  | [] => [x]
  | y :: ys =>
    match compare x y with
    | .lt => x :: y :: ys
    | .eq => y :: ys
    | .gt => y :: insertIncreasing x ys

/-- Members listed from the least to the greatest, each once. -/
def Increasing (xs : List α) : Prop := xs.Pairwise fun a b => compare a b = .lt

theorem mem_insertIncreasing [Std.LawfulEqOrd α] {x y : α} {ys : List α} :
    y ∈ insertIncreasing x ys ↔ y = x ∨ y ∈ ys := by
  induction ys with
  | nil => simp [insertIncreasing]
  | cons z zs ih =>
    unfold insertIncreasing
    split
    · simp
    · rename_i h
      have hxz : x = z := Std.LawfulEqCmp.eq_of_compare h
      simp [hxz]
    · simp only [List.mem_cons, ih]
      grind

theorem increasing_insertIncreasing [Std.TransOrd α] [Std.LawfulEqOrd α] {x : α} {ys : List α}
    (h : Increasing ys) : Increasing (insertIncreasing x ys) := by
  induction ys with
  | nil => simp [insertIncreasing, Increasing]
  | cons z zs ih =>
    obtain ⟨hz, hzs⟩ := List.pairwise_cons.1 h
    unfold insertIncreasing
    split
    · rename_i hxz
      refine List.pairwise_cons.2 ⟨?_, h⟩
      intro b hb
      rcases List.mem_cons.1 hb with rfl | hb
      · exact hxz
      · exact Std.TransCmp.lt_trans hxz (hz b hb)
    · exact h
    · rename_i hxz
      refine List.pairwise_cons.2 ⟨?_, ih hzs⟩
      intro b hb
      rcases mem_insertIncreasing.1 hb with rfl | hb
      · exact Std.OrientedCmp.lt_of_gt hxz
      · exact hz b hb

theorem increasing_nil : Increasing ([] : List α) := List.Pairwise.nil

theorem eq_of_increasing_of_mem_iff [Std.TransOrd α] {xs ys : List α} (hx : Increasing xs)
    (hy : Increasing ys) (h : ∀ a, a ∈ xs ↔ a ∈ ys) : xs = ys := by
  induction xs generalizing ys with
  | nil =>
    cases ys with
    | nil => rfl
    | cons b bs => exact absurd ((h b).2 (List.mem_cons_self ..)) (by simp)
  | cons a as ih =>
    cases ys with
    | nil => exact absurd ((h a).1 (List.mem_cons_self ..)) (by simp)
    | cons b bs =>
      obtain ⟨ha, has⟩ := List.pairwise_cons.1 hx
      obtain ⟨hb, hbs⟩ := List.pairwise_cons.1 hy
      have irrefl : ∀ c : α, compare c c ≠ .lt := fun c => by simp [Std.ReflCmp.compare_self]
      have hab : a = b := by
        rcases List.mem_cons.1 ((h a).1 (List.mem_cons_self ..)) with e | hm
        · exact e
        · rcases List.mem_cons.1 ((h b).2 (List.mem_cons_self ..)) with e | hm'
          · exact e.symm
          · exact absurd (Std.TransCmp.lt_trans (hb a hm) (ha b hm')) (irrefl b)
      subst hab
      congr 1
      refine ih has hbs fun c => ⟨fun hc => ?_, fun hc => ?_⟩
      · rcases List.mem_cons.1 ((h c).1 (List.mem_cons_of_mem _ hc)) with e | hm
        · subst e; exact absurd (ha c hc) (irrefl c)
        · exact hm
      · rcases List.mem_cons.1 ((h c).2 (List.mem_cons_of_mem _ hc)) with e | hm
        · subst e; exact absurd (hb c hc) (irrefl c)
        · exact hm

end

/-- A finite set; its members stand in strictly increasing order. -/
structure SortedSet (α : Type) [Ord α] where
  toList : List α
  increasing : Increasing toList

namespace SortedSet

section
variable {α : Type} [Ord α]

instance [DecidableEq α] : DecidableEq (SortedSet α) := fun s t =>
  if h : s.toList = t.toList then
    isTrue (by cases s; cases t; cases h; rfl)
  else
    isFalse fun e => h (e ▸ rfl)

def empty : SortedSet α := ⟨[], increasing_nil⟩

instance : EmptyCollection (SortedSet α) := ⟨empty⟩

instance : Inhabited (SortedSet α) := ⟨empty⟩

instance : Membership α (SortedSet α) := ⟨fun s a => a ∈ s.toList⟩

theorem mem_def {s : SortedSet α} {a : α} : a ∈ s ↔ a ∈ s.toList := Iff.rfl

instance [DecidableEq α] (a : α) (s : SortedSet α) : Decidable (a ∈ s) :=
  inferInstanceAs (Decidable (a ∈ s.toList))

def contains [DecidableEq α] (s : SortedSet α) (a : α) : Bool := decide (a ∈ s)

def isEmpty (s : SortedSet α) : Bool := s.toList.isEmpty

def size (s : SortedSet α) : Nat := s.toList.length

def filter (s : SortedSet α) (p : α → Bool) : SortedSet α :=
  ⟨s.toList.filter p, List.Pairwise.filter p s.increasing⟩

theorem not_mem_empty (a : α) : a ∉ (empty : SortedSet α) := by simp [mem_def, empty]

theorem mem_filter {s : SortedSet α} {p : α → Bool} {a : α} :
    a ∈ s.filter p ↔ a ∈ s ∧ p a = true := List.mem_filter

variable [Std.TransOrd α] [Std.LawfulEqOrd α]

def insert (s : SortedSet α) (a : α) : SortedSet α :=
  ⟨insertIncreasing a s.toList, increasing_insertIncreasing s.increasing⟩

/-- The members of `s` and those of a list. -/
def insertAll (s : SortedSet α) (as : List α) : SortedSet α := as.foldl insert s

def ofList (as : List α) : SortedSet α := empty.insertAll as

def singleton (a : α) : SortedSet α := empty.insert a

def union (s t : SortedSet α) : SortedSet α := s.insertAll t.toList

instance : Union (SortedSet α) := ⟨union⟩

/-- The union of a family of sets. -/
def unions (ss : List (SortedSet α)) : SortedSet α := ss.foldl union empty

def erase [DecidableEq α] (s : SortedSet α) (a : α) : SortedSet α := s.filter (· ≠ a)

def diff [DecidableEq α] (s t : SortedSet α) : SortedSet α := s.filter fun a => !t.contains a

def inter [DecidableEq α] (s t : SortedSet α) : SortedSet α := s.filter t.contains

def isSubset [DecidableEq α] (s t : SortedSet α) : Bool := s.toList.all t.contains

/-- The images of the members under a function. -/
def image {β : Type} [Ord β] [Std.TransOrd β] [Std.LawfulEqOrd β] (s : SortedSet α) (f : α → β) :
    SortedSet β := SortedSet.ofList (s.toList.map f)

end

section
variable {α : Type} [Ord α] [Std.TransOrd α]

theorem ext {s t : SortedSet α} (h : ∀ a, a ∈ s ↔ a ∈ t) : s = t := by
  have e : s.toList = t.toList := eq_of_increasing_of_mem_iff s.increasing t.increasing h
  cases s; cases t; cases e; rfl

variable [Std.LawfulEqOrd α]

theorem mem_insert {s : SortedSet α} {a b : α} : b ∈ s.insert a ↔ b = a ∨ b ∈ s :=
  mem_insertIncreasing

theorem mem_insertAll {s : SortedSet α} {as : List α} {b : α} :
    b ∈ s.insertAll as ↔ b ∈ as ∨ b ∈ s := by
  induction as generalizing s with
  | nil => simp [insertAll]
  | cons a as ih =>
    rw [insertAll, List.foldl_cons, ← insertAll, ih, mem_insert, List.mem_cons]
    grind

theorem mem_ofList {as : List α} {b : α} : b ∈ ofList as ↔ b ∈ as := by
  simp [ofList, mem_insertAll, not_mem_empty]

theorem mem_union {s t : SortedSet α} {b : α} : b ∈ s.union t ↔ b ∈ s ∨ b ∈ t := by
  rw [union, mem_insertAll, ← mem_def, or_comm]

end

end SortedSet

end SemanticLayer
