import SemanticLayer.Proofs.Formula.Parts

/-!
# Phases of parts

A node is no earlier than what stands in it, except for some calls: the phase of a call leaves
arguments out of account, and conversions to text, truth values and dates are dimensions at most.

* `Phase.latest_le_iff`, `Phase.le_foldl_latest`: the latest of several phases;
* `Function.le_phase_or_overlooked`: which arguments a call is no earlier than;
* `keepsLevel_iff`: a node is no earlier than its children exactly if it heeds its arguments;
* `RestsOn.phase_le`: what a value rests on is no later than the value.
-/

namespace SemanticLayer.Formula

namespace Phase

variable {a b c : Phase}

theorem le_def : a ≤ b ↔ a.rank ≤ b.rank := Iff.rfl

theorem le_refl (a : Phase) : a ≤ a := Nat.le_refl _

theorem le_trans (hab : a ≤ b) (hbc : b ≤ c) : a ≤ c := Nat.le_trans hab hbc

theorem le_metricPre (h : a ≤ .metricPost) (other : a ≠ .metricPost) : a ≤ .metricPre := by
  cases a with
  | metricPost => exact absurd rfl other
  | blendingProjection => exact absurd h (by decide)
  | _ => decide

theorem latest_le_iff : a.latest b ≤ c ↔ a ≤ c ∧ b ≤ c := by
  unfold latest
  simp only [le_def]
  split <;> omega

theorem le_earliest_iff : c ≤ a.earliest b ↔ c ≤ a ∧ c ≤ b := by
  unfold earliest
  simp only [le_def]
  split <;> omega

theorem le_latest_left (a b : Phase) : a ≤ a.latest b := (latest_le_iff.1 (le_refl _)).1

theorem le_latest_right (a b : Phase) : b ≤ a.latest b := (latest_le_iff.1 (le_refl _)).2

theorem foldl_latest_le_iff {ps : List Phase} :
    ps.foldl latest a ≤ c ↔ a ≤ c ∧ ∀ p ∈ ps, p ≤ c := by
  induction ps generalizing a with
  | nil => simp
  | cons p ps ih => rw [List.foldl_cons, ih, latest_le_iff, List.forall_mem_cons, and_assoc]

theorem le_foldl_latest {ps : List Phase} {p : Phase} (hp : p ∈ ps) : p ≤ ps.foldl latest a :=
  (foldl_latest_le_iff.1 (le_refl _)).2 p hp

theorem foldl_earliest_le {ps : List Phase} : ps.foldl earliest a ≤ a := by
  induction ps generalizing a with
  | nil => exact le_refl a
  | cons p ps ih => exact le_trans ih (le_earliest_iff.1 (le_refl _)).1

end Phase

namespace Function

/-- The arguments that the phase of a call leaves out of account. -/
def overlooked {α : Type} (f : Function) (args : List α) : List α :=
  match f with
  | .coalesce => []
  | .cumulative => []
  | .overall => []
  | .iff => []
  | .ifs => []
  | .concat => []
  | .merge => args
  | .override => args
  | .now => args
  | .dateDiff => args.take 1
  | _ => args.drop 1

/-- Whether calls of a function are dimensions at most, whatever their first argument is. -/
def isDimensionAtMost (f : Function) : Bool := f = .toText || f = .toBool || f = .toDate

theorem mem_take_or_drop {α : Type} {args : List α} {a : α} (h : a ∈ args) (n : Nat) :
    a ∈ args.take n ∨ a ∈ args.drop n := by
  rw [← List.mem_append, List.take_append_drop]
  exact h

/-- A call is no earlier than an argument that its phase takes account of. -/
theorem le_phase_or_overlooked {α : Type} {f : Function} (h : f.isDimensionAtMost = false)
    (phase : α → Phase) {args : List α} (bound : ∀ a ∈ args, phase a ≤ .metricPost) {a : α}
    (ha : a ∈ args) : a ∈ f.overlooked args ∨ phase a ≤ f.phase (args.map phase) := by
  cases f with
  | coalesce | cumulative | overall => exact .inr (bound a ha)
  | merge | override | now => exact .inl ha
  | iff | ifs | concat => exact .inr (Phase.le_foldl_latest (List.mem_map_of_mem ha))
  | toText | toBool | toDate => cases h
  | dateDiff =>
    refine (mem_take_or_drop ha 1).imp_right fun ha => ?_
    have rest : phase a ∈ (args.map phase).drop 1 := List.map_drop ▸ List.mem_map_of_mem ha
    exact Phase.le_foldl_latest rest
  | _ =>
    refine (mem_take_or_drop ha 1).symm.imp_right fun ha => ?_
    have first : phase a ∈ (args.map phase).take 1 := List.map_take ▸ List.mem_map_of_mem ha
    exact Phase.le_foldl_latest first

theorem le_phase_iff_le_dimension {α : Type} {f : Function} (h : f.isDimensionAtMost = true)
    (phase : α → Phase) {args : List α} {a : α} (ha : a ∈ args.take 1) :
    phase a ≤ f.phase (args.map phase) ↔ phase a ≤ .dimension := by
  have earliest : f.phase (args.map phase) =
      ((args.map phase).take 1).foldl .earliest .dimension := by
    cases f <;> first | rfl | cases h
  have head : args.take 1 = [a] := by
    cases args with
    | nil => cases ha
    | cons b _ => rw [List.mem_singleton.1 ha]; rfl
  rw [earliest, ← List.map_take, head, List.map_singleton, List.foldl_cons, List.foldl_nil,
    Phase.le_earliest_iff]
  exact and_iff_left (Phase.le_refl _)

theorem overlooked_subset {α : Type} (f : Function) (args : List α) : f.overlooked args ⊆ args := by
  cases f with
  | coalesce | cumulative | overall | iff | ifs | concat => exact List.nil_subset args
  | merge | override | now => exact List.Subset.refl args
  | dateDiff => exact List.take_subset 1 args
  | _ => exact List.drop_subset 1 args

theorem overlooked_of_isDimensionAtMost {α : Type} {f : Function} (h : f.isDimensionAtMost = true)
    (args : List α) : f.overlooked args = args.drop 1 := by
  cases f <;> first | rfl | cases h

theorem phase_le_metricPost (f : Function) {ps : List Phase} (bound : ∀ p ∈ ps, p ≤ .metricPost) :
    f.phase ps ≤ .metricPost := by
  have some (n : Nat) : ∀ p ∈ ps.take n, p ≤ .metricPost :=
    fun p hp => bound p (List.mem_of_mem_take hp)
  have rest (n : Nat) : ∀ p ∈ ps.drop n, p ≤ .metricPost :=
    fun p hp => bound p (List.mem_of_mem_drop hp)
  cases f with
  | coalesce | cumulative | overall => exact Phase.le_refl _
  | merge | override => exact (by decide : Phase.dimension ≤ .metricPost)
  | now => exact (by decide : Phase.any ≤ .metricPost)
  | iff | ifs | concat => exact Phase.foldl_latest_le_iff.2 ⟨by decide, bound⟩
  | toText | toBool | toDate =>
    exact Phase.le_trans Phase.foldl_earliest_le (by decide : Phase.dimension ≤ .metricPost)
  | dateDiff => exact Phase.foldl_latest_le_iff.2 ⟨by decide, rest 1⟩
  | _ => exact Phase.foldl_latest_le_iff.2 ⟨by decide, some 1⟩

end Function

namespace Node

variable {ctx : Context}

theorem phase_le_metricPost (n : Node) : n.phase ctx ≤ .metricPost := by
  induction n with
  | integer | decimal | text | bool | column => exact (by decide : Phase.any ≤ .metricPost)
  | paren n _ ih | computed _ n _ ih | not n _ ih | isNull n _ _ ih => exact ih
  | taxon u _ | modelAttribute u _ _ =>
    rw [phase, usePhase]
    split
    · decide
    · split <;> decide
  | binary op l r _ hl hr =>
    rw [phase]
    split
    · split <;> decide
    · split
      · exact Phase.le_refl _
      · exact Phase.latest_le_iff.2 ⟨hl, hr⟩
  | call f args _ _ ih =>
    rw [phase, phaseEach_eq]
    refine f.phase_le_metricPost fun p hp => ?_
    obtain ⟨n, hn, rfl⟩ := List.mem_map.1 hp
    exact ih n hn
  | transition t =>
    rw [phase]
    cases t <;> decide
  | root => exact Phase.le_refl _

/-- Whether a node is no earlier than its children whose values are there. -/
def KeepsLevel (ctx : Context) (n : Node) : Prop :=
  ∀ c ∈ n.children, c.isMissing ctx = false → c.phase ctx ≤ n.phase ctx

/-- Whether no argument is later than its call: none of those that the phase of the call leaves out
of account, and not the first one of a call that is a dimension at most. -/
def HeedsArguments (ctx : Context) : Node → Prop
  | .call f args single place =>
    (∀ n ∈ f.overlooked args, n.isMissing ctx = false →
      n.phase ctx ≤ (Node.call f args single place).phase ctx) ∧
    (f.isDimensionAtMost = true → ∀ n ∈ args.take 1, n.isMissing ctx = false →
      n.phase ctx ≤ .dimension)
  | _ => True

instance : DecidablePred (KeepsLevel ctx) := fun n =>
  inferInstanceAs (Decidable (∀ c ∈ n.children, c.isMissing ctx = false → c.phase ctx ≤ n.phase ctx))

instance : DecidablePred (HeedsArguments ctx)
  | .call f args single place => inferInstanceAs (Decidable
      ((∀ n ∈ f.overlooked args, n.isMissing ctx = false →
          n.phase ctx ≤ (Node.call f args single place).phase ctx) ∧
        (f.isDimensionAtMost = true → ∀ n ∈ args.take 1, n.isMissing ctx = false →
          n.phase ctx ≤ .dimension)))
  | .integer .. | .decimal .. | .text .. | .bool .. | .column .. | .paren .. | .taxon ..
  | .attribute .. | .computed .. | .binary .. | .not .. | .isNull .. | .transition .. | .root .. =>
    .isTrue trivial

/-- An operation is no earlier than an operand that is there: it comes after aggregation if that
does. -/
theorem phase_le_binary {op : Operator} {l r n : Node} {place : Location} (hn : n = l ∨ n = r)
    (present : n.isMissing ctx = false) : n.phase ctx ≤ (Node.binary op l r place).phase ctx := by
  have post (h : isPostValue ctx n (n.phase ctx) = true) :
      (isPostValue ctx l (l.phase ctx) || isPostValue ctx r (r.phase ctx)) = true := by
    rcases hn with rfl | rfl
    · rw [h, Bool.true_or]
    · rw [h, Bool.or_true]
  rw [phase]
  split
  · split
    · exact n.phase_le_metricPost
    · rename_i pre
      refine Phase.le_metricPre n.phase_le_metricPost fun last => pre ?_
      rw [isPostOperation, post (by rw [isPostValue, present, last]; rfl), Bool.true_or]
  · split
    · exact n.phase_le_metricPost
    · rcases hn with rfl | rfl
      · exact Phase.le_latest_left _ _
      · exact Phase.le_latest_right _ _

/-- Calls are the only nodes that can be earlier than what stands in them. -/
theorem keepsLevel_iff {n : Node} (h : n.isUnmoved = true) :
    n.KeepsLevel ctx ↔ n.HeedsArguments ctx := by
  cases n with
  | integer | decimal | text | bool | column | taxon | «attribute» =>
    exact iff_of_true (List.forall_mem_nil _) trivial
  | paren n | computed _ n | not n | isNull n =>
    exact iff_of_true (List.forall_mem_singleton.2 fun _ => Phase.le_refl _) trivial
  | binary op l r place =>
    refine iff_of_true (fun c hc => phase_le_binary ?_) trivial
    simpa [children] using hc
  | call f args single place =>
    have whole : (Node.call f args single place).phase ctx = f.phase (args.map (phase ctx)) := by
      rw [phase, phaseEach_eq]
    rw [KeepsLevel, HeedsArguments, children, whole]
    cases dimension : f.isDimensionAtMost with
    | false =>
      constructor
      · intro keeps
        exact ⟨fun n hn => keeps n (f.overlooked_subset args hn), fun h => absurd h Bool.false_ne_true⟩
      · rintro ⟨overlooked, -⟩ n hn present
        exact (f.le_phase_or_overlooked dimension (phase ctx)
          (fun m _ => m.phase_le_metricPost) hn).elim (overlooked n · present) id
    | true =>
      rw [f.overlooked_of_isDimensionAtMost dimension]
      have first {n : Node} (hn : n ∈ args.take 1) :=
        f.le_phase_iff_le_dimension dimension (phase ctx) hn
      constructor
      · intro keeps
        refine ⟨fun n hn => keeps n (List.mem_of_mem_drop hn), fun _ n hn present => ?_⟩
        exact (first hn).1 (keeps n (List.mem_of_mem_take hn) present)
      · rintro ⟨rest, atMost⟩ n hn present
        rcases Function.mem_take_or_drop hn 1 with hn | hn
        · exact (first hn).2 (atMost rfl n hn present)
        · exact rest n hn present
  | transition => cases h
  | root n =>
    exact iff_of_true (List.forall_mem_singleton.2 fun _ => n.phase_le_metricPost) trivial

/-- What the value of a node rests on: itself, and what its children rest on if their values are
there. -/
inductive RestsOn (ctx : Context) : Node → Node → Prop
  | self (n : Node) : RestsOn ctx n n
  | child {n c m : Node} (hc : c ∈ n.children) (present : c.isMissing ctx = false)
      (h : RestsOn ctx c m) : RestsOn ctx n m

theorem RestsOn.mem_parts {n m : Node} (h : RestsOn ctx n m) : m ∈ n.parts := by
  induction h with
  | self n => exact mem_parts_self n
  | child hc _ _ ih =>
    rw [parts_eq]
    exact List.mem_cons_of_mem _ (List.mem_flatMap.2 ⟨_, hc, ih⟩)

theorem RestsOn.phase_le {n m : Node} (h : RestsOn ctx n m) (all : n.All (KeepsLevel ctx)) :
    m.phase ctx ≤ n.phase ctx := by
  induction h with
  | self n => exact Phase.le_refl _
  | child hc present _ ih =>
    obtain ⟨own, below⟩ := all_iff.1 all
    exact Phase.le_trans (ih (below _ hc)) (own _ hc present)

/-- Everywhere in a formula a node is no earlier than its children, exactly if every call heeds its
arguments. -/
theorem all_keepsLevel_iff {n : Node} (h : n.isUnmoved = true) :
    n.All (KeepsLevel ctx) ↔ n.All (HeedsArguments ctx) :=
  all_congr fun m hm => keepsLevel_iff (all_isUnmoved h m hm)

end Node

end SemanticLayer.Formula
