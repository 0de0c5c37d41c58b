import SemanticLayer.Proofs.Formula.SucceedingMetrics

/-!
# Simplification ends

A running total of a ratio is split into running totals, whose sides are simplified once more, with
their times.  That ends where no running total has ratios both in its value and in its time: the
sides of a ratio then hold fewer ratios within each other than the ratio.

* `Node.ratioDepth`: how many ratios stand within each other;
* `Node.TimesApart`: whether every running total has ratios in its value or in its time only;
* `Node.NoDeeper`: what becomes of a node, with ratios no deeper within each other;
* `Node.exists_simplifyWith`, `Node.splitsUpTo_splitRatio`: simplification ends if its steps do, and
  splitting if it may go deeper than ratios stand within each other;
* `Node.simplify?_mono`: a larger bound on how deep ratios are split changes no result;
* `Node.simplifies_of_timesApart`: every node with its times apart is simplified;
* `Node.not_simplifies_nested`: a running total of a running total of a ratio, over a time with a
  ratio, never is.
-/

namespace SemanticLayer.Formula

namespace Node

variable {ctx : Context}

/-! ## Ratios within each other -/

/-- Whether a node is made of constants alone. -/
def isOfConstants : Node → Bool
  | .integer .. => true
  | .decimal .. => true
  | .text .. => true
  | .bool .. => true
  | .paren n _ => n.isOfConstants
  | .binary _ l r _ => l.isOfConstants && r.isOfConstants
  | _ => false

/-- One for a ratio, unless one of its sides is made of constants alone. -/
def ownRatio : Node → Nat
  | .binary .div l r _ => if l.isOfConstants || r.isOfConstants then 0 else 1
  | _ => 0

mutual

/-- How many ratios stand within each other. -/
def ratioDepth : Node → Nat
  | .integer .. => 0
  | .decimal .. => 0
  | .text .. => 0
  | .bool .. => 0
  | .column .. => 0
  | .taxon .. => 0
  | .attribute .. => 0
  | .computed _ n _ => n.ratioDepth
  | .paren n _ => n.ratioDepth
  | .binary op l r place => max l.ratioDepth r.ratioDepth + ownRatio (.binary op l r place)
  | .not n _ => n.ratioDepth
  | .isNull n _ _ => n.ratioDepth
  | .call _ args _ _ => ratioDepthOfEach args
  | .transition _ n _ _ _ => n.ratioDepth
  | .root n _ => n.ratioDepth

def ratioDepthOfEach : List Node → Nat
  | [] => 0
  | n :: ns => max n.ratioDepth (ratioDepthOfEach ns)

end

/-- Whether a node, if it is a running total, has ratios in its value or in its time only. -/
def isTimeApart : Node → Bool
  | .call .cumulative (first :: time :: _) _ _ => first.ratioDepth = 0 || time.ratioDepth = 0
  | _ => true

/-- Whether every running total in a node has ratios in its value or in its time only. -/
abbrev TimesApart (n : Node) : Prop := n.All fun m => m.isTimeApart = true

theorem ratioDepthOfEach_le_iff {ns : List Node} {k : Nat} :
    ratioDepthOfEach ns ≤ k ↔ ∀ n ∈ ns, n.ratioDepth ≤ k := by
  induction ns with
  | nil => simp [ratioDepthOfEach]
  | cons n ns ih => rw [ratioDepthOfEach, Nat.max_le, ih, List.forall_mem_cons]

/-- Ratios stand at most so deep in a node if they do so below it, where a ratio counts itself. -/
theorem ratioDepth_le_iff {n : Node} {k : Nat} :
    n.ratioDepth ≤ k ↔ ∀ c ∈ n.children, c.ratioDepth + n.ownRatio ≤ k := by
  cases n with
  | binary op l r place =>
    rw [ratioDepth, children, List.forall_mem_cons, List.forall_mem_singleton]
    omega
  | call f args single place => exact ratioDepthOfEach_le_iff
  | _ => simp [ratioDepth, children, ownRatio]

theorem ratioDepth_le_of_mem_children {n c : Node} (hc : c ∈ n.children) :
    c.ratioDepth ≤ n.ratioDepth :=
  Nat.le_trans (Nat.le_add_right _ _) (ratioDepth_le_iff.1 (Nat.le_refl _) c hc)

/-! ### Constants -/

/-- An operation on more constants is no more of a ratio. -/
theorem ownRatio_binary_le {op : Operator} {l l' r r' : Node} {place : Location}
    (left : l.isOfConstants = true → l'.isOfConstants = true)
    (right : r.isOfConstants = true → r'.isOfConstants = true) :
    (Node.binary op l' r' place).ownRatio ≤ (Node.binary op l r place).ownRatio := by
  cases op with
  | div =>
    rw [ownRatio, ownRatio]
    by_cases constants : (l.isOfConstants || r.isOfConstants) = true
    · rw [Bool.or_eq_true] at constants
      rw [if_pos (Bool.or_eq_true_iff.2 (constants.imp left right))]
      exact Nat.zero_le _
    · rw [if_neg constants]
      split
      · exact Nat.zero_le 1
      · exact Nat.le_refl 1
  | _ => exact Nat.le_refl _

theorem isMissing_of_isOfConstants {n : Node} (h : n.isOfConstants = true) :
    n.isMissing ctx = false := by
  induction n with
  | integer | decimal | text | bool => rfl
  | paren n _ ih => exact ih h
  | binary op l r _ hl hr =>
    obtain ⟨left, right⟩ := Bool.and_eq_true_iff.1 h
    cases op <;> simp [isMissing, hl left, hr right]
  | _ => cases h

theorem isConstant_of_isOfConstants {n : Node} (h : n.isOfConstants = true) :
    (n.type ctx).isConstant = true := by
  induction n with
  | integer | decimal | text | bool => rfl
  | paren n _ ih => exact ih h
  | binary op l r _ hl hr =>
    obtain ⟨left, right⟩ := Bool.and_eq_true_iff.1 h
    rw [isConstant_binary (isMissing_of_isOfConstants left) (isMissing_of_isOfConstants right),
      hl left, hr right, Bool.and_self]
  | _ => cases h

theorem isOfConstants_toNode (c : Constant) (place : Location) :
    (c.toNode place).isOfConstants = true := by
  cases c <;> rfl

/-- A ratio of varying values has no side made of constants alone. -/
theorem exists_of_isVaryingRatio {n : Node} (h : n.isVaryingRatio ctx = true) :
    ∃ l r place, n = .binary .div l r place ∧ l.isOfConstants = false ∧
      r.isOfConstants = false := by
  have varies (side : Node) (h : (!(side.type ctx).isConstant) = true) :
      side.isOfConstants = false := by
    rw [Bool.eq_false_iff]
    intro constants
    rw [isConstant_of_isOfConstants constants] at h
    cases h
  cases n with
  | binary op l r place =>
    cases op with
    | div =>
      obtain ⟨left, right⟩ := Bool.and_eq_true_iff.1 h
      exact ⟨l, r, place, rfl, varies l left, varies r right⟩
    | _ => cases h
  | _ => cases h

theorem anyHasVaryingRatio_eq (ns : List Node) :
    anyHasVaryingRatio ctx ns = ns.any (hasVaryingRatio ctx) := by
  induction ns with
  | nil => rfl
  | cons n ns ih => rw [anyHasVaryingRatio, ih, List.any_cons]

theorem hasVaryingRatio_eq (n : Node) : n.hasVaryingRatio ctx =
    (n.isVaryingRatio ctx || n.children.any (hasVaryingRatio ctx)) := by
  cases n with
  | binary => simp [hasVaryingRatio, children, Bool.or_assoc]
  | call f args => simp [hasVaryingRatio, isVaryingRatio, children, anyHasVaryingRatio_eq]
  | _ => simp [hasVaryingRatio, isVaryingRatio, children]

theorem ownRatio_le_one (n : Node) : n.ownRatio ≤ 1 := by
  unfold ownRatio
  split
  · split
    · exact Nat.zero_le 1
    · exact Nat.le_refl 1
  · exact Nat.zero_le 1

/-- The sides of a ratio of varying values hold fewer ratios within each other. -/
theorem ratioDepth_lt_of_isVaryingRatio {n c : Node} (ratio : n.isVaryingRatio ctx = true)
    (hc : c ∈ n.children) : c.ratioDepth < n.ratioDepth := by
  obtain ⟨l, r, place, rfl, left, right⟩ := exists_of_isVaryingRatio ratio
  have deeper := ratioDepth_le_iff.1 (Nat.le_refl _) c hc
  rwa [ownRatio, left, right, Bool.or_self, if_neg Bool.false_ne_true] at deeper

/-- Where no ratio stands, none of varying values does. -/
theorem hasVaryingRatio_of_ratioDepth {n : Node} (none : n.ratioDepth = 0) :
    n.hasVaryingRatio ctx = false := by
  induction n using children_induction with
  | h n ih =>
    have below := ratioDepth_le_iff.1 (Nat.le_of_eq none)
    rw [hasVaryingRatio_eq, Bool.or_eq_false_iff, List.any_eq_false]
    refine ⟨Bool.eq_false_iff.2 fun ratio => ?_, fun c hc => ?_⟩
    · obtain ⟨l, r, place, rfl, _⟩ := exists_of_isVaryingRatio ratio
      have deeper := ratioDepth_lt_of_isVaryingRatio ratio (List.mem_cons_self (a := l))
      rw [none] at deeper
      exact absurd deeper (Nat.not_lt_zero _)
    · have flat := Nat.le_zero.1 (Nat.le_trans (Nat.le_add_right _ _) (below c hc))
      rw [ih c hc flat]
      exact Bool.false_ne_true

/-- The time of a running total that is split holds no ratio. -/
theorem ratioDepth_of_split {first time : Node} {rest : List Node} {single : Bool}
    {place : Location}
    (apart : (Node.call .cumulative (first :: time :: rest) single place).isTimeApart = true)
    (ratio : first.hasVaryingRatio ctx = true) : time.ratioDepth = 0 := by
  rw [isTimeApart, Bool.or_eq_true, decide_eq_true_iff, decide_eq_true_iff] at apart
  refine apart.resolve_left fun none => ?_
  rw [hasVaryingRatio_of_ratioDepth none] at ratio
  cases ratio

/-! ## What becomes of a node -/

/-- Whether a node has at most so many ratios within each other, and all times apart. -/
structure Within (k : Nat) (n : Node) : Prop where
  apart : n.TimesApart
  depth : n.ratioDepth ≤ k

/-- Whether what a node becomes has ratios no deeper within each other, and is made of constants
alone if the node is. -/
structure NoDeeper (n m : Node) : Prop extends Within n.ratioDepth m where
  constants : n.isOfConstants = true → m.isOfConstants = true

theorem within_iff {n : Node} {k : Nat} : n.Within k ↔
    n.isTimeApart = true ∧ ∀ c ∈ n.children, c.TimesApart ∧ c.ratioDepth + n.ownRatio ≤ k := by
  constructor
  · intro h
    obtain ⟨own, below⟩ := all_iff.1 h.apart
    exact ⟨own, fun c hc => ⟨below c hc, ratioDepth_le_iff.1 h.depth c hc⟩⟩
  · rintro ⟨own, below⟩
    exact ⟨all_iff.2 ⟨own, fun c hc => (below c hc).1⟩,
      ratioDepth_le_iff.2 fun c hc => (below c hc).2⟩

namespace Within

variable {k : Nat} {n : Node}

theorem mono {k' : Nat} (h : n.Within k) (le : k ≤ k') : n.Within k' :=
  ⟨h.apart, Nat.le_trans h.depth le⟩

theorem child (h : n.Within k) {c : Node} (hc : c ∈ n.children) : c.Within k :=
  ⟨(all_iff.1 h.apart).2 c hc, Nat.le_trans (ratioDepth_le_of_mem_children hc) h.depth⟩

/-- Around nodes, what is neither a ratio nor a running total has ratios as deep as they have. -/
theorem around (apart : n.isTimeApart = true) (other : n.ownRatio = 0)
    (each : ∀ c ∈ n.children, c.Within k) : n.Within k :=
  within_iff.2 ⟨apart, fun c hc => ⟨(each c hc).apart, by rw [other]; exact (each c hc).depth⟩⟩

theorem total {time : Node} (h : n.Within k) (ofTime : time.Within 0) (place : Location) :
    (Node.call .cumulative [n, time] false place).Within k :=
  have apart := decide_eq_true (Nat.le_zero.1 ofTime.depth)
  around (n := .call ..) (Bool.or_eq_true_iff.2 (.inr apart)) rfl
    (List.forall_mem_cons.2 ⟨h, List.forall_mem_singleton.2 (ofTime.mono (Nat.zero_le k))⟩)

/-- A ratio has ratios one deeper than both its sides. -/
theorem ratio {m : Node} (hn : n.Within k) (hm : m.Within k) (place : Location) :
    (Node.binary .div n m place).Within (k + 1) :=
  have own := ownRatio_le_one (.binary .div n m place)
  within_iff.2 ⟨rfl, List.forall_mem_cons.2 ⟨⟨hn.apart, Nat.add_le_add hn.depth own⟩,
    List.forall_mem_singleton.2 ⟨hm.apart, Nat.add_le_add hm.depth own⟩⟩⟩

end Within

theorem within_toNode (k : Nat) (c : Constant) (place : Location) : (c.toNode place).Within k := by
  cases c <;> exact .around rfl rfl (List.forall_mem_nil _)

/-- A comparison has ratios as deep as the node that is compared with a constant. -/
theorem Within.compared {k : Nat} {n m : Node} (hn : n.Within k) (hm : m.Within k)
    (place : Location) : (Node.binary .eq n m place).Within k :=
  .around rfl rfl (List.forall_mem_cons.2 ⟨hn, List.forall_mem_singleton.2 hm⟩)

namespace NoDeeper

theorem refl {n : Node} (h : n.TimesApart) : NoDeeper n n := ⟨⟨h, Nat.le_refl _⟩, id⟩

theorem trans {a b c : Node} (h : NoDeeper a b) (h' : NoDeeper b c) : NoDeeper a c :=
  ⟨h'.mono h.depth, fun constants => h'.constants (h.constants constants)⟩

/-- What becomes of a child becomes of the node, if the child is made of constants alone with it. -/
theorem ofChild {n c m : Node} (h : NoDeeper c m) (hc : c ∈ n.children)
    (constants : n.isOfConstants = true → c.isOfConstants = true) : NoDeeper n m :=
  ⟨h.mono (ratioDepth_le_of_mem_children hc), fun all => h.constants (constants all)⟩

/-- No call is made of constants alone. -/
theorem ofCall {f : Function} {args : List Node} {single : Bool} {place : Location} {m : Node}
    (h : m.Within (Node.call f args single place).ratioDepth) :
    NoDeeper (.call f args single place) m :=
  ⟨h, fun constants => absurd constants Bool.false_ne_true⟩

end NoDeeper

theorem isTimeApart_call {f : Function} {args ms : List Node} {single : Bool} {place : Location}
    (apart : (Node.call f args single place).isTimeApart = true)
    (each : List.Forall₂ NoDeeper args ms) :
    (Node.call f ms single place).isTimeApart = true := by
  cases f with
  | cumulative =>
    cases each with
    | nil => rfl
    | cons first others =>
      cases others with
      | nil => rfl
      | cons time _ =>
        have none {n m : Node} (deeper : NoDeeper n m) (h : n.ratioDepth = 0) : m.ratioDepth = 0 :=
          Nat.le_zero.1 (h ▸ deeper.depth)
        rw [isTimeApart, Bool.or_eq_true, decide_eq_true_iff, decide_eq_true_iff] at apart ⊢
        exact apart.imp (none first) (none time)
  | _ => rfl

/-- Around nodes with ratios no deeper than its children, a node has ratios no deeper. -/
theorem NoDeeper.withChildren {n : Node} {ms : List Node} (apart : n.TimesApart)
    (each : List.Forall₂ NoDeeper n.children ms) : NoDeeper n (n.withChildren ms) := by
  obtain ⟨own, _⟩ := all_iff.1 apart
  have kept : (n.withChildren ms).isTimeApart = true ∧ (n.withChildren ms).ownRatio ≤ n.ownRatio ∧
      (n.isOfConstants = true → (n.withChildren ms).isOfConstants = true) := by
    cases n with
    | integer | decimal | text | bool | column | taxon | «attribute» =>
      exact ⟨rfl, Nat.le_refl _, id⟩
    | paren =>
      obtain ⟨m, _, inner, rest, rfl⟩ := List.forall₂_cons_left_iff.1 each
      cases rest
      exact ⟨rfl, Nat.le_refl _, inner.constants⟩
    | not | isNull | transition | root | computed =>
      obtain ⟨m, rfl⟩ := List.length_eq_one_iff.1 each.length_eq.symm
      exact ⟨rfl, Nat.le_refl _, fun constants => absurd constants Bool.false_ne_true⟩
    | binary op l r place =>
      obtain ⟨l', _, left, others, rfl⟩ := List.forall₂_cons_left_iff.1 each
      obtain ⟨r', _, right, rest, rfl⟩ := List.forall₂_cons_left_iff.1 others
      cases rest
      refine ⟨rfl, ?_, fun constants => ?_⟩
      · exact ownRatio_binary_le left.constants right.constants
      · obtain ⟨hl, hr⟩ := Bool.and_eq_true_iff.1 constants
        exact Bool.and_eq_true_iff.2 ⟨left.constants hl, right.constants hr⟩
    | call f args single place =>
      refine ⟨?_, Nat.le_refl _, fun constants => absurd constants Bool.false_ne_true⟩
      exact isTimeApart_call own each
  obtain ⟨apart', ratio, constants⟩ := kept
  refine ⟨within_iff.2 ⟨apart', ?_⟩, constants⟩
  rw [children_withChildren each.length_eq.symm]
  refine forall_mem_of_forall₂ each (fun c m deeper bound => ⟨deeper.apart, ?_⟩)
    (ratioDepth_le_iff.1 (Nat.le_refl _))
  have := deeper.depth
  omega

/-! ## Steps that end -/

/-- Whether a step makes something of every node with at most so many ratios within each other, with
ratios no deeper. -/
def EndsUpTo (k : Nat) (step : Step) : Prop :=
  ∀ n, n.Within k → ∃ m, step n = some m ∧ NoDeeper n m

/-- Whether a splitter makes such steps of such steps, over each time without ratios. -/
def SplitsUpTo (k : Nat) (split : Splitter) : Prop :=
  ∀ ⦃step time⦄, EndsUpTo k step → time.Within 0 → EndsUpTo k (split step time)

theorem endsUpTo_some (k : Nat) : EndsUpTo k some := fun n h => ⟨n, rfl, .refl h.apart⟩

namespace EndsUpTo

variable {k : Nat} {step : Step}

theorem mono {k' : Nat} (ends : EndsUpTo k step) (le : k' ≤ k) : EndsUpTo k' step :=
  fun n h => ends n (h.mono le)

variable (ends : EndsUpTo k step) {b : Nat} (le : b ≤ k)
include ends le

theorem exists_within {n : Node} (h : n.Within b) : ∃ m, step n = some m ∧ m.Within b := by
  obtain ⟨m, hm, deeper⟩ := ends n (h.mono le)
  exact ⟨m, hm, deeper.mono h.depth⟩

theorem simplifiedTest {simplified : Node} (h : simplified.Within b) (n : Node) (c : Constant) :
    ∃ test, Node.simplifiedTest step n simplified c = some test ∧ test.Within b := by
  unfold Node.simplifiedTest
  split
  · exact ⟨_, rfl, within_toNode b _ _⟩
  · obtain ⟨s, hs, within⟩ := ends.exists_within le h
    obtain ⟨d, hd, constant⟩ := ends.exists_within le (within_toNode b c n.place)
    rw [hs, hd]
    exact ⟨_, rfl, within.compared constant n.place⟩

theorem testOfFalse {simplified : Node} (h : simplified.Within b) (n : Node) :
    ∃ test, Node.testOfFalse ctx step n simplified = some test ∧ test.Within b := by
  unfold Node.testOfFalse
  split
  · exact ends.simplifiedTest le h n (.int 0)
  · obtain ⟨s, hs, within⟩ := ends.exists_within le h
    rw [hs, Option.bind_eq_bind, Option.bind_some]
    exact ends.simplifiedTest le
      (.around (n := .call .lower [s] false n.place) rfl rfl (List.forall_mem_singleton.2 within))
      _ _

theorem simplifiedChoice {test : Node} (h : test.Within b) (yes no : Constant)
    (constants place : Location) :
    ∃ choice, Node.simplifiedChoice step test yes no constants place = some choice ∧
      choice.Within b := by
  obtain ⟨t, ht, within⟩ := ends.exists_within le h
  obtain ⟨y, hy, first⟩ := ends.exists_within le (within_toNode b yes constants)
  obtain ⟨n, hn, second⟩ := ends.exists_within le (within_toNode b no constants)
  unfold Node.simplifiedChoice
  rw [ht, hy, hn]
  refine ends.exists_within le (.around (n := .call .iff [t, y, n] false place) rfl rfl ?_)
  exact List.forall_mem_cons.2 ⟨within, List.forall_mem_cons.2
    ⟨first, List.forall_mem_singleton.2 second⟩⟩

end EndsUpTo

theorem exists_each {split : Splitter} {step : Step} {ns : List Node}
    (h : ∀ n ∈ ns, ∃ m, SimplifiedChild ctx split step n m ∧ NoDeeper n m) :
    ∃ ms, List.Forall₂ (SimplifiedChild ctx split step) ns ms ∧ List.Forall₂ NoDeeper ns ms := by
  induction ns with
  | nil => exact ⟨[], .nil, .nil⟩
  | cons n ns ih =>
    obtain ⟨⟨m, hm, deeper⟩, rest⟩ := List.forall_mem_cons.1 h
    obtain ⟨ms, each, deepers⟩ := ih rest
    exact ⟨m :: ms, .cons hm each, .cons deeper deepers⟩

/-- Simplification ends if its steps do. -/
theorem exists_simplifyWith {split : Splitter} {k : Nat} (hsplit : SplitsUpTo k split) (n : Node) :
    ∀ ⦃step⦄, EndsUpTo k step → n.Within k →
      ∃ m, simplifyWith ctx split step n = some m ∧ NoDeeper n m := by
  induction n using children_induction with
  | h n ih =>
    intro step ends within
    have inside (c : Node) (hc : c ∈ n.children) :
        ∃ s, simplifyWith ctx split step c = some s ∧ NoDeeper c s := ih c hc ends (within.child hc)
    have child (c : Node) (hc : c ∈ n.children) :
        ∃ m, SimplifiedChild ctx split step c m ∧ NoDeeper c m := by
      obtain ⟨s, hs, deeper⟩ := inside c hc
      obtain ⟨m, hm, again⟩ := ends s (deeper.mono (within.child hc).depth)
      exact ⟨m, ⟨s, hs, hm⟩, deeper.trans again⟩
    have bound (c : Node) (hc : c ∈ n.children) : c.ratioDepth ≤ n.ratioDepth :=
      ratioDepth_le_of_mem_children hc
    have simplified (c : Node) (hc : c ∈ n.children) :
        ∃ s, simplifyWith ctx split step c = some s ∧ s.Within n.ratioDepth := by
      obtain ⟨s, hs, deeper⟩ := inside c hc
      exact ⟨s, hs, deeper.mono (bound c hc)⟩
    have among {ns : List Node} (hns : ∀ c ∈ ns, c ∈ n.children) :
        ∃ ms, List.Forall₂ (SimplifiedChild ctx split step) ns ms ∧
          ∀ m ∈ ms, m.Within n.ratioDepth := by
      obtain ⟨ms, each, deepers⟩ := exists_each fun c hc => child c (hns c hc)
      exact ⟨ms, each,
        forall_mem_of_forall₂ deepers (fun c m deeper hc => deeper.mono (bound c hc)) hns⟩
    suffices ∃ m, Rewritten ctx split step (n.rule ctx) n m ∧ NoDeeper n m by
      obtain ⟨m, rewritten, deeper⟩ := this
      exact ⟨m, rewritten.simplifies, deeper⟩
    have applies : Applies ctx (n.rule ctx) n := applies n
    generalize n.rule ctx = rule at applies ⊢
    cases applies with
    | kept => exact ⟨n, .kept n, .refl within.apart⟩
    | inside =>
      obtain ⟨ms, each, deeper⟩ := exists_each child
      exact ⟨_, .inside each rfl, .withChildren within.apart deeper⟩
    | @left op l r place remains =>
      have left := List.mem_cons_self (a := l) (l := [r])
      obtain ⟨s, hs, deeper⟩ := inside l left
      exact ⟨s, .left remains hs, deeper.ofChild left fun h => (Bool.and_eq_true_iff.1 h).1⟩
    | @right op l r place remains =>
      have right := List.mem_cons_of_mem l (List.mem_singleton_self r)
      obtain ⟨s, hs, deeper⟩ := inside r right
      exact ⟨s, .right remains hs, deeper.ofChild right fun h => (Bool.and_eq_true_iff.1 h).2⟩
    | folded value =>
      exact ⟨_, .folded value, within_toNode _ _ _, fun _ => isOfConstants_toNode _ _⟩
    | first kind =>
      obtain ⟨s, hs, within'⟩ := simplified _ (List.mem_cons_self ..)
      exact ⟨s, .first kind hs, .ofCall within'⟩
    | @truth first rest single place =>
      obtain ⟨s, hs, within'⟩ := simplified first (List.mem_cons_self ..)
      obtain ⟨test, tests, within'⟩ := ends.testOfFalse within.depth within' first
      obtain ⟨choice, chooses, within'⟩ := ends.simplifiedChoice within.depth within'
        (.bool false) (.bool true) first.place place
      exact ⟨_, .truth hs tests chooses, .ofCall (.around (n := .call ..) rfl rfl
        (List.forall_mem_singleton.2 within'))⟩
    | @truthNumber first rest single place =>
      obtain ⟨s, hs, within'⟩ := simplified first (List.mem_cons_self ..)
      obtain ⟨test, tests, within'⟩ := ends.simplifiedTest within.depth within' first (.bool true)
      obtain ⟨choice, chooses, within'⟩ := ends.simplifiedChoice within.depth within'
        (.int 1) (.int 0) first.place place
      obtain ⟨ms, precision, below⟩ := among fun c (hc : c ∈ rest.take 1) =>
        List.mem_cons_of_mem first (List.mem_of_mem_take hc)
      exact ⟨_, .truthNumber hs tests chooses precision, .ofCall (.around (n := .call ..) rfl rfl
        (List.forall_mem_cons.2 ⟨within', below⟩))⟩
    | @number first rest single place =>
      obtain ⟨ms, each, below⟩ := among fun c (hc : c ∈ first :: rest.take 1) =>
        List.mem_of_mem_take (i := 2) hc
      exact ⟨_, .number each, .ofCall (.around (n := .call ..) rfl rfl below)⟩
    | @split first time rest single place ratio =>
      obtain ⟨time', atTime, deeper⟩ :=
        inside time (List.mem_cons_of_mem _ (List.mem_cons_self ..))
      have flat := ratioDepth_of_split (all_iff.1 within.apart).1 ratio
      have splitting := hsplit ends (deeper.mono (Nat.le_of_eq flat))
      have firstIn := List.mem_cons_self (a := first) (l := time :: rest)
      obtain ⟨s, hs, deeper⟩ := ih first firstIn splitting (within.child firstIn)
      obtain ⟨m, splits, again⟩ := splitting s (deeper.mono (within.child firstIn).depth)
      exact ⟨m, .split atTime hs splits,
        .ofCall ((deeper.trans again).mono (bound first firstIn))⟩

/-- Splitting ends if it may go deeper than ratios stand within each other: the sides of a ratio
have one level less. -/
theorem splitsUpTo_splitRatio {k depth : Nat} (lt : k < depth) :
    SplitsUpTo k (splitRatio ctx depth) := by
  induction depth generalizing k with
  | zero => exact absurd lt (Nat.not_lt_zero k)
  | succ depth ih =>
    intro step time ends ofTime n within
    obtain ⟨s, hs, deeper⟩ := ends n within
    cases ratio : s.isVaryingRatio ctx with
    | false => exact ⟨s, splitRatio_of_other hs ratio, deeper⟩
    | true =>
      obtain ⟨l, r, place, rfl, left, _⟩ := exists_of_isVaryingRatio ratio
      have side (c : Node) (hc : c ∈ [l, r]) : ∃ b a, b < n.ratioDepth ∧
          simplifyWith ctx (splitRatio ctx depth) (splitRatio ctx depth step time) c = some a ∧
          (Node.call .cumulative [a, time] false a.place).Within b := by
        have less : c.ratioDepth < n.ratioDepth :=
          Nat.lt_of_lt_of_le (ratioDepth_lt_of_isVaryingRatio ratio hc) deeper.depth
        have le := Nat.le_trans less within.depth
        have lower := ih (Nat.lt_of_lt_of_le le (Nat.le_of_lt_succ lt))
        obtain ⟨a, ha, after⟩ := exists_simplifyWith lower c
          (lower (ends.mono (Nat.le_of_lt le)) ofTime) ⟨(deeper.child hc).apart, Nat.le_refl _⟩
        exact ⟨_, a, less, ha, after.total ofTime a.place⟩
      obtain ⟨b, a, less, ha, total⟩ := side l (List.mem_cons_self ..)
      obtain ⟨b', a', less', ha', total'⟩ :=
        side r (List.mem_cons_of_mem _ (List.mem_singleton_self r))
      refine ⟨_, splitRatio_of_ratio hs ratio ha ha', ?_, fun constants => ?_⟩
      · exact ((total.mono (Nat.le_max_left b b')).ratio (total'.mono (Nat.le_max_right b b'))
          place).mono (Nat.max_lt.2 ⟨less, less'⟩)
      · have all := deeper.constants constants
        rw [isOfConstants, left] at all
        cases all

/-! ## Larger bounds -/

/-- Whether a step makes of a node what another one makes of it, wherever that makes something. -/
def Extends (step step' : Step) : Prop := ∀ ⦃n m⦄, step n = some m → step' n = some m

namespace Extends

variable {step step' : Step} (more : Extends step step')
include more

theorem simplifiedTest {n simplified test : Node} {c : Constant}
    (h : Node.simplifiedTest step n simplified c = some test) :
    Node.simplifiedTest step' n simplified c = some test := by
  unfold Node.simplifiedTest at h ⊢
  split at h
  · exact h
  · obtain ⟨s, hs, h⟩ := Option.bind_eq_some_iff.1 h
    obtain ⟨d, hd, h⟩ := Option.bind_eq_some_iff.1 h
    rw [more hs, more hd]
    exact h

theorem testOfFalse {n simplified test : Node}
    (h : Node.testOfFalse ctx step n simplified = some test) :
    Node.testOfFalse ctx step' n simplified = some test := by
  unfold Node.testOfFalse at h ⊢
  split_ifs at h ⊢
  · exact more.simplifiedTest h
  · obtain ⟨s, hs, h⟩ := Option.bind_eq_some_iff.1 h
    rw [more hs]
    exact more.simplifiedTest h

theorem simplifiedChoice {test choice : Node} {yes no : Constant} {constants place : Location}
    (h : Node.simplifiedChoice step test yes no constants place = some choice) :
    Node.simplifiedChoice step' test yes no constants place = some choice := by
  obtain ⟨t, y, n, ht, hy, hn, h⟩ := eq_of_simplifiedChoice h
  unfold Node.simplifiedChoice
  rw [more ht, more hy, more hn]
  exact more h

end Extends

/-- With steps and splits that make the same of more nodes, simplification does so, too. -/
theorem simplifyWith_extends {split split' : Splitter}
    (hsplit : ∀ step step' time, Extends step step' →
      Extends (split step time) (split' step' time)) (n : Node) :
    ∀ ⦃step step' m⦄, Extends step step' → simplifyWith ctx split step n = some m →
      simplifyWith ctx split' step' n = some m := by
  induction n using children_induction with
  | h n ih =>
    intro step step' m hstep h
    have inside {c s : Node} (hc : c ∈ n.children) (h : simplifyWith ctx split step c = some s) :
        simplifyWith ctx split' step' c = some s := ih c hc hstep h
    have each {ns ms : List Node} (among : ∀ c ∈ ns, c ∈ n.children)
        (each : List.Forall₂ (SimplifiedChild ctx split step) ns ms) :
        List.Forall₂ (SimplifiedChild ctx split' step') ns ms :=
      forall₂_of_each each fun c hc s hs _ hm => ⟨s, inside (among c hc) hs, hstep hm⟩
    have rewritten := rewritten h
    refine Rewritten.simplifies ?_
    generalize n.rule ctx = rule at rewritten ⊢
    clear h
    cases rewritten with
    | kept => exact .kept n
    | inside children around => exact .inside (each (fun _ hc => hc) children) around
    | left remains h => exact .left remains (inside (List.mem_cons_self ..) h)
    | right remains h =>
      exact .right remains (inside (List.mem_cons_of_mem _ (List.mem_singleton_self _)) h)
    | folded value => exact .folded value
    | first kind h => exact .first kind (inside (List.mem_cons_self ..) h)
    | truth h tests chooses =>
      exact .truth (inside (List.mem_cons_self ..) h) (hstep.testOfFalse tests)
        (hstep.simplifiedChoice chooses)
    | truthNumber h tests chooses precision =>
      exact .truthNumber (inside (List.mem_cons_self ..) h) (hstep.simplifiedTest tests)
        (hstep.simplifiedChoice chooses)
        (each (fun _ hc => List.mem_cons_of_mem _ (List.mem_of_mem_take hc)) precision)
    | number children =>
      exact .number (each (fun _ hc => List.mem_of_mem_take (i := 2) hc) children)
    | split atTime h splits =>
      exact .split (inside (List.mem_cons_of_mem _ (List.mem_cons_self ..)) atTime)
        (ih _ (List.mem_cons_self ..) (hsplit _ _ _ hstep) h) (hsplit _ _ _ hstep splits)

theorem splitRatio_extends {depth depth' : Nat} (le : depth ≤ depth') (step step' : Step)
    (time : Node) (hstep : Extends step step') :
    Extends (splitRatio ctx depth step time) (splitRatio ctx depth' step' time) := by
  induction depth generalizing depth' step step' time with
  | zero =>
    intro n m h
    cases h
  | succ depth ih =>
    obtain ⟨depth', rfl⟩ : ∃ d, depth' = d + 1 := Nat.exists_eq_add_one.2 (by omega)
    have le := Nat.le_of_succ_le_succ le
    intro n m h
    obtain ⟨s, hs⟩ := stepped_of_splitRatio h
    cases ratio : s.isVaryingRatio ctx with
    | false =>
      rw [splitRatio_of_other hs ratio] at h
      cases h
      exact splitRatio_of_other (hstep hs) ratio
    | true =>
      obtain ⟨l, r, place, a, b, rfl, ha, hb, rfl⟩ := totals_of_splitRatio h hs ratio
      have side {c d : Node} : simplifyWith ctx (splitRatio ctx depth)
          (splitRatio ctx depth step time) c = some d →
          simplifyWith ctx (splitRatio ctx depth') (splitRatio ctx depth' step' time) c = some d :=
        simplifyWith_extends (ih le) c (ih le step step' time hstep)
      exact splitRatio_of_ratio (hstep hs) ratio (side ha) (side hb)

/-- A larger bound on how deep ratios are split changes no result. -/
theorem simplify?_mono {depth depth' : Nat} (le : depth ≤ depth') {n m : Node}
    (h : n.simplify? ctx depth = some m) : n.simplify? ctx depth' = some m :=
  simplifyWith_extends (splitRatio_extends le) n (fun _ _ same => same) h

/-! ## Simplification ends -/

theorem size_lt_of_mem_children {n c : Node} (hc : c ∈ n.children) : c.size < n.size := by
  cases n with
  | integer | decimal | text | bool | column | taxon | «attribute» => cases hc
  | paren n _ | not n _ | computed _ n _ | isNull n _ _ | root n _ =>
    rw [List.mem_singleton.1 hc, size]
    exact Nat.lt_succ_self _
  | transition _ n _ _ _ =>
    rw [List.mem_singleton.1 hc, size]
    exact Nat.lt_succ_self _
  | binary op l r place =>
    rw [size]
    simp only [children, List.mem_cons, List.not_mem_nil, or_false] at hc
    rcases hc with rfl | rfl <;> omega
  | call f args single place =>
    rw [size, Nat.lt_succ_iff]
    change c ∈ args at hc
    induction args with
    | nil => cases hc
    | cons n ns ih =>
      rw [sizeAll]
      rcases List.mem_cons.1 hc with rfl | hc
      · omega
      · have := ih hc
        omega

theorem ratioDepth_le_size (n : Node) : n.ratioDepth ≤ n.size := by
  induction n using children_induction with
  | h n ih =>
    exact ratioDepth_le_iff.2 fun c hc => Nat.le_trans
      (Nat.add_le_add (ih c hc) (ownRatio_le_one n)) (size_lt_of_mem_children hc)

/-- The bound on how deep ratios are split is above the depth of the ratios. -/
theorem ratioDepth_lt_bound (n : Node) : n.ratioDepth < (n.size + 2) * (n.size + 2) := by
  have := ratioDepth_le_size n
  have := Nat.le_mul_self (n.size + 2)
  omega

/-- A node is simplified if every running total has ratios in its value or in its time only, with
any bound above the depth of its ratios. -/
theorem simplify?_eq_of_apart {n : Node} (apart : n.TimesApart) {depth : Nat}
    (deep : n.ratioDepth < depth) : n.simplify? ctx depth = some (n.simplify ctx) := by
  obtain ⟨m, hm⟩ : ∃ m, n.simplify? ctx (n.ratioDepth + 1) = some m := by
    obtain ⟨m, hm, _⟩ := exists_simplifyWith (splitsUpTo_splitRatio (Nat.lt_succ_self _)) n
      (endsUpTo_some _) ⟨apart, Nat.le_refl _⟩
    exact ⟨m, hm⟩
  have ends {depth : Nat} (deep : n.ratioDepth < depth) : n.simplify? ctx depth = some m :=
    simplify?_mono deep hm
  rw [simplify, ends (ratioDepth_lt_bound n), ends deep, Option.getD_some]

/-- Simplification ends where every running total has ratios in its value or in its time only, and
gives the same with every bound above the depth of the ratios. -/
theorem simplifies_of_timesApart {n : Node} (apart : n.TimesApart) : n.Simplifies ctx ∧
    ∀ depth, n.ratioDepth < depth → n.simplify? ctx depth = some (n.simplify ctx) :=
  ⟨⟨_, _, simplify?_eq_of_apart apart (Nat.lt_succ_self _)⟩,
    fun _ deep => simplify?_eq_of_apart apart deep⟩

/-- A request among metrics, over days that are also counted in seconds. -/
def secondsAndDays : Context :=
  let raw (slug : String) (type : TaxonType) (validation : ValidationType) : Taxon :=
    ⟨slug, slug, none, type, .raw .sum, validation, "shop", none, none, none⟩
  Context.ofTaxons (Taxon.mapOf [raw "spend" .metric .numeric, raw "clicks" .metric .numeric,
    raw "visits" .metric .numeric, raw "day" .dimension .datetime,
    raw "seconds" .dimension .numeric])

theorem simplifies_of_timesApart_nested : ∃ n, rootOfFormula secondsAndDays none
    "cumulative(cumulative(spend / clicks / visits, day), to_date(seconds))" = .ok n ∧
      n.faults secondsAndDays = [] ∧ n.Simplifies secondsAndDays ∧
      n.simplify? secondsAndDays 3 = some (n.simplify secondsAndDays) := by
  obtain ⟨n, hn, holds⟩ : ∃ n, rootOfFormula secondsAndDays none
      "cumulative(cumulative(spend / clicks / visits, day), to_date(seconds))" = .ok n ∧ _ :=
    Result.ok_of_any (f := fun n => (n.faults secondsAndDays).isEmpty ∧ n.TimesApart ∧
      n.ratioDepth < 3) (by decide +kernel)
  obtain ⟨valid, apart, deep⟩ := of_decide_eq_true holds
  obtain ⟨ends, bounded⟩ := @simplifies_of_timesApart secondsAndDays n apart
  exact ⟨n, hn, List.isEmpty_iff.1 valid, ends, bounded 3 deep⟩

/-! ## Simplification that never ends -/

/-- Whether a step leaves all nodes but ratios of varying values as they are. -/
def LeavesOthers (ctx : Context) (step : Step) : Prop :=
  ∀ n, n.isVaryingRatio ctx = false → step n = some n

/-- Whether a node is a varying value without ratios that simplification leaves as it is. -/
structure IsPlain (ctx : Context) (n : Node) : Prop where
  varies : (n.type ctx).isConstant = false
  noConstant : n.constant? = none
  noRatio : n.hasVaryingRatio ctx = false
  stays : ∀ split step, LeavesOthers ctx step → simplifyWith ctx split step n = some n

theorem leavesOthers_some : LeavesOthers ctx some := fun _ _ => rfl

theorem leavesOthers_splitRatio {step : Step} (hstep : LeavesOthers ctx step) (depth : Nat)
    (time : Node) : LeavesOthers ctx (splitRatio ctx (depth + 1) step time) :=
  fun n other => splitRatio_of_other (hstep n other) other

/-- Totals of the sides of a ratio are a ratio of varying values. -/
theorem totals_isVaryingRatio (a b time : Node) (place : Location) :
    (Node.binary .div (.call .cumulative [a, time] false a.place)
      (.call .cumulative [b, time] false b.place) place).isVaryingRatio ctx = true := by
  rw [isVaryingRatio, type, type, isConstant_type (by decide), isConstant_type (by decide)]
  rfl

theorem isPlain_taxon (u : TaxonUse) (place : Location) : (Node.taxon u place).IsPlain ctx where
  varies := by
    rw [type]
    split <;> rfl
  noConstant := rfl
  noRatio := rfl
  stays _ _ _ := rfl

theorem isVaryingRatio_of_hasVaryingRatio {n : Node} (h : n.hasVaryingRatio ctx = false) :
    n.isVaryingRatio ctx = false := by
  rw [hasVaryingRatio_eq] at h
  exact (Bool.or_eq_false_iff.1 h).1

section
variable {split : Splitter} {step : Step}

/-- With a total of a value without ratios, its time is simplified. -/
theorem simplified_of_total {value time m : Node} {single : Bool} {place : Location}
    (noRatio : value.hasVaryingRatio ctx = false)
    (h : simplifyWith ctx split step (.call .cumulative [value, time] single place) = some m) :
    ∃ s, simplifyWith ctx split step time = some s := by
  have rewritten := rewritten h
  rw [rule, callRule, noRatio] at rewritten
  cases rewritten with
  | inside each around =>
    obtain ⟨_, _, _, others, rfl⟩ := List.forall₂_cons_left_iff.1 each
    obtain ⟨_, _, ⟨s, hs, _⟩, _, rfl⟩ := List.forall₂_cons_left_iff.1 others
    exact ⟨s, hs⟩

/-- A total of a ratio is the value after the step that splits ratios over its time. -/
theorem split_of_total {value time m : Node} {single : Bool} {place : Location}
    (ratio : value.hasVaryingRatio ctx = true)
    (h : simplifyWith ctx split step (.call .cumulative [value, time] single place) = some m) :
    ∃ time' s, simplifyWith ctx split step time = some time' ∧
      simplifyWith ctx split (split step time') value = some s ∧ split step time' s = some m := by
  have rewritten := rewritten h
  rw [rule, callRule, ratio] at rewritten
  cases rewritten with
  | split atTime h splits => exact ⟨_, _, atTime, h, splits⟩

namespace IsPlain

variable {l r : Node} (hl : l.IsPlain ctx) (hr : r.IsPlain ctx) (place : Location)
include hl hr

theorem isVaryingRatio : (Node.binary .div l r place).isVaryingRatio ctx = true := by
  rw [Node.isVaryingRatio, hl.varies, hr.varies]
  rfl

theorem simplifyWith (hstep : LeavesOthers ctx step) :
    Node.simplifyWith ctx split step (.binary .div l r place) = some (.binary .div l r place) := by
  refine Rewritten.simplifies ?_
  have none : (Node.binary .div l r place).constant? = none := by
    rw [constant?, hl.noConstant]
    rfl
  have inside : (Node.binary .div l r place).rule ctx = .inside := by
    rw [rule, none]
    rfl
  have child {n : Node} (hn : n.IsPlain ctx) : SimplifiedChild ctx split step n n :=
    ⟨n, hn.stays split step hstep, hstep n (isVaryingRatio_of_hasVaryingRatio hn.noRatio)⟩
  rw [inside]
  exact .inside (.cons (child hl) (.cons (child hr) .nil)) rfl

/-- A ratio of plain values is split into their totals. -/
theorem splitRatio (hstep : LeavesOthers ctx step) (same : ∀ n, step n = some n) (depth : Nat)
    (time : Node) : Node.splitRatio ctx (depth + 2) step time (.binary .div l r place) =
      some (.binary .div (.call .cumulative [l, time] false l.place)
        (.call .cumulative [r, time] false r.place) place) :=
  have lower := leavesOthers_splitRatio hstep depth time
  splitRatio_of_ratio (same _) (hl.isVaryingRatio hr place) (hl.stays _ _ lower)
    (hr.stays _ _ lower)

end IsPlain

end

section
variable {x w : Node} {single : Bool} {place place' : Location}
  (number : ((Node.binary .div x w place).type ctx).isDatetime = false)
include number

/-- A ratio that is converted to a date is simplified, and then stepped. -/
theorem simplified_of_date {split : Splitter} {step : Step} {m : Node}
    (h : simplifyWith ctx split step (.call .toDate [.binary .div x w place] single place') =
      some m) : ∃ s, simplifyWith ctx split step (.binary .div x w place) = some s ∧
        ∃ s', step s = some s' ∧ m = .call .toDate [s'] single place' := by
  have rewritten := rewritten h
  rw [rule, callRule, number, if_neg Bool.false_ne_true] at rewritten
  cases rewritten with
  | inside each around =>
    obtain ⟨s', _, ⟨s, hs, hs'⟩, rest, rfl⟩ := List.forall₂_cons_left_iff.1 each
    cases rest
    exact ⟨s, hs, s', hs', around.symm⟩

/-- A time with a ratio is never simplified by a step that splits the ratio into totals over that
time, and then splits the ratio of these totals. -/
theorem simplifyWith_date_eq_none (hx : x.IsPlain ctx) (hw : w.IsPlain ctx) {step : Step}
    (hstep : LeavesOthers ctx step)
    (splits : step (.binary .div x w place) = some (.binary .div
      (.call .cumulative [x, .call .toDate [.binary .div x w place] single place'] false x.place)
      (.call .cumulative [w, .call .toDate [.binary .div x w place] single place'] false w.place)
      place)) (day : Node) (depth : Nat) :
    simplifyWith ctx (splitRatio ctx depth) (splitRatio ctx depth step day)
      (.call .toDate [.binary .div x w place] single place') = none := by
  refine Option.eq_none_iff_forall_ne_some.2 fun m h => ?_
  obtain ⟨s, hs, s', hs', _⟩ := simplified_of_date number h
  induction depth generalizing m s s' with
  | zero => cases hs'
  | succ depth ih =>
    rw [hx.simplifyWith hw place (leavesOthers_splitRatio hstep depth day)] at hs
    cases hs
    obtain ⟨l, r, _, a, _, same, ha, _⟩ :=
      totals_of_splitRatio hs' splits (totals_isVaryingRatio x w _ _)
    cases same
    obtain ⟨t, ht⟩ := simplified_of_total hx.noRatio ha
    obtain ⟨s, hs, s', hs', same⟩ := simplified_of_date number ht
    exact ih t ht s hs s' hs' same

/-- A running total of a running total of a ratio, over a time with a ratio, is never simplified:
the inner total splits the totals over that time again, and simplifies the time in them. -/
theorem not_simplifies_nested {a b day : Node} (ha : a.IsPlain ctx) (hb : b.IsPlain ctx)
    (hday : day.IsPlain ctx) (hx : x.IsPlain ctx) (hw : w.IsPlain ctx) (ofRatio ofTotal : Location)
    (singles : Bool × Bool) (whole : Location) :
    ¬(Node.call .cumulative [.call .cumulative [.binary .div a b ofRatio, day] singles.1 ofTotal,
      .call .toDate [.binary .div x w place] single place'] singles.2 whole).Simplifies ctx := by
  rintro ⟨depth, m, h⟩
  have ratio : (Node.binary .div a b ofRatio).hasVaryingRatio ctx = true := by
    rw [hasVaryingRatio_eq, ha.isVaryingRatio hb]
    rfl
  have inTotal : (Node.call .cumulative [.binary .div a b ofRatio, day] singles.1
      ofTotal).hasVaryingRatio ctx = true := by
    rw [hasVaryingRatio_eq, children, List.any_cons, ratio]
    rfl
  -- with two more levels, the sides of a ratio of plain values are split
  obtain ⟨time, s, atTime, inner, _⟩ :=
    split_of_total inTotal (simplify?_mono (Nat.le_add_right depth 2) h)
  obtain ⟨_, hs, _, hs', rfl⟩ := simplified_of_date number atTime
  rw [hx.simplifyWith hw place leavesOthers_some] at hs
  cases hs
  cases hs'
  have outer : LeavesOthers ctx (Node.splitRatio ctx (depth + 2) some
      (.call .toDate [.binary .div x w place] single place')) :=
    leavesOthers_splitRatio leavesOthers_some (depth + 1) _
  obtain ⟨_, _, atDay, simplified, splits⟩ := split_of_total ratio inner
  rw [hday.stays _ _ outer] at atDay
  cases atDay
  rw [ha.simplifyWith hb ofRatio (leavesOthers_splitRatio outer (depth + 1) day)] at simplified
  cases simplified
  obtain ⟨_, _, _, _, _, same, total, _⟩ := totals_of_splitRatio splits
    (ha.splitRatio hb ofRatio leavesOthers_some (fun _ => rfl) depth _)
    (totals_isVaryingRatio a b _ _)
  cases same
  obtain ⟨t, ht⟩ := simplified_of_total ha.noRatio total
  rw [simplifyWith_date_eq_none number hx hw outer
    (hx.splitRatio hw place leavesOthers_some (fun _ => rfl) depth _)] at ht
  cases ht

end

theorem isPlain_yearOfNow (single single' : Bool) (place place' : Location) :
    (Node.call .year [.call .now [] single place] single' place').IsPlain ctx where
  varies := rfl
  noConstant := rfl
  noRatio := rfl
  stays split step hstep := by
    refine Rewritten.simplifies ?_
    exact .inside (.cons ⟨_, rfl, hstep _ rfl⟩ .nil) rfl

theorem Simplifies.of_root {n : Node} {place : Location} (h : (Node.root n place).Simplifies ctx) :
    n.Simplifies ctx := by
  obtain ⟨depth, m, h⟩ := h
  cases rewritten h with
  | inside each around =>
    obtain ⟨_, _, ⟨s, hs, _⟩, _, _⟩ := List.forall₂_cons_left_iff.1 each
    exact ⟨depth, s, hs⟩

/-- Whether a formula is a running total of a running total of a ratio of taxons, over a time with a
ratio of a taxon and this year. -/
def isNestedTotal (ctx : Context) : Node → Bool
  | .root (.call .cumulative
      [.call .cumulative [.binary .div (.taxon ..) (.taxon ..) _, .taxon ..] _ _,
        .call .toDate [.binary .div (.taxon u p) (.call .year [.call .now [] s q] s' q') p'] _ _]
      _ _) _ =>
    let ratio := Node.binary .div (.taxon u p) (.call .year [.call .now [] s q] s' q') p'
    !(ratio.type ctx).isDatetime
  | _ => false

theorem not_simplifies_of_isNestedTotal {n : Node} (h : n.isNestedTotal ctx = true) :
    ¬n.Simplifies ctx := by
  intro simplifies
  unfold isNestedTotal at h
  split at h
  · exact not_simplifies_nested (Bool.not_eq_true' _ ▸ h) (isPlain_taxon _ _) (isPlain_taxon _ _)
      (isPlain_taxon _ _) (isPlain_taxon _ _) (isPlain_yearOfNow _ _ _ _) _ _ (_, _) _
      simplifies.of_root
  · cases h

/-- A valid formula whose simplification never ends. -/
theorem not_simplifies_secondsOfYear : ∃ n, rootOfFormula secondsAndDays none
    "cumulative(cumulative(spend / clicks, day), to_date(seconds / year(now())))" = .ok n ∧
      n.faults secondsAndDays = [] ∧ ¬n.Simplifies secondsAndDays := by
  obtain ⟨n, hn, holds⟩ : ∃ n, rootOfFormula secondsAndDays none
      "cumulative(cumulative(spend / clicks, day), to_date(seconds / year(now())))" = .ok n ∧ _ :=
    Result.ok_of_any (f := fun n => (n.faults secondsAndDays).isEmpty ∧
      n.isNestedTotal secondsAndDays) (by decide +kernel)
  obtain ⟨valid, nested⟩ := of_decide_eq_true holds
  exact ⟨n, hn, List.isEmpty_iff.1 valid, not_simplifies_of_isNestedTotal nested⟩

end Node

end SemanticLayer.Formula
