import SemanticLayer.Proofs.Formula.Parts

/-!
# Nodes without their transitions

Planning puts transitions into a node and changes nothing else.

* `stripped_plan`: without transitions, a planned node is the node that was planned;
* `isMissing_stripped`, `used_stripped`: whether a value is missing, and what it is computed from, does
  not depend on its transitions;
* `all_stripped`: nor does what holds of all parts, if it is no matter of transitions.
-/

namespace SemanticLayer.Formula.Node

variable {ctx : Context}

mutual

/-- The node with the value of each transition in its place. -/
def stripped : Node → Node
  | .integer n p => .integer n p
  | .decimal x p => .decimal x p
  | .text s p => .text s p
  | .bool b p => .bool b p
  | .column s p => .column s p
  | .paren n p => .paren n.stripped p
  | .taxon u p => .taxon u p
  | .attribute u e p => .attribute u e p
  | .computed u n p => .computed u n.stripped p
  | .binary op l r p => .binary op l.stripped r.stripped p
  | .not n p => .not n.stripped p
  | .isNull n negated p => .isNull n.stripped negated p
  | .call f args single p => .call f (strippedEach args) single p
  | .transition _ n _ _ _ => n.stripped
  | .root n p => .root n.stripped p

def strippedEach : List Node → List Node
  | [] => []
  | n :: ns => n.stripped :: strippedEach ns

end

attribute [local simp] stripped strippedEach

theorem strippedEach_eq (ns : List Node) : strippedEach ns = ns.map stripped := by
  induction ns with
  | nil => simp
  | cons n ns ih => simp [ih]

@[simp] theorem stripped_toDimension (n : Node) : n.toDimension.stripped = n.stripped := by
  rw [toDimension, stripped]

@[simp] theorem stripped_toAggregation (n : Node) (a? : Option Aggregation) (l? : Option String) :
    (n.toAggregation a? l?).stripped = n.stripped := by
  rw [toAggregation, stripped]

@[simp] theorem stripped_toPostAggregation (n : Node) (a? : Option Aggregation)
    (l? : Option String) : (n.toPostAggregation a? l?).stripped = n.stripped := by
  rw [toPostAggregation, stripped]

@[simp] theorem stripped_aggregated (n : Node) (a? : Option Aggregation) (l? : Option String) :
    (n.aggregated ctx a? l?).stripped = n.stripped := by
  unfold aggregated
  split <;> simp

@[simp] theorem stripped_planNumericOperand (post : Bool) (n planned : Node) :
    (planNumericOperand ctx post n planned).stripped = planned.stripped := by
  unfold planNumericOperand
  split <;> simp

@[simp] theorem stripped_planLogicalOperand (parent : Parent) (n planned : Node) :
    (planLogicalOperand ctx parent n planned).stripped = planned.stripped := by
  unfold planLogicalOperand
  dsimp only
  split <;> split <;> simp

@[simp] theorem stripped_planBranch (phase : Phase) (n planned : Node) :
    (planBranch ctx phase n planned).stripped = planned.stripped := by
  unfold planBranch
  split <;> simp

@[simp] theorem stripped_planTime (planned : Node) :
    (planTime ctx planned).stripped = planned.stripped := by
  simp [planTime]

@[simp] theorem stripped_planRoot (planned : Node) :
    (planRoot ctx planned).stripped = planned.stripped := by
  unfold planRoot
  dsimp only
  split
  · split <;> simp
  · split <;> simp

/-- Placing a move over planned arguments, one by one, leaves their stripped forms. -/
theorem map_stripped_zipWith {f : Node → Node → Node} {args planned : List Node}
    (h : planned.map stripped = args.map stripped) (hf : ∀ n p, (f n p).stripped = p.stripped) :
    (args.zipWith f planned).map stripped = args.map stripped := by
  induction args generalizing planned with
  | nil => simp
  | cons n args ih =>
    cases planned with
    | nil => simp at h
    | cons p planned =>
      obtain ⟨hp, hps⟩ := List.cons.inj h
      rw [List.zipWith_cons_cons, List.map_cons, List.map_cons, hf, hp, ih hps]

theorem stripped_planArguments {parent : Parent} {f : Function} {phase : Phase}
    {aggregation? : Option Aggregation} {args planned : List Node}
    (h : planned.map stripped = args.map stripped) :
    (planArguments ctx parent f phase aggregation? args planned).map stripped =
      args.map stripped := by
  unfold planArguments
  split
  · refine map_stripped_zipWith h ?_
    intro n p
    split <;> simp
  · simpa [List.map_map, Function.comp_def] using h
  · split
    · split
      · simpa using h
      · exact h
    · exact h
  · split
    · simpa [List.map_map, Function.comp_def] using h
    · exact h
  · obtain ⟨hp, _⟩ := List.cons.inj h
    rw [List.map_cons, List.map_cons, stripped_toDimension, hp]
  · simpa [List.map_map, Function.comp_def] using h
  · simpa [List.map_map, Function.comp_def] using h
  · exact map_stripped_zipWith h (stripped_planBranch phase)
  · exact map_stripped_zipWith h (stripped_planBranch phase)
  · exact h

/-- Planning puts transitions into a node, and changes nothing else. -/
theorem stripped_plan (n : Node) (parent : Parent) :
    (n.plan ctx parent).stripped = n.stripped := by
  induction n generalizing parent with
  | integer | decimal | text | bool | column | taxon | modelAttribute => rw [plan]
  | paren n _ ih => rw [plan, stripped, stripped, ih]
  | computed u n _ ih =>
    rw [plan, stripped, stripped]
    split
    · rfl
    · rw [ih]
  | binary op l r _ hl hr =>
    rw [plan]
    dsimp only
    split <;> simp only [stripped, stripped_planNumericOperand, stripped_planLogicalOperand, hl, hr]
  | not n _ ih => rw [plan, stripped, stripped, ih]
  | isNull n negated _ ih => rw [plan, stripped, stripped, ih]
  | call f args single _ ih =>
    have planned (q : Parent) : (planEach ctx q args).map stripped = args.map stripped := by
      rw [planEach_eq, List.map_map]
      exact List.map_congr_left fun n hn => ih n hn q
    rw [plan, stripped, stripped, strippedEach_eq, strippedEach_eq, stripped_planArguments (planned _)]
  | transition t n a l _ _ =>
    rw [plan]
    split <;> simp [stripped]
  | root n _ ih =>
    rw [plan, stripped, stripped]
    split
    · rfl
    · rw [stripped_planRoot, ih]

theorem isMissing_stripped (n : Node) : n.stripped.isMissing ctx = n.isMissing ctx := by
  induction n with
  | integer | decimal | text | bool | column | taxon | modelAttribute => rw [stripped]
  | paren n _ ih => rw [stripped, isMissing, isMissing, ih]
  | computed u n _ ih => rw [stripped, isMissing, isMissing, ih]
  | binary op l r _ hl hr =>
    rw [stripped]
    cases op <;> simp only [isMissing, hl, hr]
  | not n _ ih => rw [stripped, isMissing, isMissing, ih]
  | isNull n negated _ ih => rw [stripped, isMissing, isMissing, ih]
  | call f args single _ ih =>
    rw [stripped, isMissing, isMissing, eachIsMissing_eq, eachIsMissing_eq, strippedEach_eq,
      List.map_map]
    exact congrArg f.isMissing (List.map_congr_left ih)
  | transition t n a l _ ih => rw [stripped, isMissing, ih]
  | root n _ ih => rw [stripped, isMissing, isMissing, ih]

theorem used_stripped (n : Node) : n.stripped.used ctx = n.used ctx := by
  induction n with
  | integer | decimal | text | bool | column | taxon | modelAttribute => rw [stripped]
  | paren n _ ih | not n _ ih | root n _ ih => rw [stripped, used, used, ih]
  | isNull n _ _ ih => rw [stripped, used, used, ih]
  | computed u n _ ih => rw [stripped, used, used, ih]
  | binary op l r _ hl hr =>
    rw [stripped, used, used, isMissing_stripped, isMissing_stripped, hl, hr]
  | call f args single _ ih =>
    rw [stripped, used, used, usedEach_eq, usedEach_eq, strippedEach_eq, List.map_map]
    exact congrArg UsedSlugs.mergeAll (List.map_congr_left ih)
  | transition t n a l _ ih => rw [stripped, used, ih]

theorem children_stripped {n : Node} (h : n.isTransition = false) :
    n.stripped.children = n.children.map stripped := by
  cases n with
  | transition => cases h
  | call => rw [stripped, children, children, strippedEach_eq]
  | _ => rfl

/-- What holds of all parts of a node, if it is no matter of transitions, holds without them. -/
theorem all_stripped {p : Node → Prop} (moved : ∀ t n a l place, p (.transition t n a l place))
    (same : ∀ n, n.isTransition = false → (p n.stripped ↔ p n)) (n : Node) :
    n.stripped.All p ↔ n.All p := by
  induction n using children_induction with
  | h n ih =>
    cases kind : n.isTransition with
    | false =>
      rw [all_iff, all_iff, same n kind, children_stripped kind, List.forall_mem_map]
      exact and_congr_right fun _ => forall₂_congr ih
    | true =>
      cases n with
      | transition t n a l place =>
        rw [all_iff (n := .transition ..), stripped, children, List.forall_mem_singleton,
          ih n (List.mem_singleton_self n)]
        exact (and_iff_right (moved ..)).symm
      | _ => cases kind

end SemanticLayer.Formula.Node
