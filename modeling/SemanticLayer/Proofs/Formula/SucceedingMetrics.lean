import SemanticLayer.Proofs.Formula.HeldMetrics
import SemanticLayer.Proofs.Formula.Steady

/-!
# What becomes of metrics

Simplification rewrites what stands around the metrics of a formula.

* `Node.Succeeds`: what becomes of a node in scope holds the same metrics, with ratios no deeper;
* `Node.ChangesRatios`, `Node.SplitsRatios`: steps that make ratios of ratios, or of totals;
* `Node.Tests`, `Node.eq_choice`: the conditions that conversions become;
* `Becomes.simplifyWith`: simplification makes nodes that succeed others, and whether they are
  constant can be told before (`Node.isFixed`).
-/

namespace SemanticLayer.Formula

/-- Whether what a rule makes of a call is constant exactly if its first argument is, once that is
simplified. -/
def Rule.passes (rule : Rule) : Bool := rule = .first || rule = .number || rule = .split

namespace Node

variable {ctx : Context}

/-- Whether a node is constant once it is simplified. -/
def isFixed (ctx : Context) : Node → Bool
  | .integer .. => true
  | .decimal .. => true
  | .text .. => true
  | .bool .. => true
  | .column .. => false
  | .taxon .. => false
  | .attribute .. => false
  | .computed _ n _ => n.isFixed ctx
  | .paren n _ => n.isFixed ctx
  | .binary _ l r _ => l.isFixed ctx && r.isFixed ctx
  | .not n _ => n.isFixed ctx
  | .isNull n _ _ => n.isFixed ctx
  | .call _ [] _ _ => false
  | .call f (first :: rest) single _ =>
    (callRule ctx f first rest single).passes && first.isFixed ctx
  | .transition _ n _ _ _ => n.isFixed ctx
  | .root n _ => n.isFixed ctx

theorem isFixed_of_constant? {n : Node} {c : Constant} (h : n.constant? = some c) :
    n.isFixed ctx = true := by
  induction n generalizing c with
  | column | taxon | modelAttribute | isNull | call => cases h
  | integer | decimal | text | bool => rfl
  | paren n _ ih | root n _ ih | computed _ n _ ih => exact ih h
  | transition _ n _ _ _ ih => exact ih h
  | not n _ ih =>
    obtain ⟨d, hd, _⟩ := Option.map_eq_some_iff.1 h
    exact ih hd
  | binary op l r _ hl hr =>
    obtain ⟨a, ha, h⟩ := Option.bind_eq_some_iff.1 h
    obtain ⟨b, hb, _⟩ := Option.bind_eq_some_iff.1 h
    rw [isFixed, hl ha, hr hb, Bool.and_self]

theorem isConstant_toNode (c : Constant) (place : Location) :
    ((c.toNode place).type ctx).isConstant = true := by
  cases c <;> rfl

/-- An operation whose operands are there is constant if both are. -/
theorem isConstant_binary {op : Operator} {l r : Node} {place : Location}
    (hl : l.isMissing ctx = false) (hr : r.isMissing ctx = false) :
    ((Node.binary op l r place).type ctx).isConstant =
      ((l.type ctx).isConstant && (r.type ctx).isConstant) := by
  rw [type, hl, hr]
  cases op <;> simp [operationType, Operator.isNumeric, ValueType.common, ValueType.withData]

theorem isConstant_of_isVaryingRatio {n : Node} (h : n.isVaryingRatio ctx = true)
    (whole : n.Whole ctx) : (n.type ctx).isConstant = false := by
  cases n with
  | binary op l r place =>
    obtain ⟨_, left, right⟩ := all_binary.1 whole
    cases op with
    | div =>
      rw [isVaryingRatio, Bool.and_eq_true, Bool.not_eq_true'] at h
      rw [isConstant_binary (Whole.present left) (Whole.present right), h.1, Bool.false_and]
    | _ => cases h
  | _ => cases h

/-- Whether a node is what becomes of another: in scope, with the same metrics, and with ratios no
deeper within each other. -/
structure Succeeds (ctx : Context) (n m : Node) : Prop where
  whole : m.Whole ctx
  metrics : ∀ r, r ∈ m.metrics ↔ r ∈ n.metrics
  divides : ∀ {h}, DividesWithin h n → DividesWithin h m

namespace Succeeds

theorem refl {n : Node} (h : n.Whole ctx) : Succeeds ctx n n := ⟨h, fun _ => .rfl, id⟩

theorem trans {a b c : Node} (h : Succeeds ctx a b) (h' : Succeeds ctx b c) : Succeeds ctx a c :=
  ⟨h'.whole, fun r => (h'.metrics r).trans (h.metrics r), fun within => h'.divides (h.divides within)⟩

theorem isFlat {n m : Node} (h : Succeeds ctx n m) (flat : n.IsFlat) : m.IsFlat where
  metrics := List.eq_nil_iff_forall_not_mem.2 fun r hr => by
    have none := (h.metrics r).1 hr
    rw [flat.metrics] at none
    cases none
  divisions := all_isDivision_of_dividesWithin_zero (h.divides (dividesWithin_of_all flat.divisions 0))

end Succeeds

/-- Whether a step changes nothing but ratios of varying values, and makes such ratios of them. -/
structure ChangesRatios (ctx : Context) (step : Step) : Prop where
  other : ∀ {n m}, step n = some m → n.isVaryingRatio ctx = false → m = n
  ratio : ∀ {n m}, step n = some m → n.isVaryingRatio ctx = true → n.Whole ctx →
    m.isVaryingRatio ctx = true ∧ Succeeds ctx n m

/-- Whether a step, besides, leaves no metric of a ratio outside of running totals. -/
structure SplitsRatios (ctx : Context) (step : Step) : Prop extends ChangesRatios ctx step where
  closed : ∀ {n m}, step n = some m → n.isVaryingRatio ctx = true → n.Whole ctx →
    m.openMetrics = []

/-- Whether a splitter makes such steps over each flat time, whatever the step before changes. -/
def IsSplitter (ctx : Context) (split : Splitter) : Prop :=
  ∀ step time, ChangesRatios ctx step → time.Whole ctx → time.IsFlat →
    SplitsRatios ctx (split step time)

theorem changesRatios_some : ChangesRatios ctx some where
  other h _ := (Option.some.inj h).symm
  ratio h ratio whole := by
    cases h
    exact ⟨ratio, .refl whole⟩

section
variable {step : Step} (hstep : ChangesRatios ctx step)
include hstep

namespace ChangesRatios

theorem succeeds {n m : Node} (h : step n = some m) (whole : n.Whole ctx) : Succeeds ctx n m := by
  cases ratio : n.isVaryingRatio ctx with
  | true => exact (hstep.ratio h ratio whole).2
  | false =>
    rw [hstep.other h ratio]
    exact .refl whole

theorem isVaryingRatio_eq {n m : Node} (h : step n = some m) (whole : n.Whole ctx) :
    m.isVaryingRatio ctx = n.isVaryingRatio ctx := by
  cases ratio : n.isVaryingRatio ctx with
  | true => exact (hstep.ratio h ratio whole).1
  | false => rw [hstep.other h ratio, ratio]

theorem isConstant_eq {n m : Node} (h : step n = some m) (whole : n.Whole ctx) :
    (m.type ctx).isConstant = (n.type ctx).isConstant := by
  cases ratio : n.isVaryingRatio ctx with
  | true =>
    obtain ⟨varying, after⟩ := hstep.ratio h ratio whole
    rw [isConstant_of_isVaryingRatio varying after.whole, isConstant_of_isVaryingRatio ratio whole]
  | false => rw [hstep.other h ratio]

end ChangesRatios

/-! ### Conversions that become conditions -/

/-- A test made of a node: a constant, or a comparison of the simplified node after the step. -/
inductive Tests (step : Step) (n simplified : Node) : Node → Prop
  | folded {d : Constant} (c : Constant) (place : Location) (value : n.constant? = some d) :
      Tests step n simplified (c.toNode place)
  | compared {s : Node} (c : Constant) (place : Location) (hs : step simplified = some s) :
      Tests step n simplified (.binary .eq s (c.toNode place) place)
  | lowered {s : Node} (c : Constant) (place place' : Location) (hs : step simplified = some s) :
      Tests step n simplified
        (.binary .eq (.call .lower [s] false place) (c.toNode place') place')

omit hstep in
theorem isVaryingRatio_toNode (c : Constant) (place : Location) :
    (c.toNode place).isVaryingRatio ctx = false := by
  cases c <;> rfl

theorem eq_of_simplifiedTest {n simplified test : Node} {c : Constant}
    (h : simplifiedTest step n simplified c = some test) :
    (∃ d folded, n.constant? = some d ∧ test = Constant.toNode folded n.place) ∨
      ∃ s, step simplified = some s ∧ test = .binary .eq s (c.toNode n.place) n.place := by
  unfold simplifiedTest at h
  split at h
  · rename_i folded value
    obtain ⟨d, hd, _⟩ := Option.bind_eq_some_iff.1 value
    exact .inl ⟨d, folded, hd, (Option.some.inj h).symm⟩
  · obtain ⟨s, hs, h⟩ := Option.bind_eq_some_iff.1 h
    obtain ⟨t, ht, h⟩ := Option.bind_eq_some_iff.1 h
    rw [hstep.other ht (isVaryingRatio_toNode c n.place)] at h
    exact .inr ⟨s, hs, (Option.some.inj h).symm⟩

theorem tests_of_simplifiedTest {n simplified test : Node} {c : Constant}
    (h : simplifiedTest step n simplified c = some test) : Tests step n simplified test := by
  rcases eq_of_simplifiedTest hstep h with ⟨d, folded, value, rfl⟩ | ⟨s, hs, rfl⟩
  · exact .folded folded _ value
  · exact .compared c _ hs

theorem tests_of_testOfFalse {n simplified test : Node}
    (h : testOfFalse ctx step n simplified = some test) : Tests step n simplified test := by
  unfold testOfFalse at h
  split at h
  · exact tests_of_simplifiedTest hstep h
  · obtain ⟨s, hs, h⟩ := Option.bind_eq_some_iff.1 h
    rcases eq_of_simplifiedTest hstep h with ⟨_, _, value, _⟩ | ⟨s', hs', rfl⟩
    · cases value
    · rw [hstep.other hs' rfl]
      exact .lowered _ _ _ hs

theorem eq_choice {test choice : Node} {yes no : Constant} {constants place : Location}
    (plain : test.isVaryingRatio ctx = false)
    (h : simplifiedChoice step test yes no constants place = some choice) :
    choice = .call .iff [test, yes.toNode constants, no.toNode constants] false place := by
  obtain ⟨t, y, n, ht, hy, hn, h⟩ := eq_of_simplifiedChoice h
  rw [hstep.other ht plain, hstep.other hy (isVaryingRatio_toNode yes constants),
    hstep.other hn (isVaryingRatio_toNode no constants)] at h
  exact hstep.other h rfl

end

section
variable {step : Step} {n simplified test : Node} (h : Tests step n simplified test)
include h

theorem Tests.isVaryingRatio_eq : test.isVaryingRatio ctx = false := by
  cases h with
  | folded c place => exact isVaryingRatio_toNode c place
  | compared | lowered => rfl

theorem Tests.whole (stepped : ∀ s, step simplified = some s → s.Whole ctx) : test.Whole ctx := by
  cases h with
  | folded c place => exact whole_toNode c place
  | compared c place hs => exact whole_binary (stepped _ hs) (whole_toNode c place)
  | lowered c place place' hs =>
    refine whole_binary (whole_call ?_ (List.forall_mem_nil _) ?_) (whole_toNode c place')
    · rw [isMissing_call, List.map_singleton, (stepped _ hs).present]
      rfl
    · exact List.forall_mem_singleton.2 (stepped _ hs)

theorem Tests.divides {k : Nat} (stepped : ∀ s, step simplified = some s → DividesWithin k s) :
    DividesWithin k test := by
  have constant (c : Constant) (place : Location) : DividesWithin k (c.toNode place) := by
    cases c <;> exact .other rfl (List.forall_mem_nil _)
  cases h with
  | folded c place => exact constant c place
  | compared c place hs =>
    exact .other rfl (List.forall_mem_cons.2
      ⟨stepped _ hs, List.forall_mem_singleton.2 (constant c place)⟩)
  | lowered c place place' hs =>
    have lower : DividesWithin k (.call .lower [_] false place) :=
      .other rfl (List.forall_mem_singleton.2 (stepped _ hs))
    exact .other rfl (List.forall_mem_cons.2
      ⟨lower, List.forall_mem_singleton.2 (constant c place')⟩)

end

section
variable {into : Node → Bool} {r : Node} (through : ∀ n, n.isTotal = false → into n = true)
include through

theorem mem_metricsThrough_call {f : Function} {args : List Node} {single : Bool}
    {place : Location} (other : f ≠ .cumulative) :
    r ∈ (Node.call f args single place).metricsThrough into ↔
      ∃ n ∈ args, r ∈ n.metricsThrough into := by
  have notTotal : (Node.call f args single place).isTotal = false := by
    cases f <;> first | rfl | exact absurd rfl other
  rw [mem_metricsThrough, through _ notTotal]
  simp [isMetricUse, children]

omit through in
theorem metricsThrough_toNode (c : Constant) (place : Location) :
    (c.toNode place).metricsThrough into = [] := by
  cases c <;> rfl

/-- A condition that a conversion becomes holds what its test does. -/
theorem mem_metricsThrough_choice {test : Node} {yes no : Constant} {constants place : Location} :
    r ∈ (Node.call .iff [test, yes.toNode constants, no.toNode constants] false
      place).metricsThrough into ↔ r ∈ test.metricsThrough into := by
  rw [mem_metricsThrough_call through (by decide)]
  simp [metricsThrough_toNode]

/-- A test holds what the node it is made of does. -/
theorem Tests.mem_metricsThrough {step : Step} {n simplified test : Node} {q : Prop}
    (h : Tests step n simplified test) (constant : ∀ c, n.constant? = some c → ¬q)
    (stepped : ∀ s, step simplified = some s → (r ∈ s.metricsThrough into ↔ q)) :
    r ∈ test.metricsThrough into ↔ q := by
  have compared (s : Node) (c : Constant) (place : Location) :
      r ∈ (Node.binary .eq s (c.toNode place) place).metricsThrough into ↔
        r ∈ s.metricsThrough into := by
    rw [Node.mem_metricsThrough, through _ rfl]
    simp [isMetricUse, children, metricsThrough_toNode]
  cases h with
  | folded c place value =>
    rw [metricsThrough_toNode]
    exact iff_of_false List.not_mem_nil (constant _ value)
  | compared c place hs => rw [compared, stepped _ hs]
  | lowered c place place' hs =>
    rw [compared, mem_metricsThrough_call through (by decide)]
    simp [stepped _ hs]

end

theorem whole_choice {test : Node} {yes no : Constant} {constants place : Location}
    (h : test.Whole ctx) :
    (Node.call .iff [test, yes.toNode constants, no.toNode constants] false place).Whole ctx := by
  have there : (no.toNode constants).isMissing ctx = false := isMissing_toNode no constants
  refine whole_call (isMissing_choice place there) (List.forall_mem_nil _) ?_
  exact List.forall_mem_cons.2 ⟨h, List.forall_mem_cons.2
    ⟨whole_toNode yes constants, List.forall_mem_singleton.2 (whole_toNode no constants)⟩⟩

theorem dividesWithin_choice {k : Nat} {test : Node} {yes no : Constant}
    {constants place : Location} (h : DividesWithin k test) :
    DividesWithin k
      (.call .iff [test, yes.toNode constants, no.toNode constants] false place) := by
  have constant (c : Constant) : DividesWithin k (c.toNode constants) := by
    cases c <;> exact .other rfl (List.forall_mem_nil _)
  exact .other rfl (List.forall_mem_cons.2 ⟨h, List.forall_mem_cons.2
    ⟨constant yes, List.forall_mem_singleton.2 (constant no)⟩⟩)

/-! ### Simplification -/

/-- Whether a node is what becomes of a child: it succeeds it, and is constant exactly if the child
is once it is simplified. -/
structure Becomes (ctx : Context) (n m : Node) : Prop extends Succeeds ctx n m where
  isConstant : (m.type ctx).isConstant = n.isFixed ctx

theorem ChangesRatios.becomes {step : Step} (hstep : ChangesRatios ctx step) {n s m : Node}
    (h : Becomes ctx n s) (hm : step s = some m) : Becomes ctx n m where
  toSucceeds := h.toSucceeds.trans (hstep.succeeds hm h.whole)
  isConstant := (hstep.isConstant_eq hm h.whole).trans h.isConstant

/-- What holds of each child and what is made of it. -/
theorem forall₂_of_each {split : Splitter} {step : Step} {rel : Node → Node → Prop}
    {ns ms : List Node} (each : List.Forall₂ (SimplifiedChild ctx split step) ns ms)
    (h : ∀ n ∈ ns, ∀ s, Node.simplifyWith ctx split step n = some s → ∀ m, step s = some m →
      rel n m) : List.Forall₂ rel ns ms := by
  induction each with
  | nil => exact .nil
  | cons first _ ih =>
    obtain ⟨hfirst, hrest⟩ := List.forall_mem_cons.1 h
    obtain ⟨s, hs, hm⟩ := first
    exact .cons (hfirst s hs _ hm) (ih hrest)

theorem Becomes.of_each {split : Splitter} {step : Step} (hstep : ChangesRatios ctx step)
    {ns ms : List Node} (each : List.Forall₂ (SimplifiedChild ctx split step) ns ms)
    (hns : ∀ n ∈ ns, ∀ m, Node.simplifyWith ctx split step n = some m → Becomes ctx n m) :
    List.Forall₂ (Becomes ctx) ns ms :=
  forall₂_of_each each fun n hn s hs _ hm => hstep.becomes (hns n hn s hs) hm

theorem exists_mem_congr_of_forall₂ {α β : Type} {rel : α → β → Prop} {p : α → Prop}
    {q : β → Prop} {xs : List α} {ys : List β} (h : List.Forall₂ rel xs ys)
    (congr : ∀ x y, rel x y → (q y ↔ p x)) : (∃ y ∈ ys, q y) ↔ ∃ x ∈ xs, p x := by
  induction h with
  | nil => simp
  | cons first _ ih => rw [List.exists_mem_cons_iff, List.exists_mem_cons_iff, congr _ _ first, ih]

section
variable {n : Node} {ms : List Node}

/-- Around other nodes, a node is of the same kind. -/
theorem sameKind_withChildren (h : ms.length = n.children.length) :
    (n.withChildren ms).isMetricUse = n.isMetricUse ∧
      (n.withChildren ms).isTransition = n.isTransition ∧
      (n.withChildren ms).isDivision = n.isDivision ∧
      (n.withChildren ms).isTotal = n.isTotal := by
  cases n with
  | integer | decimal | text | bool | column | taxon | «attribute» => exact ⟨rfl, rfl, rfl, rfl⟩
  | paren | not | isNull | transition | root | computed =>
    obtain ⟨m, rfl⟩ := List.length_eq_one_iff.1 h
    exact ⟨rfl, rfl, rfl, rfl⟩
  | binary op =>
    obtain ⟨l, r, rfl⟩ := List.length_eq_two.1 h
    cases op <;> exact ⟨rfl, rfl, rfl, rfl⟩
  | call f => cases f <;> exact ⟨rfl, rfl, rfl, rfl⟩

theorem forall₂_options {rel : Node → Node → Prop} (each : List.Forall₂ rel n.children ms) :
    List.Forall₂ rel n.options (n.withChildren ms).options := by
  cases n with
  | integer | decimal | text | bool | column | taxon | «attribute» => exact .nil
  | paren | not | isNull | transition | root | computed =>
    obtain ⟨m, rfl⟩ := List.length_eq_one_iff.1 each.length_eq.symm
    exact .nil
  | binary =>
    obtain ⟨l, r, rfl⟩ := List.length_eq_two.1 each.length_eq.symm
    exact .nil
  | call =>
    rw [withChildren, options, options]
    split
    · exact List.forall₂_drop 1 each
    · exact .nil

/-- A metric is reached around other nodes as it is reached in the node, if each of them holds what
the child does. -/
theorem mem_metricsThrough_withChildren {into into' : Node → Bool} {r : Node}
    {rel : Node → Node → Prop} (each : List.Forall₂ rel n.children ms)
    (congr : ∀ c m, rel c m → (r ∈ m.metricsThrough into ↔ r ∈ c.metricsThrough into'))
    (same : into (n.withChildren ms) = into' n) :
    r ∈ (n.withChildren ms).metricsThrough into ↔ r ∈ n.metricsThrough into' := by
  obtain ⟨use, _⟩ := sameKind_withChildren each.length_eq.symm
  have own : r = n.withChildren ms ∧ n.isMetricUse = true ↔ r = n ∧ n.isMetricUse = true := by
    refine and_congr_left fun use => ?_
    cases n with
    | taxon | «attribute» => rfl
    | _ => cases use
  rw [mem_metricsThrough, mem_metricsThrough, children_withChildren each.length_eq.symm, same, use,
    exists_mem_congr_of_forall₂ each congr, own]

end

theorem isConstant_type {f : Function} (other : f ≠ .toNumber) (ts : List ValueType) :
    (f.type ts).isConstant = false := by
  cases f <;> first | rfl | exact absurd rfl other

section
variable {n : Node} {ms : List Node} (each : List.Forall₂ (Becomes ctx) n.children ms)
include each

/-- Nodes that become of the children stay around the node as constant as they are. -/
theorem isConstant_withChildren (inside : n.rule ctx = .inside) :
    ((n.withChildren ms).type ctx).isConstant = n.isFixed ctx := by
  cases n with
  | integer | decimal | text | bool | column | «attribute» => rfl
  | taxon u place =>
    change ((Node.taxon u place).type ctx).isConstant = false
    rw [type]
    split <;> rfl
  | paren | not | computed | isNull | root =>
    obtain ⟨m, _, same, rest, rfl⟩ := List.forall₂_cons_left_iff.1 each
    cases rest
    exact same.isConstant
  | transition => cases inside
  | binary op l r place =>
    obtain ⟨l', _, left, others, rfl⟩ := List.forall₂_cons_left_iff.1 each
    obtain ⟨r', _, right, rest, rfl⟩ := List.forall₂_cons_left_iff.1 others
    cases rest
    rw [withChildren, isConstant_binary left.whole.present right.whole.present, left.isConstant,
      right.isConstant, isFixed]
  | call f args single place =>
    have fixed : (Node.call f args single place).isFixed ctx = false := by
      cases args with
      | nil => rfl
      | cons first rest =>
        rw [rule] at inside
        rw [isFixed, inside]
        rfl
    rw [withChildren, type, fixed]
    by_cases number : f = .toNumber
    · subst number
      cases args with
      | nil =>
        cases each
        rfl
      | cons first rest =>
        rw [rule, callRule] at inside
        split_ifs at inside
    · exact isConstant_type number _

theorem Succeeds.withChildren (whole : n.Whole ctx) : Succeeds ctx n (n.withChildren ms) := by
  obtain ⟨⟨present, unmoved, flat⟩, below⟩ := all_iff.1 whole
  obtain ⟨_, moved, division, _⟩ := sameKind_withChildren each.length_eq.symm
  have inScope : List.Forall₂ (fun c m => c.Whole ctx ∧ Becomes ctx c m) n.children ms :=
    (List.forall₂_and_left _ _).2 ⟨below, each⟩
  have same : AreAsMissing ctx n.children ms :=
    inScope.imp fun c m ⟨hc, becomes⟩ => becomes.whole.present.trans (Whole.present hc).symm
  refine ⟨all_iff.2 ⟨⟨?_, moved.trans unmoved, ?_⟩, ?_⟩, fun r => ?_, fun within => ?_⟩
  · exact (isMissing_withChildren same).trans present
  · exact forall_mem_of_forall₂ (forall₂_options each) (fun _ _ becomes => becomes.isFlat) flat
  · rw [children_withChildren each.length_eq.symm]
    exact forall_mem_of_forall₂ each (fun _ _ becomes _ => becomes.whole) below
  · exact mem_metricsThrough_withChildren each (fun _ _ becomes => becomes.metrics r) rfl
  · cases within with
    | ratio place left right =>
      obtain ⟨l', _, becomesLeft, others, rfl⟩ := List.forall₂_cons_left_iff.1 each
      obtain ⟨r', _, becomesRight, rest, rfl⟩ := List.forall₂_cons_left_iff.1 others
      cases rest
      exact .ratio place (becomesLeft.divides left) (becomesRight.divides right)
    | other own within =>
      refine .other (division.trans own) ?_
      rw [children_withChildren each.length_eq.symm]
      exact forall_mem_of_forall₂ each (fun _ _ becomes => becomes.divides) within

end

/-- What becomes of the first argument of a call becomes of the call, if the others are flat. -/
theorem Succeeds.of_first {f : Function} {first m : Node} {rest : List Node} {single : Bool}
    {place : Location} (flat : ∀ c ∈ rest, c.IsFlat) (h : Succeeds ctx first m) :
    Succeeds ctx (.call f (first :: rest) single place) m where
  whole := h.whole
  metrics r := by
    rw [h.metrics, mem_metrics (n := .call f (first :: rest) single place)]
    simp only [isMetricUse, children, Bool.false_eq_true, and_false, false_or,
      List.exists_mem_cons_iff]
    refine (or_iff_left ?_).symm
    rintro ⟨c, hc, hr⟩
    rw [(flat c hc).metrics] at hr
    cases hr
  divides within := h.divides (within.child first (List.mem_cons_self ..))

/-- What becomes of a node still does so in a conversion or a running total with flat options. -/
theorem Succeeds.call {f : Function} {n m : Node} {ms : List Node} {single : Bool}
    {place : Location} (kind : f.isConversion || f = .cumulative) (h : Succeeds ctx n m)
    (whole : ∀ c ∈ ms, c.Whole ctx) (flat : ∀ c ∈ ms, c.IsFlat) :
    Succeeds ctx n (.call f (m :: ms) single place) where
  whole := by
    have args : ∀ c ∈ m :: ms, c.Whole ctx := List.forall_mem_cons.2 ⟨h.whole, whole⟩
    refine whole_call ?_ ?_ args
    · rw [isMissing_call]
      have present := any_isMissing_of_present fun c hc => (args c hc).present
      cases f with
      | toText | toDate | toBool | toNumber | cumulative => exact present
      | _ => cases kind
    · rw [options, kind, Bool.true_or]
      exact flat
  metrics r := by
    rw [← h.metrics, mem_metrics (n := .call f (m :: ms) single place)]
    simp only [isMetricUse, children, Bool.false_eq_true, and_false, false_or,
      List.exists_mem_cons_iff]
    refine or_iff_left ?_
    rintro ⟨c, hc, hr⟩
    rw [(flat c hc).metrics] at hr
    cases hr
  divides within := .other rfl (List.forall_mem_cons.2
    ⟨h.divides within, fun c hc => dividesWithin_of_all (flat c hc).divisions _⟩)

theorem Tests.succeeds {step : Step} {n simplified test : Node} (h : Tests step n simplified test)
    (yes no : Constant) (constants place : Location)
    (stepped : ∀ s, step simplified = some s → Succeeds ctx n s) :
    Succeeds ctx n
      (.call .iff [test, yes.toNode constants, no.toNode constants] false place) where
  whole := whole_choice (h.whole fun s hs => (stepped s hs).whole)
  metrics r := by
    have through : ∀ n : Node, n.isTotal = false → (fun _ => true : Node → Bool) n = true :=
      fun _ _ => rfl
    rw [metrics, mem_metricsThrough_choice through]
    exact h.mem_metricsThrough through (fun c hc => not_mem_metrics_of_constant? hc r)
      fun s hs => (stepped s hs).metrics r
  divides within := dividesWithin_choice (h.divides fun s hs => (stepped s hs).divides within)

theorem remaining_of_present {op : Operator} {l r : Node} (hl : l.isMissing ctx = false)
    (hr : r.isMissing ctx = false) : remaining ctx op l r = .both := by
  unfold remaining
  rw [hl, hr]
  cases op <;> rfl

/-- What simplification makes of a node in scope becomes of it. -/
theorem Becomes.simplifyWith {split : Splitter} (hsplit : IsSplitter ctx split) (n : Node) :
    ∀ ⦃step m⦄, ChangesRatios ctx step → Node.simplifyWith ctx split step n = some m →
      n.Whole ctx → Becomes ctx n m := by
  induction n using children_induction with
  | h n ih =>
    intro step m hstep h whole
    obtain ⟨own, below⟩ := all_iff.1 whole
    have within (c : Node) (hc : c ∈ n.children) (s : Node)
        (h : Node.simplifyWith ctx split step c = some s) : Becomes ctx c s :=
      ih c hc hstep h (below c hc)
    have rewritten := rewritten h
    generalize ruled : n.rule ctx = k at rewritten
    clear h
    cases rewritten with
    | kept =>
      have moved := own.unmoved
      rw [isTransition_of_rule ruled] at moved
      cases moved
    | inside each around =>
      have becomes := Becomes.of_each hstep each within
      rw [← around]
      exact ⟨Succeeds.withChildren becomes whole, isConstant_withChildren becomes ruled⟩
    | left remains | right remains =>
      obtain ⟨_, left, right⟩ := all_binary.1 whole
      rw [remaining_of_present (Whole.present left) (Whole.present right)] at remains
      cases remains
    | @folded op l r c place value =>
      have none (r : Node) : r ∉ (c.toNode place).metrics := by
        rw [metrics_toNode]
        exact List.not_mem_nil
      refine ⟨⟨whole_toNode c place, fun r => iff_of_false (none r) ?_, fun _ => ?_⟩, ?_⟩
      · exact not_mem_metrics_of_constant? value r
      · cases c <;> exact .other rfl (List.forall_mem_nil _)
      · rw [isConstant_toNode, isFixed_of_constant? value]
    | @first f first _ rest single place _ h =>
      have becomes := within first (List.mem_cons_self ..) m h
      have flat : ∀ c ∈ rest, c.IsFlat := fun c hc =>
        own.options c (mem_options_of_rule (by rw [ruled]; decide) c hc)
      refine ⟨.of_first flat becomes.toSucceeds, becomes.isConstant.trans ?_⟩
      rw [isFixed, show callRule ctx f first rest single = .first from ruled]
      rfl
    | @truth first simplified test choice rest single place h tests chooses =>
      have tests := tests_of_testOfFalse hstep tests
      rw [eq_choice hstep tests.isVaryingRatio_eq chooses]
      have becomes := within first (List.mem_cons_self ..) simplified h
      have choice := tests.succeeds (.bool false) (.bool true) first.place place
        fun s hs => (hstep.becomes becomes hs).toSucceeds
      refine ⟨.of_first own.options (choice.call rfl (List.forall_mem_nil _)
        (List.forall_mem_nil _)), ?_⟩
      rw [isFixed, show callRule ctx .toBool first rest single = .truth from ruled]
      rfl
    | @truthNumber first simplified test choice rest ms single place h tests chooses precision =>
      have tests := tests_of_simplifiedTest hstep tests
      rw [eq_choice hstep tests.isVaryingRatio_eq chooses]
      have becomes := within first (List.mem_cons_self ..) simplified h
      have choice := tests.succeeds (.int 1) (.int 0) first.place place
        fun s hs => (hstep.becomes becomes hs).toSucceeds
      have further := Becomes.of_each hstep precision fun c hc =>
        within c (List.mem_cons_of_mem _ (List.mem_of_mem_take hc))
      have flat := forall_mem_of_forall₂ further (fun _ _ becomes => becomes.isFlat)
        fun c hc => own.options c (List.mem_of_mem_take hc)
      have whole := forall_mem_of_forall₂ (p := fun _ => True) further
        (fun _ _ becomes _ => becomes.whole) fun _ _ => trivial
      refine ⟨.of_first own.options (choice.call rfl whole flat), ?_⟩
      rw [isFixed, show callRule ctx .toNumber first rest single = .truthNumber from ruled]
      rfl
    | @number first rest ms single place each =>
      have becomes := Becomes.of_each hstep each fun c hc =>
        within c (List.mem_of_mem_take (i := 2) hc)
      cases becomes with
      | cons becomes further =>
        have flat := forall_mem_of_forall₂ further (fun _ _ becomes => becomes.isFlat)
          fun c hc => own.options c (List.mem_of_mem_take hc)
        have whole := forall_mem_of_forall₂ (p := fun _ => True) further
          (fun _ _ becomes _ => becomes.whole) fun _ _ => trivial
        refine ⟨.of_first own.options (becomes.toSucceeds.call rfl whole flat), ?_⟩
        rw [isFixed, show callRule ctx .toNumber first rest single = .number from ruled]
        exact becomes.isConstant
    | @split first time time' simplified _ rest single place atTime h splits =>
      have timeIn := List.mem_cons_of_mem first (List.mem_cons_self (a := time) (l := rest))
      have becomesTime := within time timeIn time' atTime
      have splitting := (hsplit step time' hstep becomesTime.whole
        (becomesTime.isFlat (own.options time (List.mem_cons_self ..)))).toChangesRatios
      have becomes := splitting.becomes
        (ih first (List.mem_cons_self ..) splitting h (below first (List.mem_cons_self ..))) splits
      refine ⟨.of_first own.options becomes.toSucceeds, becomes.isConstant.trans ?_⟩
      rw [isFixed, show callRule ctx .cumulative first (time :: rest) single = .split from ruled]
      rfl

end Node

end SemanticLayer.Formula
