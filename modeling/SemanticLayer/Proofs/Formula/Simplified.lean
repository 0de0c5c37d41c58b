import SemanticLayer.Proofs.Formula.Rules

/-!
# What simplification keeps

Simplification builds nodes of constants and of parts it has simplified, so it keeps what a node
has from its parts.

* `Invariant`: a property of nodes, with a relation of each to what it becomes, that all rules keep;
* `Invariant.simplifyWith`: simplification keeps what its steps keep, and so does splitting
  (`Invariant.keeps_splitRatio`);
* `Hereditary.children`, `Hereditary.withChildren`: a property of all parts, of children and around
  them;
* `Hereditary.simplify`: a simplified node has such a property if the node has it;
* `isFilled_simplify`: a filled node is filled when it is simplified.
-/

namespace SemanticLayer.Formula

/-- Whether simplification makes calls of a function out of others. -/
def Function.isMade (f : Function) : Bool :=
  f = .iff || f = .lower || f = .toBool || f = .toNumber || f = .cumulative

namespace Node

variable {ctx : Context}

/-! ## Invariants -/

/-- A property of nodes, and a relation of each to what it becomes, that the rules of simplification
keep.  What calls and numeric operations become is free. -/
structure Invariant (ctx : Context) (p : Node → Prop) (r : Node → Node → Prop) : Prop where
  refl : ∀ n, r n n
  trans : ∀ {a b c}, r a b → r b c → r a c
  constant : ∀ (c : Constant) place, p (c.toNode place)
  binary : ∀ {op left right place}, p left → p right → p (.binary op left right place)
  call : ∀ {f n ns single place}, f.isMade = true → p n → (∀ m ∈ ns, p m) →
    p (.call f (n :: ns) single place)
  children : ∀ {n}, p n → n.rule ctx ≠ .kept → ∀ c ∈ n.children, p c
  withChildren : ∀ {n ms}, p n → n.rule ctx = .inside → (∀ m ∈ ms, p m) →
    List.Forall₂ r n.children ms → p (n.withChildren ms) ∧ r n (n.withChildren ms)
  ofConstant : ∀ {n c} place, n.constant? = some c → r n (c.toNode place)
  ofCall : ∀ {f ns single place} m, r (.call f ns single place) m
  ofNumeric : ∀ {op left right place} m, op.isNumeric = true → r (.binary op left right place) m

/-- Whether a step makes nodes with a property of nodes with that property, each in a relation to
the one before. -/
def Keeps (p : Node → Prop) (r : Node → Node → Prop) (step : Step) : Prop :=
  ∀ n m, step n = some m → p n → p m ∧ r n m

/-- Whether a node keeps a property and a relation when it is simplified, with any step that keeps
them. -/
def StaysWith (p : Node → Prop) (r : Node → Node → Prop) (ctx : Context) (split : Splitter)
    (n : Node) : Prop :=
  ∀ ⦃step m⦄, Keeps p r step → simplifyWith ctx split step n = some m → p n → p m ∧ r n m

theorem isNumeric_of_remaining {op : Operator} {l r : Node} (h : remaining ctx op l r ≠ .both) :
    op.isNumeric = true := by
  cases op <;> first | rfl | exact absurd rfl h

/-- Splitting changes nothing but ratios. -/
theorem eq_or_isVaryingRatio {depth : Nat} {step : Step} {time n s m : Node}
    (h : splitRatio ctx (depth + 1) step time n = some m) (hs : step n = some s) :
    m = s ∨ s.isVaryingRatio ctx = true := by
  rw [splitRatio, hs] at h
  cases ratio : s.isVaryingRatio ctx with
  | true => exact .inr rfl
  | false =>
    rw [Option.bind_eq_bind, Option.bind_some, ratio, if_neg Bool.false_ne_true] at h
    exact .inl (Option.some.inj h).symm

theorem isNumeric_of_isVaryingRatio {op : Operator} {l r : Node} {place : Location}
    (h : (Node.binary op l r place).isVaryingRatio ctx = true) : op.isNumeric = true := by
  cases op <;> first | rfl | cases h

theorem rule_binary_ne_kept (op : Operator) (l r : Node) (place : Location) :
    (Node.binary op l r place).rule ctx ≠ .kept := by
  intro kept
  rw [rule] at kept
  split at kept
  · cases kept
  · cases kept
  · split at kept <;> cases kept

namespace Invariant

variable {p : Node → Prop} {r : Node → Node → Prop} (hp : Invariant ctx p r)
include hp

theorem keeps_some : Keeps p r some := by
  intro a b hab ha
  cases hab
  exact ⟨ha, hp.refl a⟩

section
variable {step : Step} (hstep : Keeps p r step)
include hstep

theorem simplifiedTest {n simplified m : Node} {c : Constant} (hs : p simplified)
    (h : Node.simplifiedTest step n simplified c = some m) : p m := by
  unfold Node.simplifiedTest at h
  split at h
  · cases h
    exact hp.constant _ _
  · obtain ⟨left, hl, h⟩ := Option.bind_eq_some_iff.1 h
    obtain ⟨right, hr, h⟩ := Option.bind_eq_some_iff.1 h
    cases h
    exact hp.binary (hstep _ _ hl hs).1 (hstep _ _ hr (hp.constant c _)).1

theorem simplifiedChoice {test m : Node} {yes no : Constant} {constants place : Location}
    (ht : p test) (h : Node.simplifiedChoice step test yes no constants place = some m) : p m := by
  obtain ⟨t, y, n, ht', hy, hn, h⟩ := eq_of_simplifiedChoice h
  refine (hstep _ _ h (hp.call rfl (hstep _ _ ht' ht).1 ?_)).1
  intro c hc
  simp only [List.mem_cons, List.not_mem_nil, or_false] at hc
  rcases hc with rfl | rfl
  · exact (hstep _ _ hy (hp.constant yes _)).1
  · exact (hstep _ _ hn (hp.constant no _)).1

theorem testOfFalse {n simplified m : Node} (hs : p simplified)
    (h : Node.testOfFalse ctx step n simplified = some m) : p m := by
  unfold Node.testOfFalse at h
  split at h
  · exact hp.simplifiedTest hstep hs h
  · obtain ⟨s, hs', h⟩ := Option.bind_eq_some_iff.1 h
    have lower : p (.call .lower [s] false n.place) :=
      hp.call rfl (hstep _ _ hs' hs).1 (List.forall_mem_nil _)
    exact hp.simplifiedTest hstep lower h

end

theorem of_each {split : Splitter} {step : Step} (hstep : Keeps p r step) {ns ms : List Node}
    (each : List.Forall₂ (SimplifiedChild ctx split step) ns ms)
    (hns : ∀ n ∈ ns, ∀ m, Node.simplifyWith ctx split step n = some m → p m ∧ r n m) :
    (∀ m ∈ ms, p m) ∧ List.Forall₂ r ns ms := by
  induction each with
  | nil => exact ⟨List.forall_mem_nil _, .nil⟩
  | cons first _ ih =>
    obtain ⟨hfirst, hrest⟩ := List.forall_mem_cons.1 hns
    obtain ⟨s, hs, hm⟩ := first
    obtain ⟨ps, rs⟩ := hfirst s hs
    obtain ⟨pm, rm⟩ := hstep s _ hm ps
    obtain ⟨properties, relations⟩ := ih hrest
    exact ⟨List.forall_mem_cons.2 ⟨pm, properties⟩, .cons (hp.trans rs rm) relations⟩

variable {split : Splitter}

/-- Simplification keeps what its steps keep. -/
theorem simplifyWith
    (hsplit : ∀ step time, Keeps p r step → p time → Keeps p r (split step time)) (n : Node) :
    StaysWith p r ctx split n := by
  induction n using children_induction with
  | h n ih =>
    intro step m hstep h hn
    have rewritten := rewritten h
    by_cases kept : n.rule ctx = .kept
    · rw [kept] at rewritten
      cases rewritten
      exact ⟨hn, hp.refl n⟩
    have inside := hp.children hn kept
    have within (c : Node) (hc : c ∈ n.children) (s : Node)
        (h : Node.simplifyWith ctx split step c = some s) : p s ∧ r c s :=
      ih c hc hstep h (inside c hc)
    clear h kept
    generalize rule : n.rule ctx = k at rewritten
    cases rewritten with
    | kept => exact ⟨hn, hp.refl n⟩
    | inside each around =>
      obtain ⟨properties, relations⟩ := hp.of_each hstep each within
      rw [← around]
      exact hp.withChildren hn rule properties relations
    | left remains h =>
      exact ⟨(within _ (List.mem_cons_self ..) m h).1,
        hp.ofNumeric m (isNumeric_of_remaining (by rw [remains]; exact nofun))⟩
    | right remains h =>
      exact ⟨(within _ (List.mem_cons_of_mem _ (List.mem_singleton_self _)) m h).1,
        hp.ofNumeric m (isNumeric_of_remaining (by rw [remains]; exact nofun))⟩
    | folded value => exact ⟨hp.constant _ _, hp.ofConstant _ value⟩
    | first _ h => exact ⟨(within _ (List.mem_cons_self ..) m h).1, hp.ofCall m⟩
    | truth h tests chooses =>
      have test := hp.testOfFalse hstep (within _ (List.mem_cons_self ..) _ h).1 tests
      exact ⟨hp.call rfl (hp.simplifiedChoice hstep test chooses) (List.forall_mem_nil _),
        hp.ofCall _⟩
    | truthNumber h tests chooses precision =>
      have test := hp.simplifiedTest hstep (within _ (List.mem_cons_self ..) _ h).1 tests
      obtain ⟨rest, _⟩ := hp.of_each hstep precision fun c hc =>
        within c (List.mem_cons_of_mem _ (List.mem_of_mem_take hc))
      exact ⟨hp.call rfl (hp.simplifiedChoice hstep test chooses) rest, hp.ofCall _⟩
    | number each =>
      obtain ⟨arguments, _⟩ := hp.of_each hstep each fun c hc =>
        within c (List.mem_of_mem_take (i := 2) hc)
      cases each
      obtain ⟨value, precision⟩ := List.forall_mem_cons.1 arguments
      exact ⟨hp.call rfl value precision, hp.ofCall _⟩
    | split atTime h splits =>
      obtain ⟨htime, _⟩ := within _ (List.mem_cons_of_mem _ (List.mem_cons_self ..)) _ atTime
      have splitting := hsplit step _ hstep htime
      obtain ⟨hfirst, _⟩ := ih _ (List.mem_cons_self ..) splitting h
        (inside _ (List.mem_cons_self ..))
      exact ⟨(splitting _ m splits hfirst).1, hp.ofCall m⟩

/-- Splitting keeps what its steps keep: the sides of a ratio are simplified once more. -/
theorem keeps_splitRatio (depth : Nat) {step : Step} {time : Node} (hstep : Keeps p r step)
    (htime : p time) : Keeps p r (splitRatio ctx depth step time) := by
  induction depth generalizing step time with
  | zero =>
    intro n m h _
    cases h
  | succ depth ih =>
    have total {side s : Node} (hside : p side)
        (hs : Node.simplifyWith ctx (splitRatio ctx depth) (splitRatio ctx depth step time) side =
          some s) : p (.call .cumulative [s, time] false s.place) := by
      obtain ⟨simplified, _⟩ :=
        hp.simplifyWith (fun _ _ h h' => ih h h') side (ih hstep htime) hs hside
      exact hp.call rfl simplified (List.forall_mem_singleton.2 htime)
    intro n m split hn
    cases splitInto split with
    | whole h => exact hstep n m h hn
    | totals h left right =>
      obtain ⟨ratio, stepped⟩ := hstep n _ h hn
      obtain ⟨hl, hr⟩ := List.forall_mem_cons.1 (hp.children ratio (rule_binary_ne_kept _ _ _ _))
      refine ⟨hp.binary (total hl left) (total (List.forall_mem_singleton.1 hr) right), ?_⟩
      rcases eq_or_isVaryingRatio split h with same | varying
      · rw [same]
        exact stepped
      · exact hp.trans stepped (hp.ofNumeric _ (isNumeric_of_isVaryingRatio varying))

theorem simplify {n : Node} (hn : p n) : p (n.simplify ctx) ∧ r n (n.simplify ctx) := by
  unfold Node.simplify
  cases hs : n.simplify? ctx ((n.size + 2) * (n.size + 2)) with
  | none => exact ⟨hn, hp.refl n⟩
  | some s =>
    exact hp.simplifyWith (fun _ _ h h' => hp.keeps_splitRatio _ h h') n hp.keeps_some hs hn

/-- A whole formula is simplified inside. -/
theorem simplify_root {n : Node} {place : Location} (hn : p n) :
    ∃ m, (Node.root n place).simplify ctx = .root m place ∧ p m ∧ r n m := by
  unfold Node.simplify
  cases hs : (Node.root n place).simplify? ctx (((Node.root n place).size + 2) *
      ((Node.root n place).size + 2)) with
  | none => exact ⟨n, rfl, hn, hp.refl n⟩
  | some s =>
    unfold simplify? at hs
    rw [Node.simplifyWith] at hs
    obtain ⟨c, ⟨m, hm, same⟩, rfl⟩ := SimplifiedChild.of_bind hs
    cases same
    exact ⟨c, rfl, hp.simplifyWith (fun _ _ h h' => hp.keeps_splitRatio _ h h') n hp.keeps_some hm hn⟩

end Invariant

/-! ## Properties of all parts -/

/-- Whether a whole formula that has a property has it from what is inside. -/
def FromInside (p : Node → Prop) : Prop :=
  ∀ n place, p (.root n place) → p n ∧ ∀ m, p m → p (.root m place)

namespace Hereditary

variable {p : Node → Prop} (hp : Hereditary p) (roots : FromInside p)
include hp

theorem toNode (c : Constant) (place : Location) : p (c.toNode place) := by
  cases c with
  | int n => exact hp.integer n place
  | float x => exact hp.decimal x place
  | text s => exact hp.text s place
  | bool b => exact hp.bool b place

include roots

/-- Children have what the node has, unless they are moved. -/
theorem children {n : Node} (hn : p n) (other : n.rule ctx ≠ .kept) : ∀ c ∈ n.children, p c := by
  cases n with
  | integer | decimal | text | bool | column | taxon | «attribute» => exact List.forall_mem_nil _
  | paren => exact List.forall_mem_singleton.2 (hp.paren.1 hn)
  | computed => exact List.forall_mem_singleton.2 (hp.computed.1 hn)
  | not => exact List.forall_mem_singleton.2 (hp.not.1 hn)
  | isNull => exact List.forall_mem_singleton.2 (hp.isNull.1 hn)
  | root n place => exact List.forall_mem_singleton.2 (roots n place hn).1
  | binary =>
    obtain ⟨left, right⟩ := hp.binary.1 hn
    exact List.forall_mem_cons.2 ⟨left, List.forall_mem_singleton.2 right⟩
  | call f args =>
    cases args with
    | nil => exact List.forall_mem_nil _
    | cons => exact List.forall_mem_cons.2 (hp.call.1 hn)
  | transition => exact absurd rfl other

theorem withChildren {n : Node} {ms : List Node} (hn : p n) (other : n.rule ctx ≠ .kept)
    (hms : ∀ m ∈ ms, p m) (same : ms.length = n.children.length) : p (n.withChildren ms) := by
  cases n with
  | integer | decimal | text | bool | column | taxon | «attribute» => exact hn
  | paren =>
    obtain ⟨m, rfl⟩ := List.length_eq_one_iff.1 same
    exact hp.paren.2 (List.forall_mem_singleton.1 hms)
  | computed =>
    obtain ⟨m, rfl⟩ := List.length_eq_one_iff.1 same
    exact hp.computed.2 (List.forall_mem_singleton.1 hms)
  | not =>
    obtain ⟨m, rfl⟩ := List.length_eq_one_iff.1 same
    exact hp.not.2 (List.forall_mem_singleton.1 hms)
  | isNull =>
    obtain ⟨m, rfl⟩ := List.length_eq_one_iff.1 same
    exact hp.isNull.2 (List.forall_mem_singleton.1 hms)
  | root n place =>
    obtain ⟨m, rfl⟩ := List.length_eq_one_iff.1 same
    exact (roots n place hn).2 m (List.forall_mem_singleton.1 hms)
  | binary =>
    obtain ⟨l, r, rfl⟩ := List.length_eq_two.1 same
    obtain ⟨left, right⟩ := List.forall_mem_cons.1 hms
    exact hp.binary.2 ⟨left, List.forall_mem_singleton.1 right⟩
  | call f args =>
    cases ms with
    | nil =>
      cases List.length_eq_zero_iff.1 same.symm
      exact hn
    | cons => exact hp.call.2 (List.forall_mem_cons.1 hms)
  | transition => exact absurd rfl other

/-- The rules keep what a node has from its parts. -/
theorem invariant : Invariant ctx p fun _ _ => True where
  refl _ := trivial
  trans _ _ := trivial
  constant := hp.toNode
  binary hl hr := hp.binary.2 ⟨hl, hr⟩
  call _ hn hns := hp.call.2 ⟨hn, hns⟩
  children := hp.children roots
  withChildren hn inside hms each :=
    ⟨hp.withChildren roots hn (by rw [inside]; exact nofun) hms each.length_eq.symm, trivial⟩
  ofConstant _ _ := trivial
  ofCall _ := trivial
  ofNumeric _ _ := trivial

theorem simplify {n : Node} (hn : p n) : p (n.simplify ctx) :=
  ((hp.invariant roots).simplify hn).1

/-- A whole formula is simplified inside. -/
theorem simplify_root {n : Node} {place : Location} (hn : p n) :
    ∃ m, (Node.root n place).simplify ctx = .root m place ∧ p m := by
  obtain ⟨m, whole, inner, _⟩ := (hp.invariant roots).simplify_root hn
  exact ⟨m, whole, inner⟩

end Hereditary

/-- Simplification puts no transition into a node, and leaves no call without the argument it
changes. -/
theorem isFilled_simplify {n : Node} (h : n.isFilled = true) :
    (n.simplify ctx).isFilled = true := by
  have parts : Hereditary fun n => n.isFilled = true :=
    hereditary_isPlain fun f n ns => by rw [List.isEmpty_cons, Bool.not_false, Bool.or_true]
  exact parts.simplify (fun _ _ inner => ⟨inner, fun _ hm => hm⟩) h

end Node

end SemanticLayer.Formula
