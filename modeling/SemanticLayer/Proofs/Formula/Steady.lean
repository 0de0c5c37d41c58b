import SemanticLayer.Proofs.Formula.Rules

/-!
# Values that are missing once they are simplified

Simplification can lose that a value is missing, where its rule leaves children out of account:
operations on constants become constants, conversions disappear or become conditions, and running
totals of ratios are split.  A node is steady if simplification, however often it is done, loses
nothing that is missing.  That matters within running totals of ratios, whose sides are simplified
once more.

* `isMissing_of_rewritten`: whether what a rule makes of a node is missing;
* `keepsMissing_iff`: a node keeps whether it is missing exactly if its rule heeds what is missing;
* `all_keepsMissing_iff`: this for all parts of a node;
* `isMissing_of_constant?`: no constant is missing where computed taxons are as missing as what they
  are computed from;
* `StandsFor.simplifyWith`, `keepsSteady_splitRatio`: a steady node is steady, and as missing as
  before, when it is simplified and its ratios are split;
* `keepsMissing_iff_heedsScope`: what simplification keeps of a formula that is read.
-/

namespace SemanticLayer.Formula

/-- Whether what a rule makes of a node is missing, from whether its children are; none where that
is as with the node itself. -/
def Rule.leaves? : Rule → List Bool → Option Bool
  | .folded, _ => some false
  | .first, children => some ((children.take 1).any id)
  | .truth, _ => some false
  | .truthNumber, children => some (((children.drop 1).take 1).any id)
  | .number, children => some ((children.take 2).any id)
  | _, _ => none

namespace Node

variable {ctx : Context}

/-- Whether a node can be simplified, with ratios split deep enough. -/
def Simplifies (ctx : Context) (n : Node) : Prop := ∃ depth m, n.simplify? ctx depth = some m

/-- Whether a simplified node is missing exactly if the node is. -/
def KeepsMissing (ctx : Context) (n : Node) : Prop :=
  ∀ depth m, n.simplify? ctx depth = some m → m.isMissing ctx = n.isMissing ctx

/-- Whether the rule for a node heeds all that is missing. -/
structure HeedsScope (ctx : Context) (n : Node) : Prop where
  leaves : n.Simplifies ctx → ∀ missing,
    (n.rule ctx).leaves? (n.children.map (isMissing ctx)) = some missing →
      n.isMissing ctx = missing
  split : n.rule ctx = .split → n.KeepsMissing ctx

theorem KeepsMissing.simplify {n : Node} (h : n.KeepsMissing ctx) :
    (n.simplify ctx).isMissing ctx = n.isMissing ctx := by
  unfold Node.simplify
  cases hm : n.simplify? ctx ((n.size + 2) * (n.size + 2)) with
  | none => rfl
  | some m => exact h _ m hm

/-! ## What each rule makes of a node -/

theorem isMissing_toNode (c : Constant) (place : Location) :
    (c.toNode place).isMissing ctx = false := by
  cases c <;> rfl

theorem isMissing_of_remaining_left {op : Operator} {l r : Node} (place : Location)
    (h : remaining ctx op l r = .left) :
    (Node.binary op l r place).isMissing ctx = l.isMissing ctx := by
  unfold remaining at h
  split at h
  · cases h
  · rename_i left _
    rw [isMissing, left, Bool.false_and]
  · rw [isMissing]
  · cases h

theorem isMissing_of_remaining_right {op : Operator} {l r : Node} (place : Location)
    (h : remaining ctx op l r = .right) :
    (Node.binary op l r place).isMissing ctx = r.isMissing ctx := by
  unfold remaining at h
  split at h
  · rename_i left
    rw [isMissing, left, Bool.true_and]
  · cases h
  · cases h
  · cases h

/-- A condition with an outcome where no test holds is there. -/
theorem isMissing_choice {test yes no : Node} (place : Location) (h : no.isMissing ctx = false) :
    (Node.call .iff [test, yes, no] false place).isMissing ctx = false := by
  rw [isMissing_call]
  simp [Function.isMissing, Function.isMissing.conditionIsMissing, Condition.otherwise?,
    Condition.hasOtherwise, h]

theorem isMissing_of_simplifiedChoice {test choice : Node} {yes no : Constant}
    {constants place : Location}
    (h : simplifiedChoice some test yes no constants place = some choice) :
    choice.isMissing ctx = false := by
  obtain ⟨t, y, n, _, _, hn, h⟩ := eq_of_simplifiedChoice h
  cases hn
  cases h
  exact isMissing_choice place (isMissing_toNode no constants)

theorem areAsMissing_of_each {depth : Nat} {ns ms : List Node}
    (each : List.Forall₂ (SimplifiedChild ctx (splitRatio ctx depth) some) ns ms)
    (keeps : ∀ n ∈ ns, n.KeepsMissing ctx) : AreAsMissing ctx ns ms := by
  induction each with
  | nil => exact .nil
  | cons first _ ih =>
    obtain ⟨keepsFirst, keepsRest⟩ := List.forall_mem_cons.1 keeps
    obtain ⟨s, hs, same⟩ := first
    cases same
    exact .cons (keepsFirst depth _ hs) (ih keepsRest)

/-- Whether what a rule makes of a node is missing, if its children keep whether they are. -/
theorem isMissing_of_rewritten {depth : Nat} {rule : Rule} {n m : Node}
    (h : Rewritten ctx (splitRatio ctx depth) some rule n m) (other : rule ≠ .split)
    (keeps : ∀ c ∈ n.children, c.KeepsMissing ctx) :
    m.isMissing ctx =
      (rule.leaves? (n.children.map (isMissing ctx))).getD (n.isMissing ctx) := by
  cases h with
  | kept => rfl
  | inside each around =>
    rw [← around]
    exact isMissing_withChildren (areAsMissing_of_each each keeps)
  | left remains h =>
    rw [keeps _ (List.mem_cons_self ..) depth m h]
    exact (isMissing_of_remaining_left _ remains).symm
  | right remains h =>
    rw [keeps _ (List.mem_cons_of_mem _ (List.mem_singleton_self _)) depth m h]
    exact (isMissing_of_remaining_right _ remains).symm
  | folded => exact isMissing_toNode _ _
  | first _ h =>
    rw [keeps _ (List.mem_cons_self ..) depth m h]
    exact (Bool.or_false _).symm
  | truth _ _ chooses =>
    rw [isMissing_call, List.map_singleton, isMissing_of_simplifiedChoice chooses]
    rfl
  | truthNumber _ _ chooses precision =>
    have same := areAsMissing_of_each precision fun c hc =>
      keeps c (List.mem_cons_of_mem _ (List.mem_of_mem_take hc))
    rw [isMissing_call, List.map_cons, isMissing_of_simplifiedChoice chooses, same.map_eq,
      List.map_take]
    rfl
  | number each =>
    have same := areAsMissing_of_each each fun c hc =>
      keeps c (List.mem_of_mem_take (i := 2) hc)
    rw [isMissing_call, same.map_eq, List.map_cons, List.map_take]
    rfl
  | split => exact absurd rfl other

/-- A node keeps whether it is missing exactly if its rule heeds all that is missing, where its
children keep it. -/
theorem keepsMissing_iff {n : Node} (keeps : ∀ c ∈ n.children, c.KeepsMissing ctx) :
    n.KeepsMissing ctx ↔ n.HeedsScope ctx := by
  constructor
  · intro own
    refine ⟨fun ⟨depth, m, h⟩ missing leaves => ?_, fun _ => own⟩
    have other : n.rule ctx ≠ .split := fun split => by
      rw [split] at leaves
      cases leaves
    rw [← own depth m h, isMissing_of_rewritten (rewritten h) other keeps, leaves]
    rfl
  · intro heeds depth m h
    by_cases split : n.rule ctx = .split
    · exact heeds.split split depth m h
    · rw [isMissing_of_rewritten (rewritten h) split keeps]
      cases leaves : (n.rule ctx).leaves? (n.children.map (isMissing ctx)) with
      | none => rfl
      | some missing => exact (heeds.leaves ⟨depth, m, h⟩ missing leaves).symm

theorem all_keepsMissing_iff (n : Node) : n.All (KeepsMissing ctx) ↔ n.All (HeedsScope ctx) := by
  induction n using children_induction with
  | h n ih =>
    rw [all_iff, all_iff, forall₂_congr ih]
    refine and_congr_left fun below => keepsMissing_iff fun c hc => ?_
    exact (ih c hc).2 (below c hc) c (mem_parts_self c)

end Node

end SemanticLayer.Formula

namespace SemanticLayer.Formula

/-- The arguments that a call needs to be steady. -/
def Function.needed {α : Type} (f : Function) (args : List α) : List α :=
  if f.isConversion then args else if f = .cumulative then args.drop 1 else []

namespace Node

variable {ctx : Context}

/-- Whether a computed taxon that is out of scope has a calculation that is missing, and a
conversion or a running total has the arguments it needs. -/
def IsSettled (ctx : Context) : Node → Prop
  | .computed u n _ => (u.isOptional && !u.isAllowed ctx) = true → n.isMissing ctx = true
  | .call f args _ _ => ∀ n ∈ f.needed args, n.isMissing ctx = false
  | _ => True

/-- Whether a call that leaves out missing arguments has none. -/
def LeavesOutMissing (ctx : Context) : Node → Prop
  | .call f args _ _ => f.dropsMissing = true → ∀ n ∈ args, n.isMissing ctx = false
  | _ => True

/-- Whether all parts of a node are settled. -/
def Steady (ctx : Context) (n : Node) : Prop :=
  n.All fun m => m.IsSettled ctx ∧ m.LeavesOutMissing ctx

theorem steady_iff {n : Node} : n.Steady ctx ↔
    (n.IsSettled ctx ∧ n.LeavesOutMissing ctx) ∧ ∀ c ∈ n.children, c.Steady ctx := all_iff

theorem steady_toNode (c : Constant) (place : Location) : (c.toNode place).Steady ctx := by
  cases c <;> exact all_of_children_eq_nil rfl ⟨trivial, trivial⟩

theorem steady_binary {op : Operator} {l r : Node} {place : Location} (hl : l.Steady ctx)
    (hr : r.Steady ctx) : (Node.binary op l r place).Steady ctx :=
  all_binary.2 ⟨⟨trivial, trivial⟩, hl, hr⟩

theorem steady_call {f : Function} {args : List Node} {single : Bool} {place : Location}
    (needed : ∀ n ∈ f.needed args, n.isMissing ctx = false)
    (leaves : f.dropsMissing = true → ∀ n ∈ args, n.isMissing ctx = false)
    (hargs : ∀ n ∈ args, n.Steady ctx) : (Node.call f args single place).Steady ctx :=
  steady_iff.2 ⟨⟨needed, leaves⟩, hargs⟩

/-- No constant is missing in a steady node. -/
theorem isMissing_of_constant? {n : Node} {c : Constant} (h : n.Steady ctx)
    (hc : n.constant? = some c) : n.isMissing ctx = false := by
  induction n generalizing c with
  | integer | decimal | text | bool | column => rfl
  | taxon | modelAttribute | isNull | call => cases hc
  | paren n _ ih | root n _ ih =>
    exact ih ((steady_iff.1 h).2 n (List.mem_singleton_self n)) hc
  | transition _ n _ _ _ ih => exact ih ((steady_iff.1 h).2 n (List.mem_singleton_self n)) hc
  | not n _ ih =>
    obtain ⟨d, hd, _⟩ := Option.map_eq_some_iff.1 hc
    exact ih ((steady_iff.1 h).2 n (List.mem_singleton_self n)) hd
  | computed u n _ ih =>
    obtain ⟨⟨settled, _⟩, inner⟩ := steady_iff.1 h
    have there := ih (inner n (List.mem_singleton_self n)) hc
    rw [isMissing, there, Bool.false_or]
    refine Bool.eq_false_iff.2 fun out => ?_
    rw [settled out] at there
    cases there
  | binary op l r _ hl hr =>
    obtain ⟨a, ha, hc⟩ := Option.bind_eq_some_iff.1 hc
    obtain ⟨b, hb, _⟩ := Option.bind_eq_some_iff.1 hc
    obtain ⟨_, inLeft, inRight⟩ := all_binary.1 h
    have left := hl inLeft ha
    have right := hr inRight hb
    cases op <;> simp only [isMissing, left, right, Bool.and_self, Bool.or_self]

/-- Whether one node stands for another: it is steady, and as missing. -/
def StandsFor (ctx : Context) (n m : Node) : Prop :=
  m.Steady ctx ∧ m.isMissing ctx = n.isMissing ctx

/-- Whether a step makes nodes that stand for steady ones. -/
def KeepsSteady (ctx : Context) (step : Step) : Prop :=
  ∀ n m, step n = some m → n.Steady ctx → StandsFor ctx n m

theorem keepsSteady_some : KeepsSteady ctx some := by
  intro n m h hn
  cases h
  exact ⟨hn, rfl⟩

theorem AreAsMissing.all_present {ns ms : List Node} (h : AreAsMissing ctx ns ms)
    (hns : ∀ n ∈ ns, n.isMissing ctx = false) : ∀ m ∈ ms, m.isMissing ctx = false := by
  induction h with
  | nil => exact List.forall_mem_nil _
  | cons first _ ih =>
    obtain ⟨present, rest⟩ := List.forall_mem_cons.1 hns
    exact List.forall_mem_cons.2 ⟨first.trans present, ih rest⟩

theorem AreAsMissing.needed {ns ms : List Node} (h : AreAsMissing ctx ns ms) (f : Function) :
    AreAsMissing ctx (f.needed ns) (f.needed ms) := by
  unfold Function.needed
  split
  · exact h
  · split
    · exact List.forall₂_drop 1 h
    · exact .nil

/-- Nodes that stand for the children of a steady node make one that stands for the node. -/
theorem StandsFor.withChildren {n : Node} {ms : List Node} (hn : n.Steady ctx)
    (h : List.Forall₂ (StandsFor ctx) n.children ms) : StandsFor ctx n (n.withChildren ms) := by
  have same : AreAsMissing ctx n.children ms := h.imp fun _ _ => And.right
  refine ⟨steady_iff.2 ⟨?_, ?_⟩, isMissing_withChildren same⟩
  · obtain ⟨⟨settled, leaves⟩, _⟩ := steady_iff.1 hn
    cases n with
    | computed u n _ =>
      cases h with
      | cons first rest =>
        cases rest
        exact ⟨fun out => first.2.trans (settled out), trivial⟩
    | call f args _ _ =>
      exact ⟨(same.needed f).all_present settled, fun drops => same.all_present (leaves drops)⟩
    | paren | not | isNull | transition | root =>
      cases h with
      | cons first rest => cases rest; exact ⟨trivial, trivial⟩
    | binary =>
      cases h with
      | cons first rest =>
        cases rest with
        | cons second rest => cases rest; exact ⟨trivial, trivial⟩
    | _ => exact ⟨trivial, trivial⟩
  · rw [children_withChildren h.length_eq.symm]
    exact ((List.forall₂_and_left _ _).1 h.flip).1

section
variable {split : Splitter} {step : Step} (hstep : KeepsSteady ctx step)
include hstep

theorem steady_of_simplifiedTest {n simplified test : Node} {c : Constant}
    (hs : simplified.Steady ctx) (h : simplifiedTest step n simplified c = some test) :
    test.Steady ctx := by
  unfold simplifiedTest at h
  split at h
  · cases h
    exact steady_toNode _ _
  · obtain ⟨left, hl, h⟩ := Option.bind_eq_some_iff.1 h
    obtain ⟨right, hr, h⟩ := Option.bind_eq_some_iff.1 h
    cases h
    exact steady_binary (hstep _ _ hl hs).1 (hstep _ _ hr (steady_toNode c _)).1

theorem steady_of_testOfFalse {n simplified test : Node} (hs : simplified.Steady ctx)
    (h : testOfFalse ctx step n simplified = some test) : test.Steady ctx := by
  unfold testOfFalse at h
  split at h
  · exact steady_of_simplifiedTest hstep hs h
  · obtain ⟨s, hs', h⟩ := Option.bind_eq_some_iff.1 h
    have lower : (Node.call .lower [s] false n.place).Steady ctx :=
      steady_call (List.forall_mem_nil _) (fun drops => absurd drops (by decide))
        (List.forall_mem_singleton.2 (hstep _ _ hs' hs).1)
    exact steady_of_simplifiedTest hstep lower h

/-- A choice between constants is steady, and there. -/
theorem steady_of_simplifiedChoice {test choice : Node} {yes no : Constant}
    {constants place : Location} (ht : test.Steady ctx)
    (h : simplifiedChoice step test yes no constants place = some choice) :
    choice.Steady ctx ∧ choice.isMissing ctx = false := by
  obtain ⟨t, y, n, ht', hy, hn, h⟩ := eq_of_simplifiedChoice h
  obtain ⟨yesSteady, _⟩ := hstep _ _ hy (steady_toNode yes _)
  obtain ⟨noSteady, noThere⟩ := hstep _ _ hn (steady_toNode no _)
  have condition : (Node.call .iff [t, y, n] false place).Steady ctx :=
    steady_call (List.forall_mem_nil _) (fun drops => absurd drops (by decide))
      (List.forall_mem_cons.2 ⟨(hstep _ _ ht' ht).1,
        List.forall_mem_cons.2 ⟨yesSteady, List.forall_mem_singleton.2 noSteady⟩⟩)
  obtain ⟨steady, same⟩ := hstep _ _ h condition
  exact ⟨steady, same.trans (isMissing_choice place (noThere.trans (isMissing_toNode no _)))⟩

omit hstep in
theorem standsFor_of_each {ns ms : List Node}
    (each : List.Forall₂ (SimplifiedChild ctx split step) ns ms) (hstep : KeepsSteady ctx step)
    (stands : ∀ n ∈ ns, ∀ m, simplifyWith ctx split step n = some m → StandsFor ctx n m) :
    List.Forall₂ (StandsFor ctx) ns ms := by
  induction each with
  | nil => exact .nil
  | cons first _ ih =>
    obtain ⟨standsFirst, standsRest⟩ := List.forall_mem_cons.1 stands
    obtain ⟨s, hs, hs'⟩ := first
    obtain ⟨steady, same⟩ := standsFirst s hs
    obtain ⟨steady', same'⟩ := hstep s _ hs' steady
    exact .cons ⟨steady', same'.trans same⟩ (ih standsRest)

end

theorem any_isMissing_of_present {ns : List Node} (h : ∀ n ∈ ns, n.isMissing ctx = false) :
    (ns.map (isMissing ctx)).any id = false := by
  rw [List.any_map, List.any_eq_false]
  intro n hn missing
  rw [Function.comp_apply, id, h n hn] at missing
  cases missing

theorem isMissing_call_of_present {f : Function} {args : List Node} {single : Bool}
    {place : Location} (kind : f.isConversion || f.dropsMissing) (nonempty : args ≠ [])
    (present : ∀ n ∈ args, n.isMissing ctx = false) :
    (Node.call f args single place).isMissing ctx = false := by
  rw [isMissing_call]
  cases f with
  | coalesce | merge =>
    exact List.isEmpty_eq_false_iff.2 fun none => nonempty (List.map_eq_nil_iff.1 none)
  | toText | toDate | toBool | toNumber => exact any_isMissing_of_present present
  | _ => cases kind

theorem StandsFor.all_present {ns ms : List Node} (h : List.Forall₂ (StandsFor ctx) ns ms)
    (present : ∀ n ∈ ns, n.isMissing ctx = false) :
    ∀ m ∈ ms, m.Steady ctx ∧ m.isMissing ctx = false := by
  have same : AreAsMissing ctx ns ms := h.imp fun _ _ => And.right
  exact fun m hm => ⟨((List.forall₂_and_left _ _).1 h.flip).1 m hm, same.all_present present m hm⟩

/-- A conversion stands for another one if the arguments of both are there. -/
theorem StandsFor.conversion {f : Function} {args ms : List Node} {single : Bool}
    {place : Location} (kind : f.isConversion = true) (some : args ≠ []) (some' : ms ≠ [])
    (hargs : ∀ n ∈ args, n.isMissing ctx = false)
    (hms : ∀ m ∈ ms, m.Steady ctx ∧ m.isMissing ctx = false) :
    StandsFor ctx (.call f args single place) (.call f ms single place) := by
  have kind' : f.isConversion || f.dropsMissing := by rw [kind, Bool.true_or]
  have there : ∀ m ∈ ms, m.isMissing ctx = false := fun m hm => (hms m hm).2
  refine ⟨steady_call ?_ (fun _ => there) fun m hm => (hms m hm).1, ?_⟩
  · rw [Function.needed, if_pos kind]
    exact there
  · rw [isMissing_call_of_present kind' some' there, isMissing_call_of_present kind' some hargs]

/-- What a steady node becomes stands for it, if the steps and the splitter make such nodes. -/
theorem StandsFor.simplifyWith {split : Splitter}
    (hsplit : ∀ step time, KeepsSteady ctx step → time.Steady ctx → time.isMissing ctx = false →
      KeepsSteady ctx (split step time)) (n : Node) :
    ∀ step m, KeepsSteady ctx step → Node.simplifyWith ctx split step n = some m →
      n.Steady ctx → StandsFor ctx n m := by
  induction n using children_induction with
  | h n ih =>
    intro step m hstep h hn
    obtain ⟨⟨settled, leaves⟩, inner⟩ := steady_iff.1 hn
    have within (c : Node) (hc : c ∈ n.children) (s : Node)
        (h : Node.simplifyWith ctx split step c = some s) : StandsFor ctx c s :=
      ih c hc step s hstep h (inner c hc)
    have rewritten := rewritten h
    generalize n.rule ctx = rule at rewritten
    clear h
    cases rewritten with
    | kept => exact ⟨hn, rfl⟩
    | inside each around =>
      rw [← around]
      exact .withChildren hn (standsFor_of_each each hstep within)
    | left remains h =>
      obtain ⟨steady, same⟩ := within _ (List.mem_cons_self ..) m h
      exact ⟨steady, same.trans (isMissing_of_remaining_left _ remains).symm⟩
    | right remains h =>
      obtain ⟨steady, same⟩ := within _ (List.mem_cons_of_mem _ (List.mem_singleton_self _)) m h
      exact ⟨steady, same.trans (isMissing_of_remaining_right _ remains).symm⟩
    | folded value =>
      exact ⟨steady_toNode _ _,
        (isMissing_toNode _ _).trans (isMissing_of_constant? hn value).symm⟩
    | @first f first _ rest _ _ kind h =>
      have present : ∀ n ∈ first :: rest, n.isMissing ctx = false := by
        cases conversion : f.isConversion with
        | true =>
          rw [IsSettled, Function.needed, if_pos conversion] at settled
          exact settled
        | false =>
          rw [conversion, Bool.false_or] at kind
          exact leaves kind
      obtain ⟨steady, same⟩ := within first (List.mem_cons_self ..) m h
      refine ⟨steady, same.trans ?_⟩
      rw [isMissing_call_of_present kind (List.cons_ne_nil _ _) present]
      exact present first (List.mem_cons_self ..)
    | truth h tests chooses =>
      obtain ⟨steady, _⟩ := within _ (List.mem_cons_self ..) _ h
      have choice := steady_of_simplifiedChoice hstep (steady_of_testOfFalse hstep steady tests)
        chooses
      exact .conversion rfl (List.cons_ne_nil _ _) (List.cons_ne_nil _ _) settled
        (List.forall_mem_singleton.2 choice)
    | truthNumber h tests chooses precision =>
      obtain ⟨steady, _⟩ := within _ (List.mem_cons_self ..) _ h
      have choice := steady_of_simplifiedChoice hstep
        (steady_of_simplifiedTest hstep steady tests) chooses
      have stands := standsFor_of_each precision hstep fun c hc =>
        within c (List.mem_cons_of_mem _ (List.mem_of_mem_take hc))
      have present := StandsFor.all_present stands fun c hc =>
        settled c (List.mem_cons_of_mem _ (List.mem_of_mem_take hc))
      exact .conversion rfl (List.cons_ne_nil _ _) (List.cons_ne_nil _ _) settled
        (List.forall_mem_cons.2 ⟨choice, present⟩)
    | @number first rest ms _ _ each =>
      have stands := standsFor_of_each each hstep fun c hc =>
        within c (List.mem_of_mem_take (i := 2) hc)
      have present := StandsFor.all_present stands fun c hc =>
        settled c (List.mem_of_mem_take (i := 2) hc)
      refine .conversion rfl (List.cons_ne_nil _ _) ?_ settled present
      rintro rfl
      cases each
    | @split first time time' simplified _ rest _ _ atTime h splits =>
      have timeThere := settled time (List.mem_cons_self ..)
      obtain ⟨steadyTime, sameTime⟩ :=
        within time (List.mem_cons_of_mem _ (List.mem_cons_self ..)) time' atTime
      have splitting := hsplit step time' hstep steadyTime (sameTime.trans timeThere)
      obtain ⟨steadyFirst, sameFirst⟩ := ih first (List.mem_cons_self ..) _ simplified splitting h
        (inner first (List.mem_cons_self ..))
      obtain ⟨steady, same⟩ := splitting simplified m splits steadyFirst
      refine ⟨steady, same.trans (sameFirst.trans ?_)⟩
      rw [isMissing_call]
      refine (Bool.or_false _).symm.trans (congrArg _ ?_)
      exact (any_isMissing_of_present settled).symm

/-- Splitting a ratio loses nothing over a time that is there: the totals of both sides are as
missing as the sides, which are simplified once more. -/
theorem keepsSteady_splitRatio (depth : Nat) {step : Step} {time : Node}
    (hstep : KeepsSteady ctx step) (htime : time.Steady ctx) (there : time.isMissing ctx = false) :
    KeepsSteady ctx (splitRatio ctx depth step time) := by
  induction depth generalizing step time with
  | zero =>
    intro n m h _
    cases h
  | succ depth ih =>
    have total {side s : Node} (hside : side.Steady ctx)
        (hs : Node.simplifyWith ctx (splitRatio ctx depth) (splitRatio ctx depth step time) side =
          some s) : StandsFor ctx side (.call .cumulative [s, time] false s.place) := by
      obtain ⟨steady, same⟩ := StandsFor.simplifyWith (fun _ _ => ih) side _ s
        (ih hstep htime there) hs hside
      refine ⟨steady_call (List.forall_mem_singleton.2 there)
        (fun drops => absurd drops (by decide))
        (List.forall_mem_cons.2 ⟨steady, List.forall_mem_singleton.2 htime⟩), ?_⟩
      rw [isMissing_call, List.map_cons, List.map_singleton, there, same]
      exact Bool.or_false _
    intro n m split hn
    cases splitInto split with
    | whole h => exact hstep n m h hn
    | totals h left right =>
      obtain ⟨steady, same⟩ := hstep n _ h hn
      obtain ⟨_, onLeft, onRight⟩ := all_binary.1 steady
      obtain ⟨leftSteady, left⟩ := total onLeft left
      obtain ⟨rightSteady, right⟩ := total onRight right
      exact ⟨steady_binary leftSteady rightSteady,
        (isMissing_binary left right _ _).trans same⟩

theorem Steady.keepsMissing {n : Node} (h : n.Steady ctx) : n.KeepsMissing ctx := fun depth m hm =>
  (StandsFor.simplifyWith (fun _ _ => keepsSteady_splitRatio depth) n some m keepsSteady_some hm h).2

/-! ## Formulas as they are read -/

theorem all_leavesOutMissing {model? : Option ModelScope} {formula : String} {n : Node}
    (read : rootOfFormula ctx model? formula = .ok n) : n.All (LeavesOutMissing ctx) := by
  have holds : HoldsRead ctx (LeavesOutMissing ctx) :=
    { leaf := fun n h _ => by
        cases n with
        | call =>
          cases h
          exact fun _ => List.forall_mem_nil _
        | _ => trivial
      paren := fun _ _ => trivial
      binary := fun _ _ _ _ => trivial
      not := fun _ _ => trivial
      isNull := fun _ _ _ => trivial
      call := fun f args _ drops n hn => by
        rw [if_pos drops] at hn
        exact Bool.not_eq_true' _ ▸ (List.mem_filter.1 hn).2 }
  exact all_rootOfFormula holds (fun _ _ _ => trivial) (fun _ _ => trivial)
    (fun _ _ _ _ _ _ _ => trivial) read

/-- Every part of a formula that is read keeps whether it is missing when it is simplified, exactly
if the rules for all parts heed what is missing.  They do where computed taxons are as missing as
their calculations and neither conversions nor running totals lack an argument. -/
theorem keepsMissing_iff_heedsScope {model? : Option ModelScope} {formula : String} {n : Node}
    (read : rootOfFormula ctx model? formula = .ok n) :
    (n.All (KeepsMissing ctx) ↔ n.All (HeedsScope ctx)) ∧
      (n.All (HeedsScope ctx) → (n.simplify ctx).isMissing ctx = n.isMissing ctx) ∧
      (n.All (IsSettled ctx) → n.All (HeedsScope ctx)) := by
  refine ⟨all_keepsMissing_iff n, fun heeds => ?_, fun settled => ?_⟩
  · exact ((all_keepsMissing_iff n).2 heeds n (mem_parts_self n)).simplify
  · have steady : n.Steady ctx := fun m hm => ⟨settled m hm, all_leavesOutMissing read m hm⟩
    exact (all_keepsMissing_iff n).1 fun m hm => Steady.keepsMissing (All.all steady m hm)

instance : DecidablePred (IsSettled ctx)
  | .computed u n _ =>
    inferInstanceAs (Decidable ((u.isOptional && !u.isAllowed ctx) = true → n.isMissing ctx = true))
  | .call f args _ _ => inferInstanceAs (Decidable (∀ n ∈ f.needed args, n.isMissing ctx = false))
  | .integer .. | .decimal .. | .text .. | .bool .. | .column .. | .paren .. | .taxon ..
  | .attribute .. | .binary .. | .not .. | .isNull .. | .transition .. | .root .. => .isTrue trivial

/-! ### One source out of two -/

/-- A request for one data source, among taxons of it and of another. -/
def oneSource : Context :=
  let raw (slug : String) (dataSource? : Option String) (type : TaxonType) : Taxon :=
    ⟨slug, slug, dataSource?, type, .raw .sum, if type = .metric then .numeric else .datetime,
      "shop", none, none, none⟩
  { Context.ofTaxons (Taxon.mapOf [raw "spend" none .metric, raw "clicks" none .metric,
      raw "day" none .dimension, raw "fb|likes" (some "fb") .metric]) with
    dataSources? := some (.singleton "tw") }

theorem keepsMissing_iff_heedsScope_total :
    ∃ n, rootOfFormula oneSource none "cumulative(spend / clicks, day) + fb|likes?" = .ok n ∧
      n.All (KeepsMissing oneSource) ∧
      (n.simplify oneSource).isMissing oneSource = n.isMissing oneSource := by
  obtain ⟨n, hn, settled⟩ : ∃ n, rootOfFormula oneSource none
      "cumulative(spend / clicks, day) + fb|likes?" = .ok n ∧ _ :=
    Result.ok_of_any (f := fun n => n.All (IsSettled oneSource)) (by decide +kernel)
  obtain ⟨keeps, whole, heeds⟩ := keepsMissing_iff_heedsScope hn
  have all := heeds (of_decide_eq_true settled)
  exact ⟨n, hn, keeps.2 all, whole all⟩

/-- A missing number that is converted to a Boolean is there once it is simplified: the conversion
becomes a condition, which has an outcome where no test holds. -/
theorem isMissing_simplify_toBool : ∃ n, rootOfFormula oneSource none "to_bool(fb|likes?)" = .ok n ∧
    n.faults oneSource = [] ∧ n.isMissing oneSource = true ∧
      (n.simplify oneSource).isMissing oneSource = false := by
  obtain ⟨n, hn, lost⟩ : ∃ n, rootOfFormula oneSource none "to_bool(fb|likes?)" = .ok n ∧ _ :=
    Result.ok_of_any (f := fun n => (n.faults oneSource).isEmpty ∧ n.isMissing oneSource = true ∧
      (n.simplify oneSource).isMissing oneSource = false) (by decide +kernel)
  obtain ⟨valid, missing, there⟩ := of_decide_eq_true lost
  exact ⟨n, hn, List.isEmpty_iff.1 valid, missing, there⟩

end Node

end SemanticLayer.Formula
