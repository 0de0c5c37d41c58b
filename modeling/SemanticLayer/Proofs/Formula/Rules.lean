import SemanticLayer.Proofs.Formula.Parts

/-!
# Rules of simplification

A node is simplified by one rule, and each rule makes something else of it.

* `Node.withChildren`: a node around other nodes, which is missing as the node is if they are
  missing as its children are (`isMissing_withChildren`);
* `Node.rule`: the rule for a node;
* `Node.Rewritten`: what a rule makes of a node, with a step on each part;
* `Node.applies`: what the rule for a node says of it;
* `Node.rewritten`, `Node.Rewritten.simplifies`: a node is simplified exactly to what its rule makes
  of it;
* `Node.splitInto`, `Node.totals_of_splitRatio`: what splitting makes of a ratio.
-/

namespace SemanticLayer.Formula

namespace Node

variable {ctx : Context}

/-! ## Nodes around other nodes -/

/-- The node with other nodes in the places of its children. -/
def withChildren : Node → List Node → Node
  | .paren _ place, [m] => .paren m place
  | .computed u _ place, [m] => .computed u m place
  | .binary op _ _ place, [l, r] => .binary op l r place
  | .not _ place, [m] => .not m place
  | .isNull _ negated place, [m] => .isNull m negated place
  | .call f _ single place, ms => .call f ms single place
  | .transition t _ a label? place, [m] => .transition t m a label? place
  | .root _ place, [m] => .root m place
  | n, _ => n

/-- Whether nodes are in turn as missing as others. -/
def AreAsMissing (ctx : Context) (ns ms : List Node) : Prop :=
  List.Forall₂ (fun n m => m.isMissing ctx = n.isMissing ctx) ns ms

theorem AreAsMissing.map_eq {ns ms : List Node} (h : AreAsMissing ctx ns ms) :
    ms.map (isMissing ctx) = ns.map (isMissing ctx) := by
  induction h with
  | nil => rfl
  | cons first _ ih => rw [List.map_cons, List.map_cons, first, ih]

theorem isMissing_call (f : Function) (args : List Node) (single : Bool) (place : Location) :
    (Node.call f args single place).isMissing ctx = f.isMissing (args.map (isMissing ctx)) := by
  rw [isMissing, eachIsMissing_eq]

theorem isMissing_binary {op : Operator} {l l' r r' : Node} (hl : l'.isMissing ctx = l.isMissing ctx)
    (hr : r'.isMissing ctx = r.isMissing ctx) (place place' : Location) :
    (Node.binary op l' r' place').isMissing ctx = (Node.binary op l r place).isMissing ctx := by
  cases op <;> simp only [isMissing, hl, hr]

theorem isMissing_withChildren {n : Node} {ms : List Node} (h : AreAsMissing ctx n.children ms) :
    (n.withChildren ms).isMissing ctx = n.isMissing ctx := by
  cases n with
  | integer | decimal | text | bool | column | taxon | «attribute» => rfl
  | paren | not | isNull | transition | root =>
    obtain ⟨m, _, same, rest, rfl⟩ := List.forall₂_cons_left_iff.1 h
    cases rest
    exact same
  | computed =>
    obtain ⟨m, _, same, rest, rfl⟩ := List.forall₂_cons_left_iff.1 h
    cases rest
    rw [withChildren, isMissing, isMissing, same]
  | binary op l r place =>
    obtain ⟨l', _, left, others, rfl⟩ := List.forall₂_cons_left_iff.1 h
    obtain ⟨r', _, right, rest, rfl⟩ := List.forall₂_cons_left_iff.1 others
    cases rest
    exact isMissing_binary left right place place
  | call f args single place =>
    rw [withChildren, isMissing_call, isMissing_call, h.map_eq]
    rfl

theorem children_withChildren {n : Node} {ms : List Node} (h : ms.length = n.children.length) :
    (n.withChildren ms).children = ms := by
  cases n with
  | call => rfl
  | integer | decimal | text | bool | column | taxon | «attribute» =>
    exact (List.length_eq_zero_iff.1 h).symm
  | paren | not | isNull | transition | root | computed =>
    obtain ⟨m, rfl⟩ := List.length_eq_one_iff.1 h
    rfl
  | binary =>
    obtain ⟨l, r, rfl⟩ := List.length_eq_two.1 h
    rfl

end Node

/-! ## Rules -/

/-- A way to simplify a node. -/
inductive Rule where
  /-- The node stays as it is. -/
  | kept
  /-- The node stays around its simplified children. -/
  | inside
  /-- An operation becomes its left operand, as the other is missing. -/
  | left
  | right
  /-- An operation on constants becomes a constant. -/
  | folded
  /-- A call becomes its first argument. -/
  | first
  /-- A conversion to a Boolean becomes a condition. -/
  | truth
  /-- A conversion of a Boolean to a number becomes a condition. -/
  | truthNumber
  /-- A conversion to a number stays around its value and its precision. -/
  | number
  /-- A running total of a ratio becomes a ratio of running totals. -/
  | split
  deriving DecidableEq

/-- Whether a function converts values of other types. -/
def Function.isConversion (f : Function) : Bool :=
  f = .toText || f = .toDate || f = .toBool || f = .toNumber

namespace Node

/-- The rule for a call, given its first argument and the others. -/
def callRule (ctx : Context) (f : Function) (first : Node) (rest : List Node) (single : Bool) :
    Rule :=
  let type := first.type ctx
  match f with
  | .coalesce => if rest.isEmpty then .first else .inside
  | .merge => if single then .first else .inside
  | .toText => if type.isString then .first else .inside
  | .toDate => if type.isDatetime then .first else .inside
  | .toBool =>
    if type.isBoolean then .first else if type.data = .unknown then .inside else .truth
  | .toNumber =>
    if type.isNumber && rest.isEmpty then .first
    else if type.isBoolean then .truthNumber else .number
  | .cumulative => if !rest.isEmpty && first.hasVaryingRatio ctx then .split else .inside
  | _ => .inside

def rule (ctx : Context) : Node → Rule
  | .transition .. => .kept
  | .binary op l r place =>
    match remaining ctx op l r with
    | .left => .left
    | .right => .right
    | .both => if (Node.binary op l r place).constant?.isSome then .folded else .inside
  | .call f (first :: rest) single _ => callRule ctx f first rest single
  | _ => .inside

/-- The nodes that a rule is for. -/
inductive Applies (ctx : Context) : Rule → Node → Prop
  | kept (n : Node) : Applies ctx .kept n
  | inside (n : Node) : Applies ctx .inside n
  | left {op : Operator} {l r : Node} {place : Location} (remains : remaining ctx op l r = .left) :
      Applies ctx .left (.binary op l r place)
  | right {op : Operator} {l r : Node} {place : Location}
      (remains : remaining ctx op l r = .right) : Applies ctx .right (.binary op l r place)
  | folded {op : Operator} {l r : Node} {c : Constant} {place : Location}
      (value : (Node.binary op l r place).constant? = some c) :
      Applies ctx .folded (.binary op l r place)
  | first {f : Function} {first : Node} {rest : List Node} {single : Bool} {place : Location}
      (kind : f.isConversion || f.dropsMissing) :
      Applies ctx .first (.call f (first :: rest) single place)
  | truth {first : Node} {rest : List Node} {single : Bool} {place : Location} :
      Applies ctx .truth (.call .toBool (first :: rest) single place)
  | truthNumber {first : Node} {rest : List Node} {single : Bool} {place : Location} :
      Applies ctx .truthNumber (.call .toNumber (first :: rest) single place)
  | number {first : Node} {rest : List Node} {single : Bool} {place : Location} :
      Applies ctx .number (.call .toNumber (first :: rest) single place)
  | split {first time : Node} {rest : List Node} {single : Bool} {place : Location}
      (ratio : first.hasVaryingRatio ctx = true) :
      Applies ctx .split (.call .cumulative (first :: time :: rest) single place)

theorem applies (n : Node) : Applies ctx (n.rule ctx) n := by
  cases n with
  | transition => exact .kept _
  | binary op l r place =>
    rw [rule]
    cases remains : remaining ctx op l r with
    | left => exact .left remains
    | right => exact .right remains
    | both =>
      dsimp only
      cases value : (Node.binary op l r place).constant? with
      | some c => exact .folded value
      | none => exact .inside _
  | call f args single place =>
    cases args with
    | nil => exact .inside _
    | cons first rest =>
      rw [rule]
      unfold callRule
      cases f with
      | coalesce | merge | toText | toDate =>
        dsimp only
        split_ifs
        · exact .first (by decide)
        · exact .inside _
      | toBool =>
        dsimp only
        split_ifs
        · exact .first (by decide)
        · exact .inside _
        · exact .truth
      | toNumber =>
        dsimp only
        split_ifs
        · exact .first (by decide)
        · exact .truthNumber
        · exact .number
      | cumulative =>
        cases rest with
        | nil => exact .inside _
        | cons time rest =>
          dsimp only
          split_ifs with ratio
          · exact .split (Bool.and_eq_true_iff.1 ratio).2
          · exact .inside _
      | _ => exact .inside _
  | _ => exact .inside _

section
variable (ctx : Context) (split : Splitter) (step : Step)

/-- A child in a simplified node: simplified itself, and then after the step. -/
def SimplifiedChild (n m : Node) : Prop :=
  ∃ s, simplifyWith ctx split step n = some s ∧ step s = some m

/-- What a rule makes of a node. -/
inductive Rewritten : Rule → Node → Node → Prop
  | kept (n : Node) : Rewritten .kept n n
  | inside {n m : Node} {ms : List Node}
      (each : List.Forall₂ (SimplifiedChild ctx split step) n.children ms)
      (around : n.withChildren ms = m) : Rewritten .inside n m
  | left {op : Operator} {l r m : Node} {place : Location}
      (remains : remaining ctx op l r = .left) (h : simplifyWith ctx split step l = some m) :
      Rewritten .left (.binary op l r place) m
  | right {op : Operator} {l r m : Node} {place : Location}
      (remains : remaining ctx op l r = .right) (h : simplifyWith ctx split step r = some m) :
      Rewritten .right (.binary op l r place) m
  | folded {op : Operator} {l r : Node} {c : Constant} {place : Location}
      (value : (Node.binary op l r place).constant? = some c) :
      Rewritten .folded (.binary op l r place) (c.toNode place)
  | first {f : Function} {first m : Node} {rest : List Node} {single : Bool} {place : Location}
      (kind : f.isConversion || f.dropsMissing)
      (h : simplifyWith ctx split step first = some m) :
      Rewritten .first (.call f (first :: rest) single place) m
  | truth {first simplified test choice : Node} {rest : List Node} {single : Bool}
      {place : Location} (h : simplifyWith ctx split step first = some simplified)
      (tests : testOfFalse ctx step first simplified = some test)
      (chooses :
        simplifiedChoice step test (.bool false) (.bool true) first.place place = some choice) :
      Rewritten .truth (.call .toBool (first :: rest) single place)
        (.call .toBool [choice] single place)
  | truthNumber {first simplified test choice : Node} {rest ms : List Node} {single : Bool}
      {place : Location} (h : simplifyWith ctx split step first = some simplified)
      (tests : simplifiedTest step first simplified (.bool true) = some test)
      (chooses : simplifiedChoice step test (.int 1) (.int 0) first.place place = some choice)
      (precision : List.Forall₂ (SimplifiedChild ctx split step) (rest.take 1) ms) :
      Rewritten .truthNumber (.call .toNumber (first :: rest) single place)
        (.call .toNumber (choice :: ms) single place)
  | number {first : Node} {rest ms : List Node} {single : Bool} {place : Location}
      (each : List.Forall₂ (SimplifiedChild ctx split step) (first :: rest.take 1) ms) :
      Rewritten .number (.call .toNumber (first :: rest) single place)
        (.call .toNumber ms single place)
  | split {first time time' simplified m : Node} {rest : List Node} {single : Bool}
      {place : Location} (atTime : simplifyWith ctx split step time = some time')
      (h : simplifyWith ctx split (split step time') first = some simplified)
      (splits : split step time' simplified = some m) :
      Rewritten .split (.call .cumulative (first :: time :: rest) single place) m

end

section
variable {split : Splitter} {step : Step}

theorem simplifyEach_eq_some {ns ms : List Node} (h : simplifyEach ctx split step ns = some ms) :
    List.Forall₂ (SimplifiedChild ctx split step) ns ms := by
  induction ns generalizing ms with
  | nil =>
    rw [simplifyEach] at h
    cases h
    exact .nil
  | cons n ns ih =>
    rw [simplifyEach] at h
    obtain ⟨s, hs, h⟩ := Option.bind_eq_some_iff.1 h
    obtain ⟨s', hs', h⟩ := Option.bind_eq_some_iff.1 h
    obtain ⟨ss, hss, h⟩ := Option.bind_eq_some_iff.1 h
    cases h
    exact .cons ⟨s, hs, hs'⟩ (ih hss)

/-- A simplified child, in its place. -/
theorem SimplifiedChild.of_bind {n m : Node} {wrap : Node → Node}
    (h : (do return wrap (← step (← simplifyWith ctx split step n))) = some m) :
    ∃ c, SimplifiedChild ctx split step n c ∧ wrap c = m := by
  obtain ⟨s, hs, h⟩ := Option.bind_eq_some_iff.1 h
  obtain ⟨s', hs', h⟩ := Option.bind_eq_some_iff.1 h
  cases h
  exact ⟨s', ⟨s, hs, hs'⟩, rfl⟩

/-- A simplified choice between constants, before and after the step. -/
theorem eq_of_simplifiedChoice {test choice : Node} {yes no : Constant}
    {constants place : Location}
    (h : simplifiedChoice step test yes no constants place = some choice) :
    ∃ t y n, step test = some t ∧ step (yes.toNode constants) = some y ∧
      step (no.toNode constants) = some n ∧ step (.call .iff [t, y, n] false place) = some choice := by
  obtain ⟨t, ht, h⟩ := Option.bind_eq_some_iff.1 h
  obtain ⟨y, hy, h⟩ := Option.bind_eq_some_iff.1 h
  obtain ⟨n, hn, h⟩ := Option.bind_eq_some_iff.1 h
  exact ⟨t, y, n, ht, hy, hn, h⟩

theorem rewritten_call {f : Function} {first m : Node} {rest : List Node} {single : Bool}
    {place : Location}
    (h : simplifyWith ctx split step (.call f (first :: rest) single place) = some m) :
    Rewritten ctx split step (callRule ctx f first rest single)
      (.call f (first :: rest) single place) m := by
  have inside {m : Node}
      (h : (do
        return Node.call f ((← step (← simplifyWith ctx split step first)) ::
          (← simplifyEach ctx split step rest)) single place) = some m) :
      Rewritten ctx split step .inside (.call f (first :: rest) single place) m := by
    obtain ⟨s, hs, h⟩ := Option.bind_eq_some_iff.1 h
    obtain ⟨s', hs', h⟩ := Option.bind_eq_some_iff.1 h
    obtain ⟨ss, hss, h⟩ := Option.bind_eq_some_iff.1 h
    cases h
    exact .inside (.cons ⟨s, hs, hs'⟩ (simplifyEach_eq_some hss)) rfl
  rw [simplifyWith.eq_def] at h
  dsimp only at h
  unfold callRule
  cases f with
  | coalesce | merge | toText | toDate =>
    dsimp only at h ⊢
    split_ifs at h ⊢
    · exact .first (by decide) h
    · exact inside h
  | toBool =>
    dsimp only at h ⊢
    split_ifs at h ⊢
    · exact .first (by decide) h
    · exact inside h
    obtain ⟨simplified, hs, h⟩ := Option.bind_eq_some_iff.1 h
    obtain ⟨test, ht, h⟩ := Option.bind_eq_some_iff.1 h
    obtain ⟨choice, hc, h⟩ := Option.bind_eq_some_iff.1 h
    cases h
    exact .truth hs ht hc
  | toNumber =>
    dsimp only at h ⊢
    split_ifs at h ⊢
    · exact .first (by decide) h
    · obtain ⟨simplified, hs, h⟩ := Option.bind_eq_some_iff.1 h
      obtain ⟨test, ht, h⟩ := Option.bind_eq_some_iff.1 h
      obtain ⟨choice, hc, h⟩ := Option.bind_eq_some_iff.1 h
      cases rest with
      | nil =>
        cases h
        exact .truthNumber hs ht hc .nil
      | cons precision rest =>
        obtain ⟨c, hp, rfl⟩ := SimplifiedChild.of_bind h
        exact .truthNumber hs ht hc (.cons hp .nil)
    · obtain ⟨simplified, hs, h⟩ := Option.bind_eq_some_iff.1 h
      obtain ⟨value, hv, h⟩ := Option.bind_eq_some_iff.1 h
      cases rest with
      | nil =>
        cases h
        exact .number (.cons ⟨simplified, hs, hv⟩ .nil)
      | cons precision rest =>
        obtain ⟨c, hp, rfl⟩ := SimplifiedChild.of_bind h
        exact .number (.cons ⟨simplified, hs, hv⟩ (.cons hp .nil))
  | cumulative =>
    dsimp only at h ⊢
    cases rest with
    | nil => exact inside h
    | cons time rest =>
      dsimp only [List.isEmpty] at h ⊢
      split at h
      · rename_i ratio
        rw [ratio]
        obtain ⟨time', ht, h⟩ := Option.bind_eq_some_iff.1 h
        obtain ⟨simplified, hs, h⟩ := Option.bind_eq_some_iff.1 h
        exact .split ht hs h
      · rename_i ratio
        rw [Bool.eq_false_iff.2 ratio]
        exact inside h
  | _ => exact inside h

/-- A simplified node is what its rule makes of it. -/
theorem rewritten {n m : Node} (h : simplifyWith ctx split step n = some m) :
    Rewritten ctx split step (n.rule ctx) n m := by
  cases n with
  | integer | decimal | text | bool | column | taxon | «attribute» =>
    rw [simplifyWith] at h
    cases h
    exact .inside .nil rfl
  | transition =>
    rw [simplifyWith] at h
    cases h
    exact .kept _
  | paren | computed | not | isNull | root =>
    rw [simplifyWith] at h
    obtain ⟨c, hc, around⟩ := SimplifiedChild.of_bind h
    exact .inside (.cons hc .nil) around
  | binary op l r place =>
    rw [simplifyWith] at h
    rw [rule]
    cases remains : remaining ctx op l r with
    | left =>
      rw [remains] at h
      exact .left remains h
    | right =>
      rw [remains] at h
      exact .right remains h
    | both =>
      rw [remains] at h
      dsimp only at h ⊢
      cases value : (Node.binary op l r place).constant? with
      | some c =>
        rw [value] at h
        cases h
        exact .folded value
      | none =>
        rw [value] at h
        obtain ⟨s, hs, h⟩ := Option.bind_eq_some_iff.1 h
        obtain ⟨s', hs', h⟩ := Option.bind_eq_some_iff.1 h
        obtain ⟨t, ht, h⟩ := Option.bind_eq_some_iff.1 h
        obtain ⟨t', ht', h⟩ := Option.bind_eq_some_iff.1 h
        cases h
        exact .inside (.cons ⟨s, hs, hs'⟩ (.cons ⟨t, ht, ht'⟩ .nil)) rfl
  | call f args single place =>
    cases args with
    | nil =>
      rw [simplifyWith] at h
      cases h
      exact .inside .nil rfl
    | cons first rest => exact rewritten_call h

theorem simplifyEach_of_forall₂ {ns ms : List Node}
    (h : List.Forall₂ (SimplifiedChild ctx split step) ns ms) :
    simplifyEach ctx split step ns = some ms := by
  induction h with
  | nil => rfl
  | cons first _ ih =>
    obtain ⟨s, hs, hm⟩ := first
    rw [simplifyEach, hs, Option.bind_eq_bind, Option.bind_some, hm, Option.bind_eq_bind,
      Option.bind_some, ih]
    rfl

theorem SimplifiedChild.bind {n c : Node} (h : SimplifiedChild ctx split step n c)
    (wrap : Node → Node) :
    (do return wrap (← step (← simplifyWith ctx split step n))) = some (wrap c) := by
  obtain ⟨s, hs, hm⟩ := h
  rw [hs, Option.bind_eq_bind, Option.bind_some, hm]
  rfl

theorem Rewritten.simplifies_call {f : Function} {first m : Node} {rest : List Node} {single : Bool}
    {place : Location}
    (h : Rewritten ctx split step (callRule ctx f first rest single)
      (.call f (first :: rest) single place) m) :
    simplifyWith ctx split step (.call f (first :: rest) single place) = some m := by
  have inside {m : Node}
      (h : Rewritten ctx split step .inside (.call f (first :: rest) single place) m) :
      (do
        return Node.call f ((← step (← simplifyWith ctx split step first)) ::
          (← simplifyEach ctx split step rest)) single place) = some m := by
    cases h with
    | inside each around =>
      obtain ⟨c, cs, ⟨s, hs, hc⟩, others, rfl⟩ := List.forall₂_cons_left_iff.1 each
      rw [hs, Option.bind_eq_bind, Option.bind_some, hc, Option.bind_eq_bind, Option.bind_some,
        simplifyEach_of_forall₂ others, ← around]
      rfl
  rw [simplifyWith.eq_def]
  dsimp only
  unfold callRule at h
  cases f with
  | coalesce | merge | toText | toDate =>
    dsimp only at h ⊢
    split_ifs at h ⊢
    · cases h with
      | first _ h => exact h
    · exact inside h
  | toBool =>
    dsimp only at h ⊢
    split_ifs at h ⊢
    · cases h with
      | first _ h => exact h
    · exact inside h
    · cases h with
      | truth hs ht hc =>
        rw [hs, Option.bind_eq_bind, Option.bind_some, ht, Option.bind_some, hc]
        rfl
  | toNumber =>
    dsimp only at h ⊢
    split_ifs at h ⊢
    · cases h with
      | first _ h => exact h
    · cases h with
      | truthNumber hs ht hc precision =>
        rw [hs, Option.bind_eq_bind, Option.bind_some, ht, Option.bind_some, hc]
        cases rest with
        | nil =>
          cases precision
          rfl
        | cons p rest =>
          obtain ⟨c, cs, hp, rest, rfl⟩ := List.forall₂_cons_left_iff.1 precision
          cases rest
          exact hp.bind _
    · cases h with
      | number each =>
        obtain ⟨c, cs, ⟨s, hs, hc⟩, precision, rfl⟩ := List.forall₂_cons_left_iff.1 each
        rw [hs, Option.bind_eq_bind, Option.bind_some, hc]
        cases rest with
        | nil =>
          cases precision
          rfl
        | cons p rest =>
          obtain ⟨c, cs, hp, rest, rfl⟩ := List.forall₂_cons_left_iff.1 precision
          cases rest
          exact hp.bind _
  | cumulative =>
    dsimp only at h ⊢
    cases rest with
    | nil => exact inside h
    | cons time rest =>
      rw [List.isEmpty_cons, Bool.not_false, Bool.true_and] at h
      dsimp only
      split_ifs at h ⊢
      · cases h with
        | split ht hs h =>
        rw [ht, Option.bind_eq_bind, Option.bind_some, hs]
        exact h
      · exact inside h
  | _ => exact inside h

/-- What its rule makes of a node is what the node is simplified to. -/
theorem Rewritten.simplifies {n m : Node} (h : Rewritten ctx split step (n.rule ctx) n m) :
    simplifyWith ctx split step n = some m := by
  cases n with
  | integer | decimal | text | bool | column | taxon | «attribute» =>
    cases h with
    | inside each around =>
      rw [← around]
      rfl
  | transition =>
    cases h
    rfl
  | paren | computed | not | isNull | root =>
    cases h with
    | inside each around =>
      obtain ⟨c, cs, hc, rest, rfl⟩ := List.forall₂_cons_left_iff.1 each
      cases rest
      rw [← around, simplifyWith]
      exact hc.bind _
  | binary op l r place =>
    rw [rule] at h
    rw [simplifyWith]
    cases remains : remaining ctx op l r with
    | left =>
      rw [remains] at h
      cases h with
      | left _ h => exact h
    | right =>
      rw [remains] at h
      cases h with
      | right _ h => exact h
    | both =>
      rw [remains] at h
      dsimp only at h ⊢
      cases value : (Node.binary op l r place).constant? with
      | some c =>
        rw [value] at h
        cases h with
        | folded value' =>
          cases value.symm.trans value'
          rfl
      | none =>
        rw [value] at h
        cases h with
        | inside each around =>
          obtain ⟨l', _, ⟨s, hs, hl⟩, others, rfl⟩ := List.forall₂_cons_left_iff.1 each
          obtain ⟨r', _, hr, rest, rfl⟩ := List.forall₂_cons_left_iff.1 others
          cases rest
          rw [hs, Option.bind_eq_bind, Option.bind_some, hl, ← around]
          exact hr.bind _
  | call f args single place =>
    cases args with
    | nil =>
      cases h with
      | inside each around =>
        cases each
        rw [← around]
        rfl
    | cons first rest => exact Rewritten.simplifies_call h

end

/-! ## Ratios that are split -/

/-- What splitting makes of a node after the step, with so many levels left for the sides. -/
inductive SplitInto (ctx : Context) (depth : Nat) (step : Step) (time n : Node) : Node → Prop
  | whole {m : Node} (h : step n = some m) : SplitInto ctx depth step time n m
  | totals {op : Operator} {l r a b : Node} {place : Location}
      (h : step n = some (.binary op l r place))
      (left : simplifyWith ctx (splitRatio ctx depth) (splitRatio ctx depth step time) l = some a)
      (right : simplifyWith ctx (splitRatio ctx depth) (splitRatio ctx depth step time) r =
        some b) :
      SplitInto ctx depth step time n
        (.binary op (.call .cumulative [a, time] false a.place)
          (.call .cumulative [b, time] false b.place) place)

theorem splitInto {depth : Nat} {step : Step} {time n m : Node}
    (h : splitRatio ctx (depth + 1) step time n = some m) : SplitInto ctx depth step time n m := by
  rw [splitRatio] at h
  obtain ⟨s, hs, h⟩ := Option.bind_eq_some_iff.1 h
  split at h
  · split at h
    · obtain ⟨_, left, h⟩ := Option.bind_eq_some_iff.1 h
      obtain ⟨a, ha, left⟩ := Option.bind_eq_some_iff.1 left
      obtain ⟨_, right, h⟩ := Option.bind_eq_some_iff.1 h
      obtain ⟨b, hb, right⟩ := Option.bind_eq_some_iff.1 right
      cases left
      cases right
      cases h
      exact .totals hs ha hb
    · cases h
      exact .whole hs
  · cases h
    exact .whole hs

section
variable {depth : Nat} {step : Step} {time n : Node}

theorem stepped_of_splitRatio {m : Node} (h : splitRatio ctx (depth + 1) step time n = some m) :
    ∃ s, step n = some s := by
  rw [splitRatio] at h
  obtain ⟨s, hs, _⟩ := Option.bind_eq_some_iff.1 h
  exact ⟨s, hs⟩

/-- What is no ratio of varying values after the step stays as it is. -/
theorem splitRatio_of_other {s : Node} (hs : step n = some s) (other : s.isVaryingRatio ctx = false) :
    splitRatio ctx (depth + 1) step time n = some s := by
  rw [splitRatio, hs, Option.bind_eq_bind, Option.bind_some, if_neg (Bool.eq_false_iff.1 other)]
  rfl

/-- A ratio of varying values is split if both sides are simplified. -/
theorem splitRatio_of_ratio {l r a b : Node} {place : Location}
    (hs : step n = some (.binary .div l r place))
    (ratio : (Node.binary .div l r place).isVaryingRatio ctx = true)
    (ha : simplifyWith ctx (splitRatio ctx depth) (splitRatio ctx depth step time) l = some a)
    (hb : simplifyWith ctx (splitRatio ctx depth) (splitRatio ctx depth step time) r = some b) :
    splitRatio ctx (depth + 1) step time n = some (.binary .div
      (.call .cumulative [a, time] false a.place) (.call .cumulative [b, time] false b.place)
      place) := by
  rw [splitRatio, hs, Option.bind_eq_bind, Option.bind_some, if_pos ratio]
  dsimp only
  rw [ha, hb]
  rfl

/-- A ratio of varying values becomes the ratio of the totals of its sides. -/
theorem totals_of_splitRatio {m s : Node} (h : splitRatio ctx (depth + 1) step time n = some m)
    (hs : step n = some s) (ratio : s.isVaryingRatio ctx = true) :
    ∃ l r place a b, s = .binary .div l r place ∧
      simplifyWith ctx (splitRatio ctx depth) (splitRatio ctx depth step time) l = some a ∧
      simplifyWith ctx (splitRatio ctx depth) (splitRatio ctx depth step time) r = some b ∧
      m = .binary .div (.call .cumulative [a, time] false a.place)
        (.call .cumulative [b, time] false b.place) place := by
  rw [splitRatio, hs, Option.bind_eq_bind, Option.bind_some, if_pos ratio] at h
  cases s with
  | binary op l r place =>
    cases op with
    | div =>
      obtain ⟨_, left, h⟩ := Option.bind_eq_some_iff.1 h
      obtain ⟨a, ha, left⟩ := Option.bind_eq_some_iff.1 left
      obtain ⟨_, right, h⟩ := Option.bind_eq_some_iff.1 h
      obtain ⟨b, hb, right⟩ := Option.bind_eq_some_iff.1 right
      cases left
      cases right
      cases h
      exact ⟨l, r, place, a, b, rfl, ha, hb, rfl⟩
    | _ => cases ratio
  | _ => cases ratio

end

end Node

end SemanticLayer.Formula
