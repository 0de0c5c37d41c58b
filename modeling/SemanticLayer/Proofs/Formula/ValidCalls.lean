import SemanticLayer.Proofs.Formula.PassedUnits
import SemanticLayer.Proofs.Formula.Validity

/-!
# Calls of a formula without faults

The walk over a formula without faults finds none in any part, so each call in it works where the
formula stands and each argument is what its parameter asks for.

* `check_call_eq_nil`: a call without faults;
* `all_check_eq_nil`: no part of a node without faults has any;
* `exists_text_of_type`: a constant of the type of texts is a text;
* `passesUnits_of_faults`: a formula without faults passes string constants as time units, and only
  to differences unless it stands in a model.
-/

namespace SemanticLayer.Formula

/-- The first of some parameters takes an argument if it must, and finds no fault with it. -/
theorem Parameter.checkAll_cons_eq_nil {f : String} {place : Location} {args : List Argument}
    {type : TypeCheck} {p : Parameter} {ps : List Parameter} {fs : Faults}
    (typed : p.kind = .typed type) (needed : p.isOptional = false)
    (h : checkAll f place args 0 (p :: ps) fs = []) :
    ∃ a rest, args = a :: rest ∧ p.checkTyped f 0 type a fs = [] := by
  rw [checkAll] at h
  have first := remembers_checkAll f place args 1 ps _ h
  rw [select, typed] at first
  cases args with
  | nil =>
    rw [needed] at first
    exact absurd first (Faults.add_ne_nil _ _ _)
  | cons a rest =>
    unfold check at first
    rw [typed] at first
    exact ⟨a, rest, rfl, first⟩

/-- A parameter of one type finds no fault with the argument in its place. -/
theorem Parameter.checkTyped_of_checkAll {f : String} {place : Location} {args : List Argument}
    {position i : Nat} {ps : List Parameter} {fs : Faults} {p : Parameter} {check : TypeCheck}
    {a : Argument} (h : checkAll f place args position ps fs = []) (hp : ps[i]? = some p)
    (typed : p.kind = .typed check) (ha : args[position + i]? = some a) :
    p.checkTyped f (position + i) check a [] = [] := by
  induction ps generalizing position i fs with
  | nil => cases hp
  | cons q ps ih =>
    rw [checkAll] at h
    cases i with
    | succ i =>
      rw [← Nat.add_assoc, Nat.add_right_comm] at ha ⊢
      exact ih h hp ha
    | zero =>
      cases hp
      have own := remembers_checkAll f place args (position + 1) ps _ h
      have selected : p.select position args = [a] := by
        rw [select, typed]
        dsimp only
        rw [List.take_one, List.head?_drop, ← Nat.add_zero position, ha]
        rfl
      rw [selected, List.isEmpty_cons, if_neg Bool.false_ne_true] at own
      unfold Parameter.check at own
      rw [typed] at own
      have start := p.remembers_checkTyped f position _ a fs own
      subst start
      exact own

/-- A constant parameter without faults found a constant of its type. -/
theorem Parameter.checkTyped_eq_nil {f : String} {position : Nat} {p : Parameter}
    {check : TypeCheck} {a : Argument} {fs : Faults} (constant : p.isConstant = true)
    (h : p.checkTyped f position check a fs = []) :
    a.type.isConstant = true ∧ check.accepts a.type = true := by
  have inner := (Faults.addIf_eq_nil.1 h).1
  rw [constant, Bool.true_and] at inner
  split at inner
  · exact absurd inner (Faults.add_ne_nil _ _ _)
  · rename_i kind
    exact ⟨Bool.not_eq_false _ ▸ by simpa using kind,
      by simpa using (Faults.addIf_eq_nil.1 inner).2⟩

/-- The zones of a conversion without faults are texts. -/
theorem Function.exists_text_of_checkTimezones {position : Nat} {as : List Argument} {fs : Faults}
    (h : checkTimezones position as fs = []) : ∀ a ∈ as, ∃ s, a.constant? = some (.text s) := by
  induction as generalizing position fs with
  | nil => exact List.forall_mem_nil _
  | cons a as ih =>
    rw [checkTimezones] at h
    refine List.forall_mem_cons.2 ⟨?_, ih h⟩
    have own := (Faults.addIf_eq_nil.1 (remembers_checkTimezones _ as _ h)).2
    cases constant : a.constant? with
    | none => simp [constant] at own
    | some c =>
      cases c with
      | text s => exact ⟨s, rfl⟩
      | _ => simp [constant, Constant.text?] at own

namespace Node

variable {ctx : Context}

theorem check_each_eq_nil {ns : List Node} {fs : Faults} (h : checkEach ctx ns fs = []) :
    fs = [] ∧ ∀ n ∈ ns, n.check ctx [] = [] := by
  induction ns generalizing fs with
  | nil =>
    rw [checkEach] at h
    exact ⟨h, List.forall_mem_nil _⟩
  | cons n ns ih =>
    rw [checkEach] at h
    obtain ⟨first, rest⟩ := ih h
    have start := (check_eq_nil first).1
    subst start
    exact ⟨rfl, List.forall_mem_cons.2 ⟨first, rest⟩⟩

/-- A call without faults keeps its own rules, works where it stands, fits its parameters and has no
faults within. -/
theorem checkOwn_call_eq_nil {f : Function} {args : List Node} {single : Bool} {place : Location}
    (h : (Node.call f args single place).check ctx [] = []) :
    (f.checkOwn place (args.map (Argument.of ctx)) []).1 = [] ∧
      f.worksIn ctx.setting = true ∧
      f.checkParameters place (args.map (Argument.of ctx)) [] = [] ∧
      ∀ n ∈ args, n.check ctx [] = [] := by
  rw [check] at h
  dsimp only at h
  split at h
  · rename_i fs own
    have found := Function.checkOwn_eq_nil (by rw [own]; exact h)
    rw [own] at found
    cases found.2
  · rename_i fs own
    split at h
    · rename_i works
      obtain ⟨parameters, inside⟩ := check_each_eq_nil (Faults.addIf_eq_nil.1 h).1
      have passed : f.checkParameters place (args.map (Argument.of ctx)) fs = [] := by
        split at parameters
        · exact f.remembers_checkCondition place _ _ parameters
        · exact parameters
      have start := f.remembers_checkParameters place _ fs passed
      subst start
      exact ⟨by rw [own], works, passed, inside⟩
    · exact absurd h (Faults.add_ne_nil _ _ _)

theorem check_call_eq_nil {f : Function} {args : List Node} {single : Bool} {place : Location}
    (h : (Node.call f args single place).check ctx [] = []) :
    f.worksIn ctx.setting = true ∧
      f.checkParameters place (args.map (Argument.of ctx)) [] = [] ∧
      ∀ n ∈ args, n.check ctx [] = [] := (checkOwn_call_eq_nil h).2

/-- A binary operation without faults has none in its operands; those of a numeric one are numbers
unless they are missing. -/
theorem check_binary_eq_nil {op : Operator} {l r : Node} {place : Location}
    (h : (Node.binary op l r place).check ctx [] = []) :
    l.check ctx [] = [] ∧ r.check ctx [] = [] ∧
      (op.isNumeric = true → ∀ n ∈ [l, r], n.isMissing ctx = false →
        (n.type ctx).isNumber = true) := by
  rw [check] at h
  have operands : r.check ctx (l.check ctx []) = [] := by
    split at h
    · split at h
      · exact List.isEmpty_iff.1 ‹_›
      · exact h
    · exact (Faults.addIf_eq_nil.1 h).1
  have left := (check_eq_nil operands).1
  rw [left] at operands
  refine ⟨left, operands, fun numeric => ?_⟩
  rw [if_pos numeric, left, operands] at h
  obtain ⟨first, second⟩ := Faults.addIf_eq_nil.1 h
  have onLeft := (Faults.addIf_eq_nil.1 first).2
  intro n hn there
  simp only [List.mem_cons, List.not_mem_nil, or_false] at hn
  rcases hn with rfl | rfl
  · simpa [there] using onLeft
  · simpa [there] using second

theorem check_children_eq_nil {n : Node} (h : n.check ctx [] = []) :
    ∀ c ∈ n.children, c.check ctx [] = [] := by
  cases n with
  | integer | decimal | text | bool | column | taxon | «attribute» => exact List.forall_mem_nil _
  | paren | isNull | transition =>
    rw [check] at h
    exact List.forall_mem_singleton.2 h
  | computed u n place =>
    rw [check] at h
    exact List.forall_mem_singleton.2 (remembers_checkUse u place _ h)
  | not =>
    rw [check] at h
    exact List.forall_mem_singleton.2 (Faults.addIf_eq_nil.1 h).1
  | binary =>
    obtain ⟨left, right, _⟩ := check_binary_eq_nil h
    exact List.forall_mem_cons.2 ⟨left, List.forall_mem_singleton.2 right⟩
  | call => exact (check_call_eq_nil h).2.2
  | root n place =>
    rw [check] at h
    refine List.forall_mem_singleton.2 ?_
    split at h
    · exact remembers_checkRoot n place _ h
    · exact h

/-- No part of a node without faults has any. -/
theorem all_check_eq_nil {n : Node} (h : n.check ctx [] = []) :
    n.All fun m => m.check ctx [] = [] := by
  induction n using children_induction with
  | h n ih => exact all_iff.2 ⟨h, fun c hc => ih c hc (check_children_eq_nil h c hc)⟩

/-! ## Constants -/

end Node

/-- Numbers together are numbers. -/
theorem ValueType.commonData_of_numbers {ts : List ValueType} (some : ts ≠ [])
    (numbers : ∀ t ∈ ts, t.data = .integer ∨ t.data = .numeric) :
    commonData ts = .integer ∨ commonData ts = .numeric := by
  have kept : ts.filter (fun t => !t.data.isFree) = ts := by
    refine List.filter_eq_self.2 fun t ht => ?_
    rcases numbers t ht with h | h <;> rw [h] <;> rfl
  have each : ts.all isNumber = true := by
    refine List.all_eq_true.2 fun t ht => ?_
    rcases numbers t ht with h | h <;> rw [isNumber, h] <;> rfl
  unfold commonData
  rw [kept]
  cases ts with
  | nil => exact absurd rfl some
  | cons t ts =>
    dsimp only
    split
    · exact numbers t (List.mem_cons_self ..)
    · exact .inr rfl

namespace Node

variable {ctx : Context}

/-- Whether a value is not known as a constant, or it has one type only and is a text if that is the
type of texts. -/
def IsKnown (ctx : Context) (n : Node) : Prop :=
  (n.type ctx).isConstant = true →
    (n.type ctx).data.isFree = false ∧
      ((n.type ctx).data = .string → ∃ s, n.constant? = some (.text s))

theorem isKnown_of_data {n : Node} (data : DataType) (h : (n.type ctx).data = data)
    (fixed : data.isFree = false) (other : data ≠ .string) : n.IsKnown ctx := by
  intro _
  rw [h]
  exact ⟨fixed, fun same => absurd same other⟩

theorem isKnown_call (f : Function) (args : List Node) (single : Bool) (place : Location) :
    (Node.call f args single place).IsKnown ctx := by
  cases f with
  | toNumber =>
    by_cases several : 1 < (typeEach ctx args).length
    · refine isKnown_of_data .numeric ?_ rfl (by decide)
      simp [type, Function.type, ValueType.withData, several]
    · refine isKnown_of_data .integer ?_ rfl (by decide)
      simp [type, Function.type, ValueType.withData, several]
  | _ =>
    intro constant
    cases constant

/-- An operation on numbers gives a number. -/
theorem isKnown_binary {op : Operator} {l r : Node} {place : Location}
    (known : ∀ n ∈ [l, r], n.IsKnown ctx)
    (numbers : op.isNumeric = true → ∀ n ∈ [l, r], n.isMissing ctx = false →
      (n.type ctx).isNumber = true) : (Node.binary op l r place).IsKnown ctx := by
  cases numeric : op.isNumeric with
  | false =>
    refine isKnown_of_data .boolean ?_ rfl (by decide)
    rw [type, operationType, numeric]
    rfl
  | true =>
    intro constant
    rw [type, operationType, numeric, Bool.not_true, if_neg Bool.false_ne_true] at constant ⊢
    generalize operands : ((if l.isMissing ctx then [] else [l.type ctx]) ++
      if r.isMissing ctx then [] else [r.type ctx]) = ts at constant ⊢
    have present {t : ValueType} (ht : t ∈ ts) :
        ∃ n ∈ [l, r], n.isMissing ctx = false ∧ n.type ctx = t := by
      have operand {n : Node} (h : t ∈ if n.isMissing ctx then [] else [n.type ctx]) :
          n.isMissing ctx = false ∧ n.type ctx = t := by
        split at h
        · cases h
        · rename_i there
          exact ⟨Bool.eq_false_iff.2 there, (List.mem_singleton.1 h).symm⟩
      rw [← operands, List.mem_append] at ht
      rcases ht with ht | ht
      · exact ⟨l, List.mem_cons_self .., operand ht⟩
      · exact ⟨r, List.mem_cons_of_mem _ (List.mem_singleton_self r), operand ht⟩
    cases ts with
    | nil => cases constant
    | cons t ts =>
      rw [List.isEmpty_cons, if_neg Bool.false_ne_true] at constant ⊢
      have data : (ValueType.common (t :: ts)).data = .integer ∨
          (ValueType.common (t :: ts)).data = .numeric := by
        refine ValueType.commonData_of_numbers (List.cons_ne_nil _ _) fun u hu => ?_
        obtain ⟨n, hn, there, rfl⟩ := present hu
        obtain ⟨fixed, _⟩ := known n hn (List.all_eq_true.1 constant _ hu)
        have number := numbers numeric n hn there
        rw [ValueType.isNumber, fixed, Bool.false_or, Bool.or_eq_true] at number
        exact number.imp of_decide_eq_true of_decide_eq_true
      rcases data with h | h <;> rw [h] <;> exact ⟨rfl, fun text => by cases text⟩

/-- A constant in a formula without faults. -/
theorem isKnown_of_check {n : Node} (h : n.check ctx [] = []) : n.IsKnown ctx := by
  induction n using children_induction with
  | h n ih =>
    have inside (c : Node) (hc : c ∈ n.children) : c.IsKnown ctx :=
      ih c hc (check_children_eq_nil h c hc)
    cases n with
    | integer => exact isKnown_of_data .integer rfl rfl (by decide)
    | decimal => exact isKnown_of_data .numeric rfl rfl (by decide)
    | bool => exact isKnown_of_data .boolean rfl rfl (by decide)
    | text s place => exact fun _ => ⟨rfl, fun _ => ⟨s, rfl⟩⟩
    | column | «attribute» =>
      intro constant
      cases constant
    | taxon u place =>
      intro constant
      rw [type] at constant
      split at constant <;> cases constant
    | paren n | computed _ n | transition _ n | root n =>
      exact inside n (List.mem_singleton_self n)
    | not n place =>
      intro constant
      obtain ⟨fixed, _⟩ := inside n (List.mem_singleton_self n) constant
      rw [check] at h
      have truth : (n.type ctx).isBoolean = true := by simpa using (Faults.addIf_eq_nil.1 h).2
      rw [ValueType.isBoolean, fixed, Bool.false_or] at truth
      exact isKnown_of_data _ (of_decide_eq_true truth) rfl (by decide) constant
    | isNull n negated place => exact isKnown_of_data .boolean rfl rfl (by decide)
    | call f args single place => exact isKnown_call f args single place
    | binary op l r place => exact isKnown_binary inside (check_binary_eq_nil h).2.2

theorem exists_text_of_type {n : Node} (h : n.check ctx [] = [])
    (constant : (n.type ctx).isConstant = true) (string : (n.type ctx).isString = true) :
    ∃ s, n.constant? = some (.text s) := by
  obtain ⟨fixed, text⟩ := isKnown_of_check h constant
  rw [ValueType.isString, fixed, Bool.false_or] at string
  exact text (of_decide_eq_true string)

/-- The unit of a difference without faults is a string constant. -/
theorem exists_text_of_dateDiff {args : List Node} {single : Bool} {place : Location}
    (h : (Node.call .dateDiff args single place).check ctx [] = []) :
    ∃ s, args[0]?.bind constant? = some (.text s) := by
  obtain ⟨_, passed, inside⟩ := check_call_eq_nil h
  obtain ⟨a, rest, same, first⟩ :=
    Parameter.checkAll_cons_eq_nil rfl rfl (Function.checkAll_of_checkParameters passed)
  obtain ⟨n, ns, rfl, rfl, _⟩ := List.map_eq_cons_iff.1 same
  obtain ⟨constant, string⟩ := Parameter.checkTyped_eq_nil rfl first
  exact exists_text_of_type (inside n (List.mem_cons_self ..)) constant string

/-- A formula of a taxon without faults passes string constants as time units, and truncates no time
to one that it passes. -/
theorem passesUnits_of_faults {n : Node} (valid : n.faults ctx = [])
    (taxon : ctx.setting = .taxon) :
    n.PassesUnits (fun f _ => f = .timestampDiff) fun _ => True := by
  intro m hm
  have own := all_check_eq_nil valid m hm
  cases m with
  | call f args single place =>
    intro u hu
    cases f with
    | dateDiff =>
      obtain ⟨s, hs⟩ := exists_text_of_dateDiff own
      cases hu
      exact ⟨s, hs, rfl⟩
    | dateTrunc =>
      have works := (check_call_eq_nil own).1
      rw [taxon] at works
      cases works
    | _ => cases hu
  | _ => trivial

end Node

end SemanticLayer.Formula
