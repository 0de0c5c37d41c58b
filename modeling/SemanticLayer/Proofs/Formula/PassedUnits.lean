import SemanticLayer.Proofs.Formula.Simplified
import SemanticLayer.Proofs.Formula.Stripping

/-!
# Time units that a formula passes

Two functions pass the text of an argument on to the dialect as a time unit.  What is folded or
moved on the way to the query leaves that text as it is.

* `Node.PassesUnits`: whether each of their calls has a string constant there that is allowed;
* `LooksAtTexts.invariant`: no rule of simplification changes a text, so none changes a unit
  (`invariant_passesUnits`);
* `passesUnits_plan`: nor does a plan.
-/

namespace SemanticLayer.Formula

open Sql (DialectFunction)

/-- The place of a time unit among the arguments, and the dialect's function that takes it. -/
def Function.unit? : Function → Option (Nat × DialectFunction)
  | .dateDiff => some (0, .timestampDiff)
  | .dateTrunc => some (1, .dateTrunc)
  | _ => none

theorem Function.unit?_of_isMade {f : Function} (h : f.isMade = true) : f.unit? = none := by
  cases f <;> first | rfl | exact absurd h (by decide)

theorem Constant.text?_arithmetic? {op : Operator} {c d e : Constant}
    (h : arithmetic? op c d = some e) : e.text? = none := by
  unfold arithmetic? at h
  dsimp only at h
  split at h
  · cases h
    rfl
  · obtain ⟨x, _, h⟩ := Option.bind_eq_some_iff.1 h
    obtain ⟨y, _, h⟩ := Option.bind_eq_some_iff.1 h
    obtain ⟨z, _, h⟩ := Option.bind_eq_some_iff.1 h
    cases h
    rfl

namespace Node

variable {ctx : Context} {allowed : DialectFunction → String → Prop} {sources : Sql.Expr → Prop}

/-- Whether a call that takes a time unit has a string constant for it that is allowed, and an
attribute has SQL that is. -/
def PassesUnit (allowed : DialectFunction → String → Prop) (sources : Sql.Expr → Prop) :
    Node → Prop
  | .call f args _ _ =>
    ∀ u ∈ f.unit?, ∃ s, args[u.1]?.bind constant? = some (.text s) ∧ allowed u.2 s
  | .attribute _ sql _ => sources sql
  | _ => True

/-- Whether all calls and attributes within a node have. -/
def PassesUnits (allowed : DialectFunction → String → Prop) (sources : Sql.Expr → Prop) :
    Node → Prop :=
  All (PassesUnit allowed sources)

/-- What is known of calls and attributes apart is known together. -/
theorem PassesUnits.and {more : DialectFunction → String → Prop} {others : Sql.Expr → Prop}
    {n : Node} (h : n.PassesUnits allowed sources) (h' : n.PassesUnits more others) :
    n.PassesUnits (fun f s => allowed f s ∧ more f s) fun e => sources e ∧ others e := by
  intro m hm
  have first := h m hm
  have second := h' m hm
  cases m with
  | call f args =>
    intro u hu
    obtain ⟨s, hs, inside⟩ := first u hu
    obtain ⟨t, ht, inside'⟩ := second u hu
    rw [hs] at ht
    cases ht
    exact ⟨s, hs, inside, inside'⟩
  | «attribute» => exact ⟨first, second⟩
  | _ => trivial

/-- What is allowed of calls may be widened, and attributes may be known by other means. -/
theorem PassesUnits.mono {more : DialectFunction → String → Prop} {others : Sql.Expr → Prop}
    {n : Node} (h : n.PassesUnits allowed sources) (calls : ∀ f s, allowed f s → more f s)
    (attributes : n.All fun m => ∀ e ∈ m.attributeSql?, others e) : n.PassesUnits more others := by
  intro m hm
  have own := h m hm
  cases m with
  | call f args =>
    intro u hu
    obtain ⟨s, hs, inside⟩ := own u hu
    exact ⟨s, hs, calls _ _ inside⟩
  | «attribute» => exact attributes _ hm _ rfl
  | _ => trivial

/-! ## Simplification -/

/-- Whether a node that is a text stays that text. -/
def KeepsText (n m : Node) : Prop := ∀ s, n.constant? = some (.text s) → m.constant? = some (.text s)

theorem constant?_toNode (c : Constant) (place : Location) : (c.toNode place).constant? = some c := by
  cases c <;> rfl

theorem keepsText_of_numeric {op : Operator} {l r : Node} {place : Location} (m : Node)
    (h : op.isNumeric = true) : KeepsText (.binary op l r place) m := by
  intro s hs
  obtain ⟨a, _, hs⟩ := Option.bind_eq_some_iff.1 hs
  obtain ⟨b, _, hs⟩ := Option.bind_eq_some_iff.1 hs
  rw [Constant.operate?, if_pos h] at hs
  cases Constant.text?_arithmetic? hs

theorem keepsText_withChildren {n : Node} {ms : List Node} (inside : n.rule ctx = .inside)
    (each : List.Forall₂ KeepsText n.children ms) : KeepsText n (n.withChildren ms) := by
  intro s hs
  cases n with
  | integer | decimal | text | bool | column | taxon | «attribute» => exact hs
  | paren n | computed _ n | transition _ n | root n =>
    obtain ⟨m, _, same, rest, rfl⟩ := List.forall₂_cons_left_iff.1 each
    cases rest
    exact same s hs
  | not n =>
    obtain ⟨_, _, hs⟩ := Option.map_eq_some_iff.1 hs
    cases hs
  | isNull | call => cases hs
  | binary op l r place =>
    rw [rule, hs] at inside
    split at inside <;> cases inside

theorem passesUnit_withChildren {n : Node} {ms : List Node} (h : n.PassesUnit allowed sources)
    (each : List.Forall₂ KeepsText n.children ms) : (n.withChildren ms).PassesUnit allowed sources := by
  cases n with
  | integer | decimal | text | bool | column | taxon | «attribute» => exact h
  | paren | computed | not | isNull | transition | root =>
    obtain ⟨m, rfl⟩ := List.length_eq_one_iff.1 each.length_eq.symm
    trivial
  | binary =>
    obtain ⟨l, r, rfl⟩ := List.length_eq_two.1 each.length_eq.symm
    trivial
  | call f args single place =>
    intro u hu
    obtain ⟨s, hs, inside⟩ := h u hu
    obtain ⟨n, hn, hs⟩ := Option.bind_eq_some_iff.1 hs
    obtain ⟨bound, rfl⟩ := List.getElem?_eq_some_iff.1 hn
    have bound' : u.1 < ms.length := each.length_eq ▸ bound
    have same := each.get bound bound'
    refine ⟨s, ?_, inside⟩
    rw [List.getElem?_eq_getElem bound', Option.bind_some]
    exact same s hs

/-- Whether a property of nodes is kept around children that stay the texts they are, and is no matter
of what simplification makes. -/
structure LooksAtTexts (p : Node → Prop) : Prop where
  constant : ∀ (c : Constant) place, p (c.toNode place)
  binary : ∀ op l r place, p (.binary op l r place)
  call : ∀ {f ns single place}, f.isMade = true → p (.call f ns single place)
  withChildren : ∀ {n ms}, p n → List.Forall₂ KeepsText n.children ms → p (n.withChildren ms)

/-- No rule of simplification changes a text. -/
theorem LooksAtTexts.invariant {p : Node → Prop} (hp : LooksAtTexts p) (ctx : Context) :
    Invariant ctx (All p) KeepsText where
  refl _ _ h := h
  trans h h' s hs := h' s (h s hs)
  constant c place :=
    all_of_children_eq_nil (by cases c <;> rfl) (hp.constant c place)
  binary hl hr := all_binary.2 ⟨hp.binary .., hl, hr⟩
  call made hn hns := all_iff.2 ⟨hp.call made, List.forall_mem_cons.2 ⟨hn, hns⟩⟩
  children hn _ := (all_iff.1 hn).2
  withChildren := by
    intro n ms hn inside hms each
    refine ⟨all_iff.2 ⟨hp.withChildren (all_iff.1 hn).1 each, ?_⟩,
      keepsText_withChildren inside each⟩
    rw [children_withChildren each.length_eq.symm]
    exact hms
  ofConstant place h s hs := by
    rw [h] at hs
    rw [constant?_toNode]
    exact hs
  ofCall m s hs := nomatch hs
  ofNumeric m h := keepsText_of_numeric m h

/-- No rule of simplification changes a time unit. -/
theorem invariant_passesUnits (ctx : Context) (allowed : DialectFunction → String → Prop)
    (sources : Sql.Expr → Prop) : Invariant ctx (PassesUnits allowed sources) KeepsText :=
  LooksAtTexts.invariant
    { constant := fun c _ => by cases c <;> trivial
      binary := fun _ _ _ _ => trivial
      call := fun made u hu => by
        rw [Function.unit?_of_isMade made] at hu
        cases hu
      withChildren := passesUnit_withChildren } ctx

/-! ## Plans -/

theorem constant?_stripped (n : Node) : n.stripped.constant? = n.constant? := by
  induction n with
  | integer | decimal | text | bool | column | taxon | modelAttribute => rw [stripped]
  | isNull | call =>
    rw [stripped]
    rfl
  | paren n _ ih | computed _ n _ ih | root n _ ih => rw [stripped, constant?, constant?, ih]
  | not n _ ih => rw [stripped, constant?, constant?, ih]
  | binary op l r _ hl hr => rw [stripped, constant?, constant?, hl, hr]
  | transition _ n _ _ _ ih => rw [stripped, constant?, ih]

theorem passesUnits_stripped {n : Node} :
    n.stripped.PassesUnits allowed sources ↔ n.PassesUnits allowed sources := by
  refine all_stripped (fun _ _ _ _ _ => trivial) (fun n kind => ?_) n
  cases n with
  | transition => cases kind
  | call f args single place =>
    have same (i : Nat) : (args.map stripped)[i]?.bind constant? = args[i]?.bind constant? := by
      rw [List.getElem?_map, Option.bind_map]
      exact congrArg (Option.bind args[i]?) (funext constant?_stripped)
    rw [stripped, strippedEach_eq]
    simp only [PassesUnit, same]
  | _ => exact Iff.rfl

/-- A plan passes the units of the node that is planned. -/
theorem passesUnits_plan {n : Node} (parent : Parent) :
    (n.plan ctx parent).PassesUnits allowed sources ↔ n.PassesUnits allowed sources := by
  rw [← passesUnits_stripped, stripped_plan, passesUnits_stripped]

end Node

end SemanticLayer.Formula
