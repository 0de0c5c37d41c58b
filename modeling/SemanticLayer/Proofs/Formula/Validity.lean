import SemanticLayer.Proofs.Formula.Plain

/-!
# What a formula without faults is like

Validation walks over a formula and only ever adds faults, so a walk that ends with none has found
none anywhere.

* `check_eq_nil`: a walk without faults started without, and met filled calls only;
* `isFilled_of_faults`: a formula that is read and has no faults is filled.
-/

namespace SemanticLayer.Formula

namespace Faults

theorem add_ne_nil (fs : Faults) (fault : Fault) (place : Location) : fs.add fault place ≠ [] := by
  simp [add]

theorem addIf_eq_nil {fs : Faults} {broken : Bool} {fault : Fault} {place : Location} :
    fs.addIf broken fault place = [] ↔ fs = [] ∧ broken = false := by
  cases broken <;> simp [addIf, add]

end Faults

/-- Whether a walk over faults forgets none: it ends with none only if it starts with none. -/
def Remembers (walk : Faults → Faults) : Prop := ∀ fs, walk fs = [] → fs = []

namespace Remembers

theorem addIf (broken : Bool) (fault : Fault) (place : Location) :
    Remembers fun fs => fs.addIf broken fault place := fun _ h => (Faults.addIf_eq_nil.1 h).1

theorem foldl {α : Type} {step : Faults → α → Faults} (h : ∀ a, Remembers fun fs => step fs a)
    (as : List α) : Remembers fun fs => as.foldl step fs := by
  induction as with
  | nil => exact fun _ h => h
  | cons a as ih => exact fun fs hfs => h a fs (ih (step fs a) hfs)

end Remembers

namespace Parameter

theorem remembers_checkTyped (p : Parameter) (f : String) (position : Nat) (check : TypeCheck)
    (a : Argument) : Remembers (p.checkTyped f position check a) := by
  intro fs h
  have inner := (Faults.addIf_eq_nil.1 h).1
  split at inner
  · exact absurd inner (Faults.add_ne_nil _ _ _)
  · exact (Faults.addIf_eq_nil.1 inner).1

theorem remembers_checkEach (p : Parameter) (f : String) (check : TypeCheck) (position : Nat)
    (as : List Argument) : Remembers (p.checkEach f check position as) := by
  induction as generalizing position with
  | nil => exact fun _ h => h
  | cons a as ih => exact fun fs h => p.remembers_checkTyped f position check a fs (ih _ _ h)

theorem remembers_check (p : Parameter) (f : String) (place : Location) (position : Nat)
    (args : List Argument) : Remembers (p.check f place position args) := by
  intro fs h
  unfold check at h
  split at h
  · exact p.remembers_checkTyped f position _ _ fs h
  · exact (Faults.addIf_eq_nil.1 h).1
  · exact p.remembers_checkEach f _ position _ fs h
  · split at h
    · exact h
    · have phases := Remembers.foldl (fun a : Argument => .addIf _ _ a.place) _ _ h
      exact absurd phases (Faults.add_ne_nil _ _ _)
  · exact h

theorem remembers_checkAll (f : String) (place : Location) (args : List Argument) (position : Nat)
    (ps : List Parameter) : Remembers (checkAll f place args position ps) := by
  induction ps generalizing position with
  | nil => exact fun _ h => h
  | cons p ps ih =>
    intro fs h
    have inner := ih _ _ h
    split at inner
    · exact (Faults.addIf_eq_nil.1 inner).1
    · exact p.remembers_check f place position _ fs inner

end Parameter

namespace Function

theorem checkAll_of_checkParameters {f : Function} {place : Location}
    {args : List Argument} {fs : Faults} (h : f.checkParameters place args fs = []) :
    Parameter.checkAll f.name place args 0 (f.parameters args.length) fs = [] := by
  unfold checkParameters at h
  dsimp only at h
  split at h
  · exact absurd h (Faults.add_ne_nil _ _ _)
  · exact (Faults.addIf_eq_nil.1 h).1

theorem remembers_checkParameters (f : Function) (place : Location) (args : List Argument) :
    Remembers (f.checkParameters place args) := fun fs h =>
  Parameter.remembers_checkAll f.name place args 0 _ fs (checkAll_of_checkParameters h)

/-- A call that passes has its first argument if it changes it. -/
theorem filled_of_checkParameters {f : Function} {place : Location} {args : List Argument}
    {fs : Faults} (h : f.checkParameters place args fs = []) :
    (!f.changesFirst || !args.isEmpty) = true := by
  cases args with
  | cons a as => simp
  | nil =>
    unfold checkParameters at h
    dsimp only at h
    split at h
    · exact absurd h (Faults.add_ne_nil _ _ _)
    · rename_i enough
      cases f <;> first | rfl | exact absurd (by decide) enough

theorem remembers_checkTimezones (position : Nat) (args : List Argument) :
    Remembers (checkTimezones position args) := by
  induction args generalizing position with
  | nil => exact fun _ h => h
  | cons a as ih => exact fun fs h => (Faults.addIf_eq_nil.1 (ih _ _ h)).1

/-- A call's own rules forget no fault, and have found one where they stop the walk. -/
theorem checkOwn_eq_nil {f : Function} {place : Location} {args : List Argument} {fs : Faults}
    (h : (f.checkOwn place args fs).1 = []) :
    fs = [] ∧ (f.checkOwn place args fs).2 = true := by
  unfold checkOwn at h ⊢
  split at h
  · exact ⟨(Faults.addIf_eq_nil.1 h).1, rfl⟩
  · exact ⟨(Faults.addIf_eq_nil.1 h).1, rfl⟩
  · exact ⟨remembers_checkTimezones 1 _ fs h, rfl⟩
  · exact ⟨(Faults.addIf_eq_nil.1 h).1, rfl⟩
  · split at h
    · exact ⟨h, by simp [*]⟩
    · exact absurd h (Faults.add_ne_nil _ _ _)
  · split at h
    · exact absurd h (Faults.add_ne_nil _ _ _)
    · exact ⟨h, by simp [*]⟩
  · exact ⟨(Faults.addIf_eq_nil.1 h).1, rfl⟩
  · exact ⟨h, rfl⟩

theorem remembers_checkCondition (f : Function) (place : Location) (args : List Argument) :
    Remembers (f.checkCondition place args) := by
  intro fs h
  unfold checkCondition at h
  simp only [Faults.addIf_eq_nil] at h
  exact h.1.1.1.1

end Function

namespace Node

variable {ctx : Context}

theorem remembers_checkUse (u : TaxonUse) (place : Location) :
    Remembers (checkUse ctx u place) := by
  intro fs h
  unfold checkUse at h
  split at h
  · exact h
  · exact (Faults.addIf_eq_nil.1 (Faults.addIf_eq_nil.1 h).1).1

theorem remembers_checkRoot (n : Node) (place : Location) :
    Remembers (checkRoot ctx n place) := by
  intro fs h
  have inner := (Faults.addIf_eq_nil.1 h).1
  split at inner
  · exact absurd inner (Faults.add_ne_nil _ _ _)
  · exact (Faults.addIf_eq_nil.1 inner).1

theorem checkEach_eq_nil {ns : List Node}
    (each : ∀ n ∈ ns, ∀ fs, n.check ctx fs = [] → fs = [] ∧ (n.isUnmoved = true → n.isFilled = true))
    {fs : Faults} (h : checkEach ctx ns fs = []) :
    fs = [] ∧ (allArePlain (fun _ _ => true) ns = true →
      allArePlain (fun f args => !f.changesFirst || !args.isEmpty) ns = true) := by
  induction ns generalizing fs with
  | nil =>
    rw [checkEach] at h
    exact ⟨h, fun _ => by rw [allArePlain]⟩
  | cons n ns ih =>
    obtain ⟨hn, hns⟩ := List.forall_mem_cons.1 each
    rw [checkEach] at h
    obtain ⟨first, rest⟩ := ih hns h
    obtain ⟨start, filled⟩ := hn fs first
    refine ⟨start, ?_⟩
    intro unmoved
    rw [allArePlain, Bool.and_eq_true] at unmoved ⊢
    exact ⟨filled unmoved.1, rest unmoved.2⟩

/-- A walk that ends without faults started without, and has met no call that lacks the argument it
changes. -/
theorem check_eq_nil {n : Node} {fs : Faults} (h : n.check ctx fs = []) :
    fs = [] ∧ (n.isUnmoved = true → n.isFilled = true) := by
  unfold isUnmoved isFilled
  induction n generalizing fs with
  | integer | decimal | text | bool | column =>
    rw [check] at h
    exact ⟨h, fun _ => by rw [isPlain]⟩
  | taxon u place =>
    rw [check] at h
    exact ⟨remembers_checkUse u place fs h, fun _ => by rw [isPlain]⟩
  | modelAttribute u _ place =>
    rw [check] at h
    exact ⟨remembers_checkUse u place fs h, fun _ => by rw [isPlain]⟩
  | paren n _ ih =>
    rw [check] at h
    simpa only [isPlain] using ih h
  | computed u n place ih =>
    rw [check] at h
    simpa only [isPlain] using ih (remembers_checkUse u place _ h)
  | binary op l r place hl hr =>
    rw [check] at h
    have operands : r.check ctx (l.check ctx fs) = [] := by
      split at h
      · split at h
        · exact List.isEmpty_iff.1 ‹_›
        · exact h
      · exact (Faults.addIf_eq_nil.1 h).1
    obtain ⟨left, filledRight⟩ := hr operands
    obtain ⟨start, filledLeft⟩ := hl left
    refine ⟨start, ?_⟩
    intro unmoved
    rw [isPlain, Bool.and_eq_true] at unmoved ⊢
    exact ⟨filledLeft unmoved.1, filledRight unmoved.2⟩
  | not n place ih =>
    rw [check] at h
    simpa only [isPlain] using ih (Faults.addIf_eq_nil.1 h).1
  | isNull n negated place ih =>
    rw [check] at h
    simpa only [isPlain] using ih h
  | call f args single place ih =>
    rw [check] at h
    dsimp only at h
    split at h
    · rename_i fs' own
      have found := Function.checkOwn_eq_nil (by rw [own]; exact h)
      rw [own] at found
      cases found.2
    · rename_i fs' own
      split at h
      · obtain ⟨parameters, filled⟩ :=
          checkEach_eq_nil (fun n hn fs => ih n hn) (Faults.addIf_eq_nil.1 h).1
        have passed : f.checkParameters place (args.map (Argument.of ctx)) fs' = [] := by
          split at parameters
          · exact f.remembers_checkCondition place _ _ parameters
          · exact parameters
        have first := Function.filled_of_checkParameters passed
        have start := f.remembers_checkParameters place _ fs' passed
        refine ⟨(Function.checkOwn_eq_nil (by rw [own]; exact start)).1, ?_⟩
        intro unmoved
        rw [isPlain, Bool.and_true] at unmoved
        rw [isPlain, filled unmoved, Bool.true_and]
        simpa using first
      · exact absurd h (Faults.add_ne_nil _ _ _)
  | transition t n a l place ih =>
    rw [check] at h
    exact ⟨(ih h).1, fun unmoved => by rw [isPlain] at unmoved; cases unmoved⟩
  | root n place ih =>
    rw [check] at h
    simp only [isPlain]
    split at h
    · exact ih (remembers_checkRoot n place _ h)
    · exact ih h

/-- A formula that is read and has no faults has the arguments that its calls change. -/
theorem isFilled_of_faults {formula : String} {n : Node}
    (hn : rootOfFormula ctx none formula = .ok n) (hf : n.faults ctx = []) :
    n.isFilled = true :=
  (check_eq_nil hf).2 (isUnmoved_rootOfFormula hn)

end Node

end SemanticLayer.Formula
