import SemanticLayer.Proofs.Formula.Evaluability
import SemanticLayer.Proofs.Formula.Validity

/-!
# Conditions with one test

A choice between two outcomes can be written with either of the two functions for conditions.

* `Aggregation.GoesWith`: an aggregation that adds nothing to one that is agreed on;
* `Faults.Alike`: faults that are the same but for which of the two functions they name;
* `Node.respects_check`: a walk goes on alike after faults that are alike;
* `Node.SameValue`: nodes that stand for one value, wherever they are moved;
* `Node.ComputesAlike`: nodes of the same kind, validity and SQL;
* `Node.choice_computesAlike_and_aggregation_eq_iff`: choices written either way compute alike, and
  are aggregated alike exactly if the outcome where the test fails goes with the other one.

The aggregation of a condition with many tests leaves that outcome out.
-/

namespace SemanticLayer

/-! ## Aggregations -/

namespace Aggregation

/-- Whether an aggregation adds nothing to one that is agreed on: it is not set, or of its type. -/
def GoesWith (other? agreed? : Option Aggregation) : Prop :=
  ∀ agreed ∈ agreed?, ∃ other ∈ other?, other.isSet = true → other.type = agreed.type

/-- A fallback takes no parameters, so its type tells it. -/
theorem type_eq_fallback_iff {t : TaxonType} {a : Aggregation} :
    a.type = (fallback t).type ↔ a = fallback t := by
  cases t <;> cases a <;> simp [fallback, type]

theorem common?_some_some (unset a b : Aggregation) :
    common? unset [some a, some b] =
      if a.isSet then if b.isSet = true → b.type = a.type then some a else none
      else some (if b.isSet then b else unset) := by
  have both : [some a, some b].mapM id = some [a, b] := rfl
  unfold common?
  rw [both]
  dsimp only
  cases ha : a.isSet <;> cases hb : b.isSet <;> simp [List.filter, ha, hb]

theorem common?_some (unset a : Aggregation) :
    common? unset [some a] = some (if a.isSet then a else unset) := by
  have one : [some a].mapM id = some [a] := rfl
  unfold common?
  rw [one]
  dsimp only
  cases ha : a.isSet <;> simp [List.filter, ha]

/-- An aggregation changes nothing about what another gives exactly if it goes with it. -/
theorem common?_pair_eq_iff {t : TaxonType} {a? b? : Option Aggregation} :
    common? (fallback t) [a?, b?] = common? (fallback t) [a?] ↔
      GoesWith b? (common? (fallback t) [a?]) := by
  match a?, b? with
  | none, _ => exact iff_of_true rfl fun _ h => nomatch h
  | some a, none =>
    rw [common?_some]
    exact iff_of_false nofun fun h => by
      obtain ⟨_, none, _⟩ := h _ rfl
      cases none
  | some a, some b =>
    rw [common?_some, common?_some_some]
    unfold GoesWith
    simp only [Option.mem_some_iff, forall_eq', exists_eq_left']
    cases a.isSet with
    | true => simp
    | false =>
      cases b.isSet with
      | true => simp [type_eq_fallback_iff]
      | false => simp

end Aggregation

namespace Formula

/-! ## Faults that name functions -/

namespace Fault

/-- The fault of a function with another name. -/
def mapFunction (rename : String → String) : Fault → Fault
  | .incompatibleArguments f => .incompatibleArguments (rename f)
  | .argumentNotConstant position f expected => .argumentNotConstant position (rename f) expected
  | .argumentType position f expected => .argumentType position (rename f) expected
  | .argumentPhase position f expected => .argumentPhase position (rename f) expected
  | .tooFewArguments f required optional given => .tooFewArguments (rename f) required optional given
  | .missingArgument position f => .missingArgument position (rename f)
  | .argumentCount f given expected => .argumentCount (rename f) given expected
  | .timeUnit f unit supported => .timeUnit (rename f) unit supported
  | .dateFormatMissing f => .dateFormatMissing (rename f)
  | .dateFormatOfNumber f => .dateFormatOfNumber (rename f)
  | .flagNotConstant f => .flagNotConstant (rename f)
  | .unsupportedDialect dialect f => .unsupportedDialect dialect (rename f)
  | .mixedOutcomes f => .mixedOutcomes (rename f)
  | .metricCondition f => .metricCondition (rename f)
  | .dimensionCondition f => .dimensionCondition (rename f)
  | .incompatibleOutcomes f => .incompatibleOutcomes (rename f)
  | fault => fault

end Fault

/-- The name of a function, and one name for both conditions. -/
def Function.sharedName (name : String) : String :=
  if name = Function.iff.name then Function.ifs.name else name

/-- The fault with one name for both conditions. -/
def Fault.shared (fault : Fault) : Fault := fault.mapFunction Function.sharedName

def LocatedFault.shared (f : LocatedFault) : LocatedFault := ⟨f.fault.shared, f.location⟩

/-- Whether faults are the same in the same places, but for the condition that they name. -/
def Faults.Alike (fs gs : Faults) : Prop :=
  fs.map LocatedFault.shared = gs.map LocatedFault.shared

namespace Faults.Alike

variable {fs gs : Faults} {place : Location}

theorem refl (fs : Faults) : fs.Alike fs := rfl

theorem isEmpty (h : fs.Alike gs) : fs.isEmpty = gs.isEmpty := by
  have length := congrArg List.isEmpty h
  rwa [List.isEmpty_map, List.isEmpty_map] at length

theorem add (h : fs.Alike gs) {a b : Fault} (same : a.shared = b.shared) :
    (fs.add a place).Alike (gs.add b place) := by
  unfold Faults.Alike Faults.add at *
  rw [List.map_append, List.map_append, h]
  exact congrArg (fun fault => _ ++ [(⟨fault, place⟩ : LocatedFault)]) same

theorem addIf (h : fs.Alike gs) (broken : Bool) {a b : Fault} (same : a.shared = b.shared) :
    (fs.addIf broken a place).Alike (gs.addIf broken b place) := by
  cases broken with
  | false => exact h
  | true => exact h.add same

end Faults.Alike

/-- Whether two walks over faults go on alike after faults that are alike. -/
def Respects (walk other : Faults → Faults) : Prop :=
  ∀ fs gs : Faults, fs.Alike gs → (walk fs).Alike (other gs)

namespace Respects

theorem foldl {α : Type} {step other : Faults → α → Faults}
    (h : ∀ a, Respects (step · a) (other · a)) (as : List α) :
    Respects (as.foldl step ·) (as.foldl other ·) := by
  induction as with
  | nil => exact fun _ _ h => h
  | cons a as ih => exact fun fs gs hfs => ih _ _ (h a fs gs hfs)

end Respects

/-! ## Rules on arguments -/

namespace Parameter

variable {f g : String} (same : Function.sharedName f = Function.sharedName g)
include same

theorem respects_checkPhase (p : Parameter) (position : Nat) (a : Argument) :
    Respects (p.checkPhase f position a) (p.checkPhase g position a) :=
  fun _ _ h => h.addIf _ (congrArg (Fault.argumentPhase position · p.phases) same)

theorem respects_checkTyped (p : Parameter) (position : Nat) (check : TypeCheck) (a : Argument) :
    Respects (p.checkTyped f position check a) (p.checkTyped g position check a) := by
  intro fs gs h
  refine respects_checkPhase same p position a _ _ ?_
  split
  · exact h.add (congrArg (Fault.argumentNotConstant position · check) same)
  · exact h.addIf _ (congrArg (Fault.argumentType position · check) same)

theorem respects_checkEach (p : Parameter) (check : TypeCheck) (position : Nat)
    (as : List Argument) :
    Respects (p.checkEach f check position as) (p.checkEach g check position as) := by
  induction as generalizing position with
  | nil => exact fun _ _ h => h
  | cons a as ih =>
    exact fun fs gs h => ih _ _ _ (respects_checkTyped same p position check a fs gs h)

theorem respects_check (p : Parameter) (place : Location) (position : Nat) (as : List Argument) :
    Respects (p.check f place position as) (p.check g place position as) := by
  intro fs gs h
  unfold check
  split
  · exact respects_checkTyped same p position _ _ fs gs h
  · exact respects_checkPhase same p position _ fs gs h
  · exact respects_checkEach same p _ position _ fs gs h
  · split
    · exact h
    · refine Respects.foldl (fun a => respects_checkPhase same p position a) _ _ _ ?_
      exact h.add (congrArg Fault.incompatibleArguments same)
  · exact h

theorem respects_checkAll (place : Location) (as : List Argument) (position : Nat)
    (ps : List Parameter) :
    Respects (checkAll f place as position ps) (checkAll g place as position ps) := by
  induction ps generalizing position with
  | nil => exact fun _ _ h => h
  | cons p ps ih =>
    intro fs gs h
    refine ih _ _ _ ?_
    split
    · exact h.addIf _ (congrArg (Fault.missingArgument position) same)
    · exact respects_check same p place position _ fs gs h

end Parameter

namespace Parameter

/-- The parameter but for its name. -/
def unnamed (p : Parameter) : Parameter := { p with name := "" }

/-! The name of a parameter is not looked at. -/

theorem checkEach_unnamed (p : Parameter) (f : String) (check : TypeCheck) (position : Nat)
    (as : List Argument) :
    p.unnamed.checkEach f check position as = p.checkEach f check position as := by
  induction as generalizing position with
  | nil => rfl
  | cons a as ih =>
    funext fs
    rw [checkEach, checkEach, ih]
    rfl

theorem check_unnamed (p : Parameter) (f : String) (place : Location) (position : Nat)
    (as : List Argument) :
    p.unnamed.check f place position as = p.check f place position as := by
  funext fs
  unfold check
  simp only [checkEach_unnamed]
  rfl

theorem checkAll_unnamed (f : String) (place : Location) (as : List Argument) (position : Nat)
    (ps : List Parameter) :
    checkAll f place as position (ps.map unnamed) = checkAll f place as position ps := by
  induction ps generalizing position with
  | nil => rfl
  | cons p ps ih =>
    funext fs
    rw [List.map_cons, checkAll, checkAll, ih, check_unnamed]
    rfl

theorem taken_unnamed {α : Type} (as : List α) (position : Nat) (ps : List Parameter) :
    taken as position (ps.map unnamed) = taken as position ps := by
  induction ps generalizing position with
  | nil => rfl
  | cons p ps ih =>
    rw [List.map_cons, taken, taken, ih]
    rfl

end Parameter

/-! ## Rules on calls -/

namespace Function

theorem respects_checkTimezones (position : Nat) (as : List Argument) :
    Respects (checkTimezones position as) (checkTimezones position as) := by
  induction as generalizing position with
  | nil => exact fun _ _ h => h
  | cons a as ih => exact fun fs gs h => ih _ _ _ (h.addIf _ rfl)

/-- Whether the calls of two functions with the same arguments are held against alike rules. -/
structure ChecksAlike (f g : Function) (place : Location) (as : List Argument) : Prop where
  name : sharedName f.name = sharedName g.name
  own : ∀ fs gs : Faults, fs.Alike gs → (f.checkOwn place as fs).1.Alike (g.checkOwn place as gs).1 ∧
    (f.checkOwn place as fs).2 = (g.checkOwn place as gs).2
  parameters : Respects (f.checkParameters place as) (g.checkParameters place as)
  isCondition : f.isCondition = g.isCondition
  condition : Respects (f.checkCondition place as) (g.checkCondition place as)
  worksIn : f.worksIn = g.worksIn
  mixesSources : f.mixesSources as = g.mixesSources as

theorem respects_checkOwn (f : Function) (place : Location) (as : List Argument) {fs gs : Faults}
    (h : fs.Alike gs) :
    (f.checkOwn place as fs).1.Alike (f.checkOwn place as gs).1 ∧
      (f.checkOwn place as fs).2 = (f.checkOwn place as gs).2 := by
  unfold checkOwn
  split
  · exact ⟨h.addIf _ rfl, rfl⟩
  · exact ⟨h.addIf _ rfl, rfl⟩
  · exact ⟨respects_checkTimezones 1 _ fs gs h, rfl⟩
  · exact ⟨h.addIf _ rfl, rfl⟩
  · split
    · exact ⟨h, rfl⟩
    · exact ⟨h.add rfl, rfl⟩
  · split
    · exact ⟨h.add rfl, rfl⟩
    · exact ⟨h, rfl⟩
  · exact ⟨h.addIf _ rfl, rfl⟩
  · exact ⟨h, rfl⟩

theorem respects_checkCondition {f g : Function} (same : sharedName f.name = sharedName g.name)
    (types : f.type = g.type) (place : Location) (as : List Argument) :
    Respects (f.checkCondition place as) (g.checkCondition place as) := by
  intro fs gs h
  unfold checkCondition
  rw [types]
  refine Faults.Alike.addIf (Faults.Alike.addIf (Faults.Alike.addIf (h.addIf _ ?_) _ ?_) _ ?_) _ ?_
  · exact congrArg Fault.mixedOutcomes same
  · exact congrArg Fault.metricCondition same
  · exact congrArg Fault.dimensionCondition same
  · exact congrArg Fault.incompatibleOutcomes same

theorem checksAlike_self (f : Function) (place : Location) (as : List Argument) :
    ChecksAlike f f place as where
  name := rfl
  own _ _ h := f.respects_checkOwn place as h
  parameters := by
    intro fs gs h
    unfold checkParameters
    dsimp only
    split
    · exact h.add rfl
    · exact (Parameter.respects_checkAll rfl place as 0 _ fs gs h).addIf _ rfl
  isCondition := rfl
  condition := respects_checkCondition rfl rfl place as
  worksIn := rfl
  mixesSources := rfl

theorem sharedName_iff : sharedName Function.iff.name = sharedName Function.ifs.name := by decide

/-- With enough arguments, each is held against its parameter, and then their number is. -/
theorem checkParameters_of_enough {f : Function} {place : Location} {as : List Argument}
    {fs : Faults}
    (enough : ((f.parameters as.length).filter fun p => !p.isOptional).length ≤ as.length) :
    f.checkParameters place as fs =
      (Parameter.checkAll f.name place as 0 (f.parameters as.length) fs).addIf
        (Parameter.taken as 0 (f.parameters as.length) ≠ as.length)
        (.argumentCount f.name as.length (Parameter.taken as 0 (f.parameters as.length))) place := by
  unfold checkParameters
  dsimp only
  rw [List.length_map, if_neg (Nat.not_lt.2 enough)]

/-- Given one test with its outcome, and maybe another outcome, both conditions have the same
parameters but for their names. -/
theorem parameters_choice {count : Nat} (two : count = 2 ∨ count = 3) :
    (Function.iff.parameters count).map Parameter.unnamed =
      (Function.ifs.parameters count).map Parameter.unnamed := by
  obtain rfl | rfl := two <;> decide

theorem required_choice {count : Nat} (two : count = 2 ∨ count = 3) :
    ((Function.iff.parameters count).filter fun p => !p.isOptional).length ≤ count ∧
      ((Function.ifs.parameters count).filter fun p => !p.isOptional).length ≤ count := by
  obtain rfl | rfl := two <;> decide

theorem checksAlike_choice (place : Location) (test outcome : Argument)
    (otherwise? : Option Argument) :
    ChecksAlike .iff .ifs place (test :: outcome :: otherwise?.toList) where
  name := sharedName_iff
  own := by
    intro fs gs h
    exact ⟨h, rfl⟩
  parameters := by
    intro fs gs h
    generalize as' : test :: outcome :: otherwise?.toList = as
    have two : as.length = 2 ∨ as.length = 3 := by
      subst as'
      cases otherwise? with
      | none => exact .inl rfl
      | some _ => exact .inr rfl
    have renamed := parameters_choice two
    have enough := required_choice two
    rw [checkParameters_of_enough enough.1, checkParameters_of_enough enough.2,
      ← Parameter.taken_unnamed as 0 (Function.iff.parameters _),
      ← Parameter.taken_unnamed as 0 (Function.ifs.parameters _),
      ← Parameter.checkAll_unnamed Function.iff.name, ← Parameter.checkAll_unnamed Function.ifs.name,
      renamed]
    exact (Parameter.respects_checkAll sharedName_iff place _ 0 _ fs gs h).addIf _
      (congrArg (Fault.argumentCount · _ _) sharedName_iff)
  isCondition := rfl
  condition := respects_checkCondition sharedName_iff rfl place _
  worksIn := by
    funext s
    rfl
  mixesSources := by
    simp [mixesSources]

end Function

/-! ## The walk over a formula -/

namespace Node

variable {ctx : Context}

theorem respects_checkUse (u : TaxonUse) (place : Location) :
    Respects (checkUse ctx u place) (checkUse ctx u place) := by
  intro fs gs h
  unfold checkUse
  split
  · exact h
  · exact (h.addIf _ rfl).addIf _ rfl

theorem respects_checkOperand (op : Operator) (position : Nat) (n : Node) :
    Respects (checkOperand ctx op position n) (checkOperand ctx op position n) :=
  fun _ _ h => h.addIf _ rfl

theorem respects_checkRoot (n : Node) (place : Location) :
    Respects (checkRoot ctx n place) (checkRoot ctx n place) := by
  intro fs gs h
  refine Faults.Alike.addIf ?_ _ rfl
  split
  · exact h.add rfl
  · exact h.addIf _ rfl

theorem respects_checkEach {ns : List Node}
    (each : ∀ n ∈ ns, Respects (n.check ctx) (n.check ctx)) :
    Respects (checkEach ctx ns) (checkEach ctx ns) := by
  induction ns with
  | nil =>
    intro fs gs h
    rw [checkEach, checkEach]
    exact h
  | cons n ns ih =>
    obtain ⟨hn, hns⟩ := List.forall_mem_cons.1 each
    intro fs gs h
    rw [checkEach, checkEach]
    exact ih hns _ _ (hn fs gs h)

theorem respects_check_call {f g : Function} {args : List Node} {single : Bool} {place : Location}
    (rules : Function.ChecksAlike f g place (args.map (Argument.of ctx)))
    (each : Respects (checkEach ctx args) (checkEach ctx args)) :
    Respects ((Node.call f args single place).check ctx)
      ((Node.call g args single place).check ctx) := by
  intro fs gs h
  rw [check, check]
  dsimp only
  obtain ⟨start, goesOn⟩ := rules.own fs gs h
  generalize f.checkOwn place (args.map (Argument.of ctx)) fs = own at start goesOn
  generalize g.checkOwn place (args.map (Argument.of ctx)) gs = other at start goesOn
  obtain ⟨fs, more⟩ := own
  obtain ⟨gs, more'⟩ := other
  cases goesOn
  cases more with
  | false => exact start
  | true =>
    dsimp only at start ⊢
    have held := rules.parameters fs gs start
    rw [← rules.isCondition, ← rules.worksIn, ← rules.mixesSources]
    have conditioned : (if f.isCondition then f.checkCondition place (args.map (Argument.of ctx))
        (f.checkParameters place (args.map (Argument.of ctx)) fs)
        else f.checkParameters place (args.map (Argument.of ctx)) fs).Alike
        (if f.isCondition then g.checkCondition place (args.map (Argument.of ctx))
          (g.checkParameters place (args.map (Argument.of ctx)) gs)
          else g.checkParameters place (args.map (Argument.of ctx)) gs) := by
      split
      · exact rules.condition _ _ held
      · exact held
    split
    · have inner := each _ _ conditioned
      rw [inner.isEmpty]
      exact inner.addIf _ rfl
    · exact conditioned.add (congrArg (Fault.unsupportedDialect ctx.setting.name) rules.name)

/-- A walk over a formula goes on alike after alike faults. -/
theorem respects_check (n : Node) : Respects (n.check ctx) (n.check ctx) := by
  induction n with
  | integer | decimal | text | bool | column =>
    intro fs gs h
    rw [check, check]
    exact h
  | taxon u place =>
    intro fs gs h
    rw [check, check]
    exact respects_checkUse u place fs gs h
  | modelAttribute u _ place =>
    intro fs gs h
    rw [check, check]
    exact respects_checkUse u place fs gs h
  | paren n _ ih | isNull n _ _ ih | transition _ n _ _ _ ih =>
    intro fs gs h
    rw [check, check]
    exact ih fs gs h
  | computed u n place ih =>
    intro fs gs h
    rw [check, check]
    exact respects_checkUse u place _ _ (ih fs gs h)
  | binary op l r place hl hr =>
    intro fs gs h
    rw [check, check]
    have operands := hr _ _ (hl fs gs h)
    rw [operands.isEmpty]
    split
    · split
      · exact respects_checkOperand op 2 r _ _ (respects_checkOperand op 1 l _ _ operands)
      · exact operands
    · exact operands.addIf _ rfl
  | not n place ih =>
    intro fs gs h
    rw [check, check]
    exact (ih fs gs h).addIf _ rfl
  | call f args single place ih =>
    exact respects_check_call (f.checksAlike_self place _) (respects_checkEach ih)
  | root n place ih =>
    intro fs gs h
    rw [check, check]
    have inner := ih fs gs h
    rw [inner.isEmpty]
    split
    · exact respects_checkRoot n place _ _ inner
    · exact inner

/-! ## Values -/

/-- Whether nodes stand for the same value, made in the same place by the same SQL. -/
structure SameValue (ctx : Context) (m n : Node) : Prop where
  place : m.place = n.place
  phase : m.phase ctx = n.phase ctx
  type : m.type ctx = n.type ctx
  isMissing : m.isMissing ctx = n.isMissing ctx
  used : m.used ctx = n.used ctx
  dataSources : m.dataSources = n.dataSources
  placeholders : m.placeholders = n.placeholders
  evaluate : m.evaluate ctx = n.evaluate ctx

namespace SameValue

variable {m n : Node}

theorem outcome (h : SameValue ctx m n) : m.outcome ctx = n.outcome ctx := by
  unfold Node.outcome
  rw [h.evaluate, h.phase, h.used, h.isMissing, h.dataSources, h.type, h.placeholders]

theorem transition (h : SameValue ctx m n) (t : Target) (a : Aggregation) (label? : Option String)
    (place : Location) :
    SameValue ctx (.transition t m a label? place) (.transition t n a label? place) where
  place := rfl
  phase := by rw [Node.phase, Node.phase]
  type := h.type
  isMissing := h.isMissing
  used := h.used
  dataSources := h.dataSources
  placeholders := h.placeholders
  evaluate := by
    rw [Node.evaluate, Node.evaluate, h.evaluate]
    unfold evaluateTransition addFormula
    rw [h.phase, h.isMissing, h.used, h.dataSources, h.placeholders]

theorem toDimension (h : SameValue ctx m n) : SameValue ctx m.toDimension n.toDimension := by
  unfold Node.toDimension
  rw [h.place]
  exact h.transition _ _ _ _

theorem toAggregation (h : SameValue ctx m n) (aggregation? : Option Aggregation)
    (label? : Option String) :
    SameValue ctx (m.toAggregation aggregation? label?) (n.toAggregation aggregation? label?) := by
  unfold Node.toAggregation
  rw [h.place]
  exact h.transition _ _ _ _

theorem toPostAggregation (h : SameValue ctx m n) {a? b? : Option Aggregation}
    (label? : Option String)
    (same : (m.toPostAggregation a? label?).aggregation? ctx =
      (n.toPostAggregation b? label?).aggregation? ctx) :
    SameValue ctx (m.toPostAggregation a? label?) (n.toPostAggregation b? label?) := by
  have aggregated : a?.getD .sum = b?.getD .sum := Option.some.inj same
  unfold Node.toPostAggregation
  rw [h.place, aggregated]
  exact h.transition _ _ _ _

/-- The ends of whole formulas have the same value if they are aggregated alike. -/
theorem planRoot (h : SameValue ctx m n)
    (same : (Node.planRoot ctx m).aggregation? ctx = (Node.planRoot ctx n).aggregation? ctx) :
    SameValue ctx (Node.planRoot ctx m) (Node.planRoot ctx n) := by
  unfold Node.planRoot at same ⊢
  dsimp only at same ⊢
  rw [h.phase] at same ⊢
  split_ifs at same ⊢
  · exact h.toDimension
  · exact h
  · split at same
    · exact (h.toDimension.toAggregation _ _).toPostAggregation _ same
    · exact (h.toAggregation _ _).toPostAggregation _ same
    · exact (h.toAggregation _ _).toPostAggregation _ same
    · exact h.toPostAggregation _ same
    · exact h

theorem root (h : SameValue ctx m n) (place : Location) :
    SameValue ctx (.root m place) (.root n place) where
  place := rfl
  phase := by rw [Node.phase, Node.phase]
  type := h.type
  isMissing := h.isMissing
  used := h.used
  dataSources := h.dataSources
  placeholders := h.placeholders
  evaluate := by rw [Node.evaluate, Node.evaluate, h.evaluate, h.isMissing]

end SameValue

theorem plan_root (n : Node) (whole : Location) (parent : Parent) :
    (Node.root n whole).plan ctx parent =
      .root (if n.isMissing ctx then n else planRoot ctx (n.plan ctx .root)) whole := by
  rw [plan]

section
variable (args : List Node) (single : Bool) (place : Location)

theorem sameValue_call :
    SameValue ctx (.call .iff args single place) (.call .ifs args single place) := by
  have samePhase : (Node.call .iff args single place).phase ctx =
      (Node.call .ifs args single place).phase ctx := by
    rw [phase, phase]
    rfl
  refine ⟨rfl, samePhase, ?_, ?_, ?_, ?_, ?_, ?_⟩
  · rw [type, type]
    rfl
  · rw [isMissing, isMissing]
    rfl
  · rw [used, used]
  · rfl
  · rfl
  · rw [evaluate, evaluate, samePhase]
    rfl

theorem simplifyWith_condition {f : Function} (condition : f = .iff ∨ f = .ifs)
    (split : Splitter) (step : Step) :
    simplifyWith ctx split step (.call f args single place) =
      (simplifyEach ctx split step args).map (Node.call f · single place) := by
  cases args with
  | nil => obtain rfl | rfl := condition <;> rfl
  | cons first rest =>
    have whole : simplifyWith ctx split step (.call f (first :: rest) single place) = (do
        return .call f ((← step (← simplifyWith ctx split step first)) ::
          (← simplifyEach ctx split step rest)) single place) := by
      obtain rfl | rfl := condition <;> rfl
    rw [whole, simplifyEach]
    simp only [Option.bind_eq_bind, Option.pure_def, Option.map_bind, Function.comp_def,
      Option.map_some]

/-- What a condition's arguments are simplified to does not depend on the function. -/
theorem simplify_condition (ctx : Context) : ∃ simplified : List Node, ∀ f : Function,
    f = .iff ∨ f = .ifs →
      (Node.call f args single place).simplify ctx = .call f simplified single place := by
  refine ⟨(simplifyEach ctx (splitRatio ctx ((sizeAll args + 3) * (sizeAll args + 3))) some
    args).getD args, fun f condition => ?_⟩
  unfold simplify simplify?
  rw [simplifyWith_condition _ _ _ condition, size]
  exact Option.getD_map (Node.call f · single place) args _

theorem simplify_root_condition (ctx : Context) (whole : Location) :
    ∃ simplified : List Node, ∀ f : Function, f = .iff ∨ f = .ifs →
      (Node.root (.call f args single place) whole).simplify ctx =
        .root (.call f simplified single place) whole := by
  refine ⟨(simplifyEach ctx (splitRatio ctx ((sizeAll args + 4) * (sizeAll args + 4))) some
    args).getD args, fun f condition => ?_⟩
  unfold simplify simplify?
  rw [simplifyWith, simplifyWith_condition _ _ _ condition, size, size]
  cases simplifyEach ctx (splitRatio ctx ((sizeAll args + 4) * (sizeAll args + 4))) some args with
  | none => rfl
  | some _ => rfl

theorem plan_condition (ctx : Context) (parent : Parent) : ∃ planned : List Node, ∀ f : Function,
    f = .iff ∨ f = .ifs →
      (Node.call f args single place).plan ctx parent = .call f planned single place := by
  refine ⟨args.zipWith (planBranch ctx ((Node.call .ifs args single place).phase ctx)) (planEach ctx
    (.node ((Node.call .ifs args single place).phase ctx)) args), ?_⟩
  rintro f (rfl | rfl)
  · rw [← (sameValue_call args single place).phase, plan]
    rfl
  · rw [plan]
    rfl

end

/-! ## Choices -/

/-- Whether nodes are of one kind, hold alike against the rules, and give the same SQL wherever they
stand. -/
structure ComputesAlike (ctx : Context) (m n : Node) : Prop where
  value : SameValue ctx m n
  faults : (m.faults ctx).Alike (n.faults ctx)
  outcome : ∀ parent, ((m.simplify ctx).plan ctx parent).outcome ctx =
    ((n.simplify ctx).plan ctx parent).outcome ctx

/-- A test with its outcome, and maybe the outcome where it does not hold. -/
def choice (f : Function) (test outcome : Node) (otherwise? : Option Node) (place : Location) :
    Node :=
  .call f (test :: outcome :: otherwise?.toList) false place

/-- The plan of a node as a whole formula. -/
def planWhole (ctx : Context) (n : Node) (place : Location) : Node :=
  ((Node.root n place).simplify ctx).plan ctx .none

section
variable (ctx) (test outcome : Node) (otherwise? : Option Node) (place : Location)

theorem choice_alike : Respects ((choice .iff test outcome otherwise? place).check ctx)
    ((choice .ifs test outcome otherwise? place).check ctx) := by
  refine respects_check_call ?_ (respects_checkEach fun n _ => respects_check n)
  cases otherwise? with
  | none => exact Function.checksAlike_choice place (.of ctx test) (.of ctx outcome) none
  | some other =>
    exact Function.checksAlike_choice place (.of ctx test) (.of ctx outcome) (some (.of ctx other))

theorem computesAlike_choice : ComputesAlike ctx (choice .iff test outcome otherwise? place)
    (choice .ifs test outcome otherwise? place) where
  value := sameValue_call _ false place
  faults := choice_alike ctx test outcome otherwise? place [] [] (.refl [])
  outcome parent := by
    obtain ⟨simplified, simplifies⟩ :=
      simplify_condition (test :: outcome :: otherwise?.toList) false place ctx
    obtain ⟨planned, plans⟩ := plan_condition simplified false place ctx parent
    unfold choice
    rw [simplifies _ (.inl rfl), simplifies _ (.inr rfl), plans _ (.inl rfl), plans _ (.inr rfl)]
    exact (sameValue_call planned false place).outcome

theorem aggregation?_choice_eq_iff :
    (choice .iff test outcome otherwise? place).aggregation? ctx =
        (choice .ifs test outcome otherwise? place).aggregation? ctx ↔
      ∀ otherwise ∈ otherwise?, Aggregation.GoesWith (otherwise.aggregation? ctx)
        (Aggregation.common? (.fallback ctx.type) [outcome.aggregation? ctx]) := by
  unfold choice
  rw [aggregation?, aggregation?]
  cases otherwise? with
  | none => exact iff_of_true rfl fun _ h => nomatch h
  | some other =>
    refine Iff.trans ?_ (by simp only [Option.mem_some_iff, forall_eq']; rfl)
    exact Aggregation.common?_pair_eq_iff

theorem outcome_planWhole_choice (whole : Location)
    (same : (planWhole ctx (choice .iff test outcome otherwise? place) whole).aggregation? ctx =
      (planWhole ctx (choice .ifs test outcome otherwise? place) whole).aggregation? ctx) :
    (planWhole ctx (choice .iff test outcome otherwise? place) whole).outcome ctx =
      (planWhole ctx (choice .ifs test outcome otherwise? place) whole).outcome ctx := by
  obtain ⟨simplified, simplifies⟩ :=
    simplify_root_condition (test :: outcome :: otherwise?.toList) false place ctx whole
  obtain ⟨planned, plans⟩ := plan_condition simplified false place ctx .root
  unfold planWhole choice at same ⊢
  rw [simplifies _ (.inl rfl), simplifies _ (.inr rfl), plan_root, plan_root, plans _ (.inl rfl),
    plans _ (.inr rfl), (sameValue_call simplified false place).isMissing] at same ⊢
  split_ifs at same ⊢
  · exact ((sameValue_call simplified false place).root whole).outcome
  · rw [aggregation?, aggregation?] at same
    exact (((sameValue_call planned false place).planRoot same).root whole).outcome

/-- Choices written either way compute alike.  They are aggregated alike exactly if the outcome where
the test fails goes with the other one, and whole formulas that are aggregated alike are rendered
alike. -/
theorem choice_computesAlike_and_aggregation_eq_iff :
    ComputesAlike ctx (choice .iff test outcome otherwise? place)
        (choice .ifs test outcome otherwise? place) ∧
      ((choice .iff test outcome otherwise? place).aggregation? ctx =
          (choice .ifs test outcome otherwise? place).aggregation? ctx ↔
        ∀ otherwise ∈ otherwise?, Aggregation.GoesWith (otherwise.aggregation? ctx)
          (Aggregation.common? (.fallback ctx.type) [outcome.aggregation? ctx])) ∧
      ∀ whole, (planWhole ctx (choice .iff test outcome otherwise? place) whole).aggregation? ctx =
          (planWhole ctx (choice .ifs test outcome otherwise? place) whole).aggregation? ctx →
        (planWhole ctx (choice .iff test outcome otherwise? place) whole).outcome ctx =
          (planWhole ctx (choice .ifs test outcome otherwise? place) whole).outcome ctx :=
  ⟨computesAlike_choice ctx test outcome otherwise? place,
    aggregation?_choice_eq_iff ctx test outcome otherwise? place,
    outcome_planWhole_choice ctx test outcome otherwise? place⟩

end

/-- A flag, and a price that is averaged. -/
def pricedContext : Context :=
  { Context.ofTaxons (Taxon.mapOf
      [⟨"active", "active", none, .dimension, .raw .groupBy, .boolean, "shop", none, none, none⟩,
        ⟨"price", "price", none, .metric, .raw .avg, .numeric, "shop", none, none, none⟩]) with
    slug := "paid" }

/-- Nothing where the flag is set, and else the price. -/
def priceUnlessActive (f : Function) : Node :=
  let use (slug : String) : Node :=
    .taxon ⟨slug, none, pricedContext.taxons.get? slug, false⟩ default
  choice f (use "active") (.integer 0 default) (some (use "price")) default

/-- Written either way it is valid, but one is averaged and the other summed. -/
theorem priceUnlessActive_aggregatedApart :
    (priceUnlessActive .iff).faults pricedContext = [] ∧
      (priceUnlessActive .ifs).faults pricedContext = [] ∧
      (priceUnlessActive .iff).aggregation? pricedContext = some .avg ∧
      (priceUnlessActive .ifs).aggregation? pricedContext = some .sum ∧
      (∃ o, (planWhole pricedContext (priceUnlessActive .iff) default).outcome pricedContext = .ok o ∧
        o.preFormulas.map (·.aggregation) = [.avg]) ∧
      ∃ o, (planWhole pricedContext (priceUnlessActive .ifs) default).outcome pricedContext = .ok o ∧
        o.preFormulas.map (·.aggregation) = [.sum] := by
  have averaged : ((planWhole pricedContext (priceUnlessActive .iff) default).outcome
      pricedContext).toOption.any fun o => o.preFormulas.map (·.aggregation) = [.avg] := by
    decide +kernel
  have summed : ((planWhole pricedContext (priceUnlessActive .ifs) default).outcome
      pricedContext).toOption.any fun o => o.preFormulas.map (·.aggregation) = [.sum] := by
    decide +kernel
  obtain ⟨o, ho, averaged⟩ := Result.ok_of_any averaged
  obtain ⟨p, hp, summed⟩ := Result.ok_of_any summed
  refine ⟨?_, ?_, by decide +kernel, by decide +kernel, ⟨o, ho, of_decide_eq_true averaged⟩, p, hp,
    of_decide_eq_true summed⟩
  · exact List.isEmpty_iff.1 (by decide +kernel)
  · exact List.isEmpty_iff.1 (by decide +kernel)

end Node
end Formula

end SemanticLayer
