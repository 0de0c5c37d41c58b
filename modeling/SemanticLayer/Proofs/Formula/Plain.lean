import SemanticLayer.Proofs.Formula.Evaluability

/-!
# Plain nodes

A formula as it is read holds no transitions: only a plan puts them in.  A node is filled if,
besides, each call has the argument that it changes.

* `Hereditary`: a property that a node has exactly if its parts have it;
* `Hereditary.rootOfFormula`: what is inside a formula as it is read has such a property;
* `isUnmoved_rootOfFormula`: a formula that is read holds no transitions;
* `evaluable_of_isFilled`: a filled node can be evaluated as it stands.
-/

namespace SemanticLayer.Formula.Node

variable {ctx : Context}

mutual

/-- Whether no transition stands in a node, and calls are as a condition asks. -/
def isPlain (allows : Function → List Node → Bool) : Node → Bool
  | .integer .. => true
  | .decimal .. => true
  | .text .. => true
  | .bool .. => true
  | .column .. => true
  | .paren n _ => n.isPlain allows
  | .taxon .. => true
  | .attribute .. => true
  | .computed _ n _ => n.isPlain allows
  | .binary _ l r _ => l.isPlain allows && r.isPlain allows
  | .not n _ => n.isPlain allows
  | .isNull n _ _ => n.isPlain allows
  | .call f args _ _ => allArePlain allows args && allows f args
  | .transition .. => false
  | .root n _ => n.isPlain allows

def allArePlain (allows : Function → List Node → Bool) : List Node → Bool
  | [] => true
  | n :: ns => n.isPlain allows && allArePlain allows ns

end

theorem allArePlain_eq (allows : Function → List Node → Bool) (ns : List Node) :
    allArePlain allows ns = ns.all (isPlain allows) := by
  induction ns with
  | nil => rw [allArePlain, List.all_nil]
  | cons n ns ih => rw [allArePlain, ih, List.all_cons]

/-- Whether no transition stands in a node. -/
def isUnmoved : Node → Bool := isPlain fun _ _ => true

/-- Whether, besides, each call has the argument that it changes. -/
def isFilled : Node → Bool := isPlain fun f args => !f.changesFirst || !args.isEmpty

/-- A property that a node has exactly if its parts have it.  It says nothing of moves and of whole
formulas: neither stands inside a formula as it is read. -/
structure Hereditary (p : Node → Prop) : Prop where
  integer : ∀ n place, p (.integer n place)
  decimal : ∀ x place, p (.decimal x place)
  text : ∀ s place, p (.text s place)
  bool : ∀ b place, p (.bool b place)
  column : ∀ name place, p (.column name place)
  taxon : ∀ u place, p (.taxon u place)
  modelAttribute : ∀ u sql place, p (.attribute u sql place)
  paren : ∀ {n place}, p (.paren n place) ↔ p n
  computed : ∀ {u n place}, p (.computed u n place) ↔ p n
  binary : ∀ {op l r place}, p (.binary op l r place) ↔ p l ∧ p r
  not : ∀ {n place}, p (.not n place) ↔ p n
  isNull : ∀ {n negated place}, p (.isNull n negated place) ↔ p n
  call : ∀ {f n ns single place}, p (.call f (n :: ns) single place) ↔ p n ∧ ∀ m ∈ ns, p m

/-- Whether a node is plain depends on its parts, if calls with arguments are allowed. -/
theorem hereditary_isPlain {allows : Function → List Node → Bool}
    (h : ∀ f n ns, allows f (n :: ns) = true) : Hereditary fun n => n.isPlain allows = true where
  integer _ _ := rfl
  decimal _ _ := rfl
  text _ _ := rfl
  bool _ _ := rfl
  column _ _ := rfl
  taxon _ _ := rfl
  modelAttribute _ _ _ := rfl
  paren := Iff.rfl
  computed := Iff.rfl
  binary := Bool.and_eq_true_iff
  not := Iff.rfl
  isNull := Iff.rfl
  call := by
    intro f n ns _ _
    rw [isPlain, h, Bool.and_true, allArePlain_eq, List.all_cons, Bool.and_eq_true,
      List.all_eq_true]

namespace Hereditary

variable {p : Node → Prop}

theorem ofArguments (hp : Hereditary p) (empty : ∀ f single place, p (.call f [] single place))
    {f : Function} {ns : List Node} {single : Bool} {place : Location}
    (hns : ∀ n ∈ ns, p n) : p (.call f ns single place) := by
  cases ns with
  | nil => exact empty f single place
  | cons n ns => exact hp.call.2 (List.forall_mem_cons.1 hns)

mutual

theorem ofTree (hp : Hereditary p) (empty : ∀ f single place, p (.call f [] single place))
    {text : String} {lookup : TaxonRef → Location → Result Node}
    (hlookup : ∀ r place n, lookup r place = .ok n → p n) :
    ∀ (t : Tree) (n : Node), Node.ofTree ctx text lookup t = .ok n → p n
  | .integer .., n, h => by
    rw [Node.ofTree] at h
    cases h
    exact hp.integer _ _
  | .float .., n, h => by
    rw [Node.ofTree] at h
    cases h
    exact hp.decimal _ _
  | .bool .., n, h => by
    rw [Node.ofTree] at h
    cases h
    exact hp.bool _ _
  | .singleQuoted .., n, h => by
    rw [Node.ofTree] at h
    cases h
    exact hp.text _ _
  | .doubleQuoted .., n, h => by
    rw [Node.ofTree] at h
    cases h
    split
    · exact hp.text _ _
    · exact hp.column _ _
  | .taxon r s, n, h => by
    rw [Node.ofTree] at h
    exact hlookup r _ n h
  | .call name args s, n, h => by
    rw [Node.ofTree] at h
    split at h
    · cases h
    · obtain ⟨ns, hns, h⟩ := Result.bind_eq_ok.1 h
      cases h
      have each := ofTrees hp empty hlookup args ns hns
      refine hp.ofArguments empty ?_
      intro n hn
      split at hn
      · exact each n (List.mem_of_mem_filter hn)
      · exact each n hn
  | .paren t s, n, h => by
    rw [Node.ofTree] at h
    obtain ⟨m, hm, h⟩ := Result.bind_eq_ok.1 h
    cases h
    exact hp.paren.2 (ofTree hp empty hlookup t m hm)
  | .binary op l r s, n, h => by
    rw [Node.ofTree] at h
    obtain ⟨left, hl, h⟩ := Result.bind_eq_ok.1 h
    obtain ⟨right, hr, h⟩ := Result.bind_eq_ok.1 h
    cases h
    exact hp.binary.2 ⟨ofTree hp empty hlookup l left hl, ofTree hp empty hlookup r right hr⟩
  | .not t s, n, h => by
    rw [Node.ofTree] at h
    obtain ⟨m, hm, h⟩ := Result.bind_eq_ok.1 h
    cases h
    exact hp.not.2 (ofTree hp empty hlookup t m hm)
  | .isNull t negated s, n, h => by
    rw [Node.ofTree] at h
    obtain ⟨m, hm, h⟩ := Result.bind_eq_ok.1 h
    cases h
    exact hp.isNull.2 (ofTree hp empty hlookup t m hm)

theorem ofTrees (hp : Hereditary p) (empty : ∀ f single place, p (.call f [] single place))
    {text : String} {lookup : TaxonRef → Location → Result Node}
    (hlookup : ∀ r place n, lookup r place = .ok n → p n) :
    ∀ (ts : List Tree) (ns : List Node), Node.ofTrees ctx text lookup ts = .ok ns → ∀ n ∈ ns, p n
  | [], ns, h => by
    rw [Node.ofTrees] at h
    cases h
    exact List.forall_mem_nil _
  | t :: ts, ns, h => by
    rw [Node.ofTrees] at h
    obtain ⟨m, hm, h⟩ := Result.bind_eq_ok.1 h
    obtain ⟨ms, hms, h⟩ := Result.bind_eq_ok.1 h
    cases h
    exact List.forall_mem_cons.2 ⟨ofTree hp empty hlookup t m hm, ofTrees hp empty hlookup ts ms hms⟩

end

section
variable (hp : Hereditary p) (empty : ∀ f single place, p (.call f [] single place))
include hp empty

theorem ofCalculation {depth : Nat} {optional : Bool} {expanding : List String}
    {formula : String} {n : Node}
    (h : Node.ofCalculation ctx depth optional expanding formula = .ok n) : p n := by
  induction depth generalizing optional expanding formula n with
  | zero =>
    rw [Node.ofCalculation] at h
    obtain ⟨_, _, h⟩ := Result.bind_eq_ok.1 h
    cases h
  | succ depth ih =>
    rw [Node.ofCalculation] at h
    obtain ⟨tree, _, h⟩ := Result.bind_eq_ok.1 h
    refine hp.ofTree empty ?_ tree n h
    intro r place n h
    unfold lookupTaxon at h
    dsimp only at h
    split at h
    · cases h
      exact hp.taxon _ _
    · split at h
      · cases h
      · obtain ⟨m, hm, rfl⟩ := Result.map_eq_ok.1 h
        exact hp.computed.2 (ih hm)

/-- What is inside a formula as it is read. -/
theorem rootOfFormula {formula : String} {n : Node}
    (h : Node.rootOfFormula ctx none formula = .ok n) : ∃ m place, n = .root m place ∧ p m := by
  obtain ⟨m, hm, rfl⟩ := Result.map_eq_ok.1 h
  exact ⟨m, m.place, rfl, hp.ofCalculation empty hm⟩

end

end Hereditary

/-- A formula as it is read moves nothing. -/
theorem isUnmoved_rootOfFormula {formula : String} {n : Node}
    (h : rootOfFormula ctx none formula = .ok n) : n.isUnmoved = true := by
  have parts : Hereditary fun n => n.isUnmoved = true := hereditary_isPlain fun _ _ _ => rfl
  obtain ⟨m, place, rfl, inner⟩ := parts.rootOfFormula (fun _ _ _ => rfl) h
  exact inner

/-- What is plain needs no plan to be evaluated. -/
theorem evaluable_of_isFilled {n : Node} (h : n.isFilled = true) : n.evaluable ctx = true := by
  unfold isFilled at h
  induction n with
  | integer | decimal | text | bool | column | taxon | modelAttribute => rw [evaluable]
  | paren n _ ih | computed _ n _ ih | not n _ ih | isNull n _ _ ih =>
    rw [isPlain] at h
    rw [evaluable, ih h]
  | binary op l r _ hl hr =>
    rw [isPlain, Bool.and_eq_true] at h
    rw [evaluable, hl h.1, hr h.2, Bool.and_self]
  | call f args single _ ih =>
    rw [isPlain, Bool.and_eq_true, allArePlain_eq, List.all_eq_true] at h
    rw [evaluable, h.2, Bool.and_true, allEvaluable_eq, List.all_eq_true]
    exact fun n hn => ih n hn (h.1 n hn)
  | transition =>
    rw [isPlain] at h
    cases h
  | root n _ ih =>
    rw [isPlain] at h
    rw [evaluable, ih h, Bool.or_true]

end SemanticLayer.Formula.Node
