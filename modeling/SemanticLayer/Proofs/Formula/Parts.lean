import SemanticLayer.Proofs.Formula.Plain

/-!
# Parts of formula nodes

`Node.parts` lists a node with everything that stands in it, and what is a fact of each.

* `parts_eq`, `all_iff`: what holds of all parts holds of the node and of all parts of what stands
  directly in it;
* `phaseEach_eq`, `typeEach_eq`, `usedEach_eq`: a walk over the arguments of a call is a map;
* `all_ofTree`, `all_ofCalculation`, `all_rootOfFormula`: what holds of all parts of a formula as it
  is read, given what holds of the taxons it reads;
* `all_isUnmoved`: no part of such a formula moves anything.
-/

namespace SemanticLayer.Formula.Node

variable {ctx : Context} {p : Node → Prop}

/-- The nodes that stand directly in another. -/
def children : Node → List Node
  | .paren n _ => [n]
  | .computed _ n _ => [n]
  | .binary _ l r _ => [l, r]
  | .not n _ => [n]
  | .isNull n _ _ => [n]
  | .call _ args _ _ => args
  | .transition _ n _ _ _ => [n]
  | .root n _ => [n]
  | _ => []

def isTransition : Node → Bool
  | .transition .. => true
  | _ => false

mutual

/-- A node and all nodes within it. -/
def parts : Node → List Node
  | .integer n place => [.integer n place]
  | .decimal x place => [.decimal x place]
  | .text s place => [.text s place]
  | .bool b place => [.bool b place]
  | .column s place => [.column s place]
  | .paren n place => .paren n place :: n.parts
  | .taxon u place => [.taxon u place]
  | .attribute u sql place => [.attribute u sql place]
  | .computed u n place => .computed u n place :: n.parts
  | .binary op l r place => .binary op l r place :: (l.parts ++ r.parts)
  | .not n place => .not n place :: n.parts
  | .isNull n negated place => .isNull n negated place :: n.parts
  | .call f args single place => .call f args single place :: partsOfEach args
  | .transition t n a label? place => .transition t n a label? place :: n.parts
  | .root n place => .root n place :: n.parts

def partsOfEach : List Node → List Node
  | [] => []
  | n :: ns => n.parts ++ partsOfEach ns

end

theorem partsOfEach_eq (ns : List Node) : partsOfEach ns = ns.flatMap parts := by
  induction ns with
  | nil => rw [partsOfEach, List.flatMap_nil]
  | cons n ns ih => rw [partsOfEach, ih, List.flatMap_cons]

theorem parts_eq (n : Node) : n.parts = n :: n.children.flatMap parts := by
  cases n with
  | call f args single place => rw [parts, partsOfEach_eq, children]
  | binary op l r place => simp [parts, children]
  | _ => simp [parts, children]

/-- Whether a node and all nodes within it have a property. -/
def All (p : Node → Prop) (n : Node) : Prop := ∀ m ∈ n.parts, p m

instance [DecidablePred p] : DecidablePred (All p) := fun n =>
  inferInstanceAs (Decidable (∀ m ∈ n.parts, p m))

theorem all_iff {n : Node} : n.All p ↔ p n ∧ ∀ c ∈ n.children, c.All p := by
  unfold All
  rw [parts_eq]
  simp only [List.mem_cons, List.mem_flatMap, forall_eq_or_imp, forall_exists_index, and_imp]
  exact and_congr_right fun _ => forall_comm.trans (forall_congr' fun c => forall_comm)

/-- What holds of a node if it holds of what stands directly in it, holds of every node. -/
theorem children_induction (h : ∀ n : Node, (∀ c ∈ n.children, p c) → p n) (n : Node) : p n := by
  induction n with
  | integer | decimal | text | bool | column | taxon | modelAttribute =>
    exact h _ (List.forall_mem_nil _)
  | paren _ _ ih | computed _ _ _ ih | not _ _ ih | isNull _ _ _ ih | root _ _ ih =>
    exact h _ (List.forall_mem_singleton.2 ih)
  | transition _ _ _ _ _ ih => exact h _ (List.forall_mem_singleton.2 ih)
  | binary op l r _ hl hr => exact h _ (List.forall_mem_cons.2 ⟨hl, List.forall_mem_singleton.2 hr⟩)
  | call f args _ _ ih => exact h _ ih

theorem mem_parts_self (n : Node) : n ∈ n.parts := by
  rw [parts_eq]
  exact List.mem_cons_self ..

/-- What holds of all parts of a node holds of all parts of each. -/
theorem All.all {n : Node} (h : n.All p) : n.All (All p) := by
  induction n using children_induction with
  | h n ih =>
    exact all_iff.2 ⟨h, fun c hc => ih c hc ((all_iff.1 h).2 c hc)⟩

theorem all_paren {n : Node} {place : Location} :
    (Node.paren n place).All p ↔ p (.paren n place) ∧ n.All p := by
  rw [all_iff, children, List.forall_mem_singleton]

theorem all_binary {op : Operator} {l r : Node} {place : Location} :
    (Node.binary op l r place).All p ↔ p (.binary op l r place) ∧ l.All p ∧ r.All p := by
  rw [all_iff, children, List.forall_mem_cons, List.forall_mem_singleton]

theorem all_congr {q : Node → Prop} {n : Node} (h : n.All fun m => p m ↔ q m) :
    n.All p ↔ n.All q :=
  forall₂_congr h

theorem forall_mem_of_forall₂ {α β : Type} {rel : α → β → Prop} {p : α → Prop} {q : β → Prop}
    {xs : List α} {ys : List β} (h : List.Forall₂ rel xs ys)
    (imp : ∀ x y, rel x y → p x → q y) (hp : ∀ x ∈ xs, p x) : ∀ y ∈ ys, q y := by
  induction h with
  | nil => exact List.forall_mem_nil _
  | cons first _ ih =>
    obtain ⟨own, rest⟩ := List.forall_mem_cons.1 hp
    exact List.forall_mem_cons.2 ⟨imp _ _ first own, ih rest⟩

/-! ## Walks over the arguments of a call -/

theorem phaseEach_eq (ns : List Node) : phaseEach ctx ns = ns.map (phase ctx) := by
  induction ns with
  | nil => rw [phaseEach, List.map_nil]
  | cons n ns ih => rw [phaseEach, ih, List.map_cons]

theorem typeEach_eq (ns : List Node) : typeEach ctx ns = ns.map (type ctx) := by
  induction ns with
  | nil => rw [typeEach, List.map_nil]
  | cons n ns ih => rw [typeEach, ih, List.map_cons]

theorem usedEach_eq (ns : List Node) : usedEach ctx ns = ns.map (used ctx) := by
  induction ns with
  | nil => rw [usedEach, List.map_nil]
  | cons n ns ih => rw [usedEach, ih, List.map_cons]

/-! ## Formulas as they are read -/

/-- The SQL of the attribute that a node is. -/
def attributeSql? : Node → Option Sql.Expr
  | .attribute _ sql _ => some sql
  | _ => none

/-- Whether a node is a taxon that is not computed. -/
def isTaxon : Node → Bool
  | .taxon .. => true
  | _ => false

/-- What holds of every node that a tree is made into, whatever its operands are and its taxons stand
for. -/
structure HoldsWritten (ctx : Context) (p : Node → Prop) : Prop where
  leaf : ∀ n, n.children = [] → n.attributeSql? = none → n.isTaxon = false → p n
  paren : ∀ n place, p (.paren n place)
  binary : ∀ op l r place, p (.binary op l r place)
  not : ∀ n place, p (.not n place)
  isNull : ∀ n negated place, p (.isNull n negated place)
  call : ∀ f args place, p (ofCall ctx f args place)

/-- What holds of every node that stands for a tree, whatever its operands are. -/
structure HoldsRead (ctx : Context) (p : Node → Prop) : Prop where
  leaf : ∀ n, n.children = [] → n.attributeSql? = none → p n
  paren : ∀ n place, p (.paren n place)
  binary : ∀ op l r place, p (.binary op l r place)
  not : ∀ n place, p (.not n place)
  isNull : ∀ n negated place, p (.isNull n negated place)
  call : ∀ f args place, p (ofCall ctx f args place)

theorem HoldsRead.written (hp : HoldsRead ctx p) : HoldsWritten ctx p :=
  ⟨fun n h h' _ => hp.leaf n h h', hp.paren, hp.binary, hp.not, hp.isNull, hp.call⟩

theorem all_of_children_eq_nil {n : Node} (h : n.children = []) (hn : p n) : n.All p := by
  rw [all_iff, h]
  exact ⟨hn, List.forall_mem_nil _⟩

theorem all_ofCall {f : Function} {args : List Node} {place : Location}
    (h : p (ofCall ctx f args place)) (hargs : ∀ n ∈ args, n.All p) :
    (ofCall ctx f args place).All p := by
  refine all_iff.2 ⟨h, fun n hn => hargs n ?_⟩
  rw [ofCall, children] at hn
  split at hn
  · exact List.mem_of_mem_filter hn
  · exact hn

mutual

theorem all_ofTree (hp : HoldsWritten ctx p) {text : String}
    {lookup : TaxonRef → Location → Result Node} : ∀ (t : Tree),
    (∀ r ∈ t.taxonRefs, ∀ place n, lookup r place = .ok n → n.All p) →
      ∀ (n : Node), ofTree ctx text lookup t = .ok n → n.All p
  | .integer .., _, n, h => by
    rw [ofTree] at h
    cases h
    exact all_of_children_eq_nil rfl (hp.leaf _ rfl rfl rfl)
  | .float .., _, n, h => by
    rw [ofTree] at h
    cases h
    exact all_of_children_eq_nil rfl (hp.leaf _ rfl rfl rfl)
  | .bool .., _, n, h => by
    rw [ofTree] at h
    cases h
    exact all_of_children_eq_nil rfl (hp.leaf _ rfl rfl rfl)
  | .singleQuoted .., _, n, h => by
    rw [ofTree] at h
    cases h
    exact all_of_children_eq_nil rfl (hp.leaf _ rfl rfl rfl)
  | .doubleQuoted .., _, n, h => by
    rw [ofTree] at h
    cases h
    split
    · exact all_of_children_eq_nil rfl (hp.leaf _ rfl rfl rfl)
    · exact all_of_children_eq_nil rfl (hp.leaf _ rfl rfl rfl)
  | .taxon r s, hlookup, n, h => by
    rw [ofTree] at h
    exact hlookup r (List.mem_singleton_self r) _ n h
  | .call name args s, hlookup, n, h => by
    rw [ofTree] at h
    split at h
    · cases h
    · obtain ⟨ns, hns, h⟩ := Result.bind_eq_ok.1 h
      cases h
      exact all_ofCall (hp.call ..) (all_ofTrees hp args hlookup ns hns)
  | .paren t s, hlookup, n, h => by
    rw [ofTree] at h
    obtain ⟨m, hm, h⟩ := Result.bind_eq_ok.1 h
    cases h
    refine all_paren.2 ⟨hp.paren .., ?_⟩
    exact all_ofTree hp t hlookup m hm
  | .binary op l r s, hlookup, n, h => by
    rw [ofTree] at h
    obtain ⟨left, hl, h⟩ := Result.bind_eq_ok.1 h
    obtain ⟨right, hr, h⟩ := Result.bind_eq_ok.1 h
    cases h
    obtain ⟨onLeft, onRight⟩ := List.forall_mem_append.1 hlookup
    refine all_binary.2 ⟨hp.binary .., ?_, ?_⟩
    · exact all_ofTree hp l onLeft left hl
    · exact all_ofTree hp r onRight right hr
  | .not t s, hlookup, n, h => by
    rw [ofTree] at h
    obtain ⟨m, hm, h⟩ := Result.bind_eq_ok.1 h
    cases h
    refine all_iff.2 ⟨hp.not .., List.forall_mem_singleton.2 ?_⟩
    exact all_ofTree hp t hlookup m hm
  | .isNull t negated s, hlookup, n, h => by
    rw [ofTree] at h
    obtain ⟨m, hm, h⟩ := Result.bind_eq_ok.1 h
    cases h
    refine all_iff.2 ⟨hp.isNull .., List.forall_mem_singleton.2 ?_⟩
    exact all_ofTree hp t hlookup m hm

theorem all_ofTrees (hp : HoldsWritten ctx p) {text : String}
    {lookup : TaxonRef → Location → Result Node} : ∀ (ts : List Tree),
    (∀ r ∈ Tree.taxonRefsOf ts, ∀ place n, lookup r place = .ok n → n.All p) →
      ∀ (ns : List Node), ofTrees ctx text lookup ts = .ok ns → ∀ n ∈ ns, n.All p
  | [], _, ns, h => by
    rw [ofTrees] at h
    cases h
    exact List.forall_mem_nil _
  | t :: ts, hlookup, ns, h => by
    rw [ofTrees] at h
    obtain ⟨m, hm, h⟩ := Result.bind_eq_ok.1 h
    obtain ⟨ms, hms, h⟩ := Result.bind_eq_ok.1 h
    cases h
    obtain ⟨first, rest⟩ := List.forall_mem_append.1 hlookup
    exact List.forall_mem_cons.2
      ⟨all_ofTree hp t first m hm, all_ofTrees hp ts rest ms hms⟩

end

/-- What a computed taxon within a formula stands for: the formula of its calculation, in which it
is being read already. -/
theorem all_ofCalculation (hp : HoldsRead ctx p)
    (computed : ∀ u calculation depth optional expanding n place,
      u.taxon? = ctx.taxons.get? u.slug → u.taxon?.bind Taxon.calculation? = some calculation →
        ofCalculation ctx depth optional expanding calculation = .ok n → u.slug ∈ expanding →
          p (.computed u n place))
    {depth : Nat} {optional : Bool} {expanding : List String} {formula : String} {n : Node}
    (h : ofCalculation ctx depth optional expanding formula = .ok n) : n.All p := by
  induction depth generalizing optional expanding formula n with
  | zero =>
    rw [ofCalculation] at h
    obtain ⟨_, _, h⟩ := Result.bind_eq_ok.1 h
    cases h
  | succ depth ih =>
    rw [ofCalculation] at h
    obtain ⟨tree, _, h⟩ := Result.bind_eq_ok.1 h
    refine all_ofTree hp.written tree ?_ n h
    intro r _ place n h
    unfold lookupTaxon at h
    dsimp only at h
    split at h
    · cases h
      exact all_of_children_eq_nil rfl (hp.leaf _ rfl rfl)
    · rename_i calculation known
      split at h
      · cases h
      · obtain ⟨m, hm, rfl⟩ := Result.map_eq_ok.1 h
        refine all_iff.2 ⟨?_, List.forall_mem_singleton.2 (ih hm)⟩
        exact computed _ _ _ _ _ m place rfl known hm
          (List.mem_append_right _ (List.mem_singleton_self _))

/-- An attribute's formula: what it names is not looked into. -/
theorem all_ofFormula_of_model (hp : HoldsWritten ctx p) {model : ModelScope}
    (attributes : ∀ slug sql, model.sqlOf slug = .ok sql → ∀ u place, p (.attribute u sql place))
    {text : String} {n : Node} (h : ofFormula ctx (some model) text = .ok n) : n.All p := by
  obtain ⟨tree, _, h⟩ := Result.bind_eq_ok.1 h
  refine all_ofTree hp tree (fun r _ place m hm => ?_) n h
  obtain ⟨sql, hsql, rfl⟩ := Result.map_eq_ok.1 hm
  exact all_of_children_eq_nil rfl (attributes _ sql hsql _ _)

theorem all_rootOfFormula (hp : HoldsRead ctx p) (computed : ∀ u n place, p (.computed u n place))
    (root : ∀ n place, p (.root n place)) {model? : Option ModelScope}
    (attributes : ∀ model ∈ model?, ∀ slug sql, model.sqlOf slug = .ok sql →
      ∀ u place, p (.attribute u sql place)) {formula : String} {n : Node}
    (h : rootOfFormula ctx model? formula = .ok n) : n.All p := by
  obtain ⟨m, hm, rfl⟩ := Result.map_eq_ok.1 h
  refine all_iff.2 ⟨root _ _, List.forall_mem_singleton.2 ?_⟩
  cases model? with
  | none => exact all_ofCalculation hp (fun u _ _ _ _ n place _ _ _ _ => computed u n place) hm
  | some model => exact all_ofFormula_of_model hp.written (attributes model rfl) hm

/-- No part of a node that moves nothing moves anything. -/
theorem all_isUnmoved {n : Node} (h : n.isUnmoved = true) : n.All fun m => m.isUnmoved = true := by
  induction n with
  | integer | decimal | text | bool | column | taxon | modelAttribute =>
    exact all_of_children_eq_nil rfl h
  | paren n _ ih | computed _ n _ ih | not n _ ih | isNull n _ _ ih | root n _ ih =>
    exact all_iff.2 ⟨h, List.forall_mem_singleton.2 (ih h)⟩
  | binary op l r _ hl hr =>
    obtain ⟨left, right⟩ := Bool.and_eq_true_iff.1 h
    exact all_binary.2 ⟨h, hl left, hr right⟩
  | call f args single place ih =>
    have each := h
    unfold isUnmoved at each
    rw [isPlain, Bool.and_true, allArePlain_eq, List.all_eq_true] at each
    exact all_iff.2 ⟨h, fun n hn => ih n hn (each n hn)⟩
  | transition => cases h

end SemanticLayer.Formula.Node
