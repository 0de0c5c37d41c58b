import SemanticLayer.Model.Definition
import SemanticLayer.Proofs.Formula.Expansion

/-!
# How deep references may go

Computed taxons are expanded, and attributes of a model looked up, with a number of levels of
references.  Fewer levels change nothing else than that a chain of references can be too long for
them.

* `Formula.Shortens`: the same result, unless references are too deep;
* `Formula.shortens_ofCalculation`, `Model.shortens_attributeSql`: fewer levels shorten a reading;
* `Formula.renderTaxon_eq`, `Model.attributeSql_eq`: how long a chain from a calculation or an
  attribute that renders at all may be;
* `Model.IsEndless.attributeSql_eq`: attributes that name each other;
* `Model.chains_alike_iff`: both kinds of chains, which differ in one length.
-/

namespace SemanticLayer

namespace Formula

/-- What references fail with that go too deep. -/
def tooDeep : Error := .referenceDepth referenceLimit

/-- Whether a computation gives what another one does, or fails since references go too deep, and
this for a reason. -/
def Shortens {α : Type} (reason : Prop) (x y : Result α) : Prop :=
  x = y ∨ reason ∧ x = .error tooDeep

namespace Shortens

variable {α β : Type} {p q : Prop} {x y : Result α}

theorem refl (x : Result α) : Shortens p x x := .inl rfl

theorem mono (h : Shortens p x y) (weaken : p → q) : Shortens q x y :=
  h.imp_right fun deep => ⟨weaken deep.1, deep.2⟩

theorem bind {f g : α → Result β} (h : Shortens p x y) (hfg : ∀ a, Shortens q (f a) (g a)) :
    Shortens (p ∨ q) (x >>= f) (y >>= g) := by
  rcases h with rfl | ⟨deep, rfl⟩
  · cases x with
    | error e => exact refl _
    | ok a => exact (hfg a).mono .inr
  · exact .inr ⟨.inl deep, rfl⟩

theorem bind_same (h : Shortens p x y) (f : α → Result β) : Shortens p (x >>= f) (y >>= f) :=
  (h.bind fun a => refl (p := p) (f a)).mono or_self_iff.1

theorem map (h : Shortens p x y) (f : α → β) : Shortens p (x.map f) (y.map f) := by
  rcases h with rfl | ⟨deep, rfl⟩
  · exact refl _
  · exact .inr ⟨deep, rfl⟩

theorem eq_of_ok (h : Shortens p x y) {a : α} (ok : x = .ok a) : y = .ok a := by
  rcases h with rfl | ⟨_, deep⟩
  · exact ok
  · cases ok.symm.trans deep

end Shortens

/-- A reading with so many levels of references fails exactly if it has to go deeper than they
reach, if it does not fail with some number of them. -/
theorem eq_of_longest {α : Type} (read : Nat → Result α) (chain : Nat → Prop)
    (shortens : ∀ d e, d ≤ e → Shortens (∃ l, chain l ∧ d ≤ l) (read d) (read e))
    (bound : ∀ d a l, read d = .ok a → chain l → l < d) {k : Nat} (long : chain k)
    (longest : ∀ l, chain l → l ≤ k) {e : Nat} {a : α} (reads : read e = .ok a) (d : Nat) :
    read d = if k < d then .ok a else .error tooDeep := by
  have enough : k < e := bound e a k reads long
  split
  · rename_i reached
    rcases Nat.le_total d e with le | le
    · -- No chain is as long as there are levels, so they shorten nothing.
      rcases shortens d e le with same | ⟨⟨l, hl, deep⟩, _⟩
      · exact same.trans reads
      · exact absurd (longest l hl) (Nat.not_le_of_lt (Nat.lt_of_lt_of_le reached deep))
    · exact (shortens e d le).eq_of_ok reads
  · rename_i unreached
    have le : d ≤ e := Nat.le_trans (Nat.le_of_not_lt unreached) (Nat.le_of_lt enough)
    rcases shortens d e le with same | ⟨_, deep⟩
    · exact absurd (bound d a k (same.trans reads) long) unreached
    · exact deep

/-! ## Levels of computed taxons -/

namespace Node

section
variable {ctx : Context} {text : String} {lookup lookup' : TaxonRef → Location → Result Node}
  (deep : TaxonRef → Prop)

mutual

/-- A tree is read the same where its references are, and too deep where one of them is. -/
theorem shortens_ofTree : (t : Tree) →
    (∀ r ∈ t.taxonRefs, ∀ place, Shortens (deep r) (lookup r place) (lookup' r place)) →
    Shortens (∃ r ∈ t.taxonRefs, deep r) (ofTree ctx text lookup t) (ofTree ctx text lookup' t)
  | .integer .., _ => .refl _
  | .float .., _ => .refl _
  | .bool .., _ => .refl _
  | .singleQuoted .., _ => .refl _
  | .doubleQuoted .., _ => .refl _
  | .taxon r s, h =>
    (h r (List.mem_singleton_self r) _).mono fun deep => ⟨r, List.mem_singleton_self r, deep⟩
  | .call name args s, h => by
    rw [ofTree, ofTree]
    cases Function.ofName? name with
    | none => exact .refl _
    | some f => exact (shortens_ofTrees args h).bind_same _
  | .paren t s, h => (shortens_ofTree t h).bind_same _
  | .binary op l r s, h => by
    obtain ⟨hl, hr⟩ := List.forall_mem_append.1 h
    refine ((shortens_ofTree l hl).bind fun left => (shortens_ofTree r hr).bind_same _).mono ?_
    rintro (⟨u, hu, deep⟩ | ⟨u, hu, deep⟩)
    · exact ⟨u, List.mem_append_left _ hu, deep⟩
    · exact ⟨u, List.mem_append_right _ hu, deep⟩
  | .not t s, h => (shortens_ofTree t h).bind_same _
  | .isNull t negated s, h => (shortens_ofTree t h).bind_same _

theorem shortens_ofTrees : (ts : List Tree) →
    (∀ r ∈ Tree.taxonRefsOf ts, ∀ place, Shortens (deep r) (lookup r place) (lookup' r place)) →
    Shortens (∃ r ∈ Tree.taxonRefsOf ts, deep r) (ofTrees ctx text lookup ts)
      (ofTrees ctx text lookup' ts)
  | [], _ => .refl _
  | t :: ts, h => by
    obtain ⟨ht, hts⟩ := List.forall_mem_append.1 h
    refine ((shortens_ofTree t ht).bind fun n => (shortens_ofTrees ts hts).bind_same _).mono ?_
    rintro (⟨u, hu, deep⟩ | ⟨u, hu, deep⟩)
    · exact ⟨u, List.mem_append_left _ hu, deep⟩
    · exact ⟨u, List.mem_append_right _ hu, deep⟩

end

end

/-- Where references are found or too deep, so is the tree. -/
theorem ofTree_eq_tooDeep {ctx : Context} {text : String}
    {lookup : TaxonRef → Location → Result Node} {t : Tree} (calls : t.callsKnown = true)
    (each : ∀ r ∈ t.taxonRefs, ∀ place,
      (∃ n, lookup r place = .ok n) ∨ lookup r place = .error tooDeep)
    (unread : ¬∃ n, ofTree ctx text lookup t = .ok n) :
    ofTree ctx text lookup t = .error tooDeep := by
  -- A tree is read where any node stands for a reference that is not found.
  let found (r : TaxonRef) (place : Location) : Result Node :=
    .ok ((lookup r place).toOption.getD (.bool true place))
  have shortens : Shortens (∃ r ∈ t.taxonRefs, True) (ofTree ctx text lookup t)
      (ofTree ctx text found t) := by
    refine shortens_ofTree (fun _ => True) t fun r hr place => ?_
    rcases each r hr place with ⟨n, ok⟩ | deep
    · refine .inl (ok.trans ?_)
      dsimp only [found]
      rw [ok]
      rfl
    · exact .inr ⟨trivial, deep⟩
  have each : ∀ r place, (∃ n, found r place = .ok n) ↔ True :=
    fun _ _ => iff_of_true ⟨_, rfl⟩ trivial
  obtain ⟨n, read⟩ : ∃ n, ofTree ctx text found t = .ok n :=
    (exists_ofTree_iff each t).2 ⟨calls, fun _ _ => trivial⟩
  rcases shortens with same | ⟨_, deep⟩
  · exact absurd ⟨n, same.trans read⟩ unread
  · exact deep

/-- With fewer levels a calculation is read the same, unless a chain from it is too long for
them. -/
theorem shortens_ofCalculation {ctx : Context} {d e : Nat} (le : d ≤ e) {optional : Bool}
    {expanding : List String} {text : String} :
    Shortens (∃ slugs last, Chain ctx text slugs last ∧ d ≤ slugs.length)
      (ofCalculation ctx d optional expanding text)
      (ofCalculation ctx e optional expanding text) := by
  induction d generalizing e optional expanding text with
  | zero =>
    cases e with
    | zero => exact .refl _
    | succ e =>
      rw [ofCalculation, ofCalculation]
      cases parse text with
      | error fault => exact .refl _
      | ok t => exact .inr ⟨⟨[], text, .done text, Nat.zero_le _⟩, rfl⟩
  | succ d ih =>
    obtain ⟨e, rfl⟩ := Nat.exists_eq_add_of_lt le
    rw [ofCalculation, ofCalculation]
    cases read : parse text with
    | error fault => exact .refl _
    | ok t =>
      -- What is named is too deep if a chain from its own calculation is.
      refine (shortens_ofTree (fun r => ∃ c slugs last, ctx.calculation? r.slug = some c ∧
        Chain ctx c slugs last ∧ d ≤ slugs.length) t fun r _ place => ?reference).mono ?chain
      case reference =>
        unfold lookupTaxon
        dsimp only
        split
        · exact .refl _
        · rename_i c named
          split
          · exact .refl _
          · refine ((ih (Nat.le_add_right d e)).map _).mono ?_
            rintro ⟨slugs, last, rest, long⟩
            exact ⟨c, slugs, last, named, rest, long⟩
      case chain =>
        rintro ⟨r, hr, c, slugs, last, named, rest, long⟩
        exact ⟨r.slug :: slugs, last, .next ⟨named, t, read, r, hr, rfl⟩ rest,
          Nat.succ_le_succ long⟩

end Node

/-- The outcome of a calculation that is read with so many levels of references. -/
def renderTaxonWithin (ctx : Context) (levels : Nat) (formula : String) : Result Outcome := do
  let n ← (Node.ofCalculation ctx levels false [] formula).map fun n => Node.root n n.place
  match n.faults ctx with
  | [] => ((n.simplify ctx).plan ctx .none).outcome ctx
  | faults => throw (.invalidFormula faults)

/-- A formula is rendered with one level less than the limit. -/
theorem renderTaxon_eq_within (ctx : Context) (formula : String) :
    renderTaxon ctx formula = renderTaxonWithin ctx (referenceLimit - 1) formula := rfl

section
variable {ctx : Context} {text last : String} {slugs : List String} {levels : Nat} {o : Outcome}

theorem shortens_renderTaxonWithin {d e : Nat} (le : d ≤ e) :
    Shortens (∃ slugs last, Chain ctx text slugs last ∧ d ≤ slugs.length)
      (renderTaxonWithin ctx d text) (renderTaxonWithin ctx e text) :=
  ((Node.shortens_ofCalculation le).map _).bind_same _

theorem Chain.length_lt (h : Chain ctx text slugs last)
    (renders : renderTaxonWithin ctx levels text = .ok o) : slugs.length < levels := by
  obtain ⟨n, read, _⟩ := Result.bind_eq_ok.1 renders
  obtain ⟨n, read, _⟩ := Result.map_eq_ok.1 read
  exact (Node.exists_ofCalculation_iff.1 ⟨n, read⟩ slugs last h).1

/-- A calculation that renders with some number of levels does so unless its longest chain reaches
the limit. -/
theorem renderTaxon_eq (chain : Chain ctx text slugs last)
    (longest : ∀ others last, Chain ctx text others last → others.length ≤ slugs.length)
    (renders : renderTaxonWithin ctx levels text = .ok o) :
    renderTaxon ctx text =
      if slugs.length + 1 < referenceLimit then .ok o else .error tooDeep := by
  have within := eq_of_longest (fun d => renderTaxonWithin ctx d text)
    (fun l => ∃ slugs last, Chain ctx text slugs last ∧ slugs.length = l)
    (fun _ _ le => (shortens_renderTaxonWithin le).mono fun ⟨slugs, last, h, long⟩ =>
      ⟨_, ⟨slugs, last, h, rfl⟩, long⟩)
    (fun _ _ _ renders ⟨_, _, h, length⟩ => length ▸ h.length_lt renders)
    ⟨slugs, last, chain, rfl⟩ (fun _ ⟨others, last, h, length⟩ => length ▸ longest others last h)
    renders (referenceLimit - 1)
  rw [renderTaxon_eq_within, within]
  exact if_congr Nat.lt_sub_iff_add_lt rfl rfl

end

end Formula

namespace Model

open Formula

variable {m : Model}

/-- The taxon of the attribute that a reference in another one means. -/
def follow (m : Model) (r : TaxonRef) : String := m.referenced (m.scope.slugOf r.slug)

/-- How references in an attribute are looked up if so many levels are left for them. -/
def lookup (m : Model) (levels : Nat) : TaxonRef → Location → Result Node :=
  Node.lookupAttribute m.context
    ⟨m.dataSource, fun slug => m.attributeSql levels (m.referenced slug)⟩

/-- Whether the formula of one attribute names another one. -/
def Names (m : Model) (taxon next : String) : Prop :=
  ∃ a t, m.attribute? taxon = some a ∧ parse a.formula = .ok t ∧
    ∃ r ∈ t.taxonRefs, m.follow r = next

/-- Attributes, the first named in the one for a taxon and each further one in the one before it. -/
inductive Chain (m : Model) : String → List String → Prop
  | done (taxon : String) : Chain m taxon []
  | next {taxon next : String} {others : List String} (first : m.Names taxon next)
      (rest : Chain m next others) : Chain m taxon (next :: others)

theorem exists_lookup_iff {levels : Nat} (r : TaxonRef) (place : Location) :
    (∃ n, m.lookup levels r place = .ok n) ↔ ∃ sql, m.attributeSql levels (m.follow r) = .ok sql :=
  Result.exists_map_ok

theorem attributeSql_succ {taxon : String} {a : ModelAttribute} (h : m.attribute? taxon = some a)
    (levels : Nat) :
    m.attributeSql (levels + 1) taxon = do
      let t ← parse a.formula
      let n ← Node.ofTree m.context a.formula (m.lookup levels) t
      let o ← ((Node.root n n.place).simplify m.context).outcome m.context
      return o.sql := by
  rw [attributeSql, h]
  dsimp only
  unfold renderAttribute Node.rootOfFormula Node.ofFormula
  dsimp only
  cases parse a.formula with
  | error e => rfl
  | ok t =>
    change ((Node.ofTree m.context a.formula (m.lookup levels) t).map _ >>= _) >>= _ =
      Node.ofTree m.context a.formula (m.lookup levels) t >>= _
    cases Node.ofTree m.context a.formula (m.lookup levels) t <;> rfl

/-- With fewer levels an attribute renders the same, unless a chain from it is too long for them. -/
theorem shortens_attributeSql {d e : Nat} (le : d ≤ e) {taxon : String} :
    Shortens (∃ others, m.Chain taxon others ∧ d ≤ others.length) (m.attributeSql d taxon)
      (m.attributeSql e taxon) := by
  induction d generalizing e taxon with
  | zero => exact .inr ⟨⟨[], .done taxon, Nat.zero_le _⟩, rfl⟩
  | succ d ih =>
    obtain ⟨e, rfl⟩ := Nat.exists_eq_add_of_lt le
    cases known : m.attribute? taxon with
    | none =>
      rw [attributeSql, attributeSql, known]
      exact .refl _
    | some a =>
      rw [attributeSql_succ known, attributeSql_succ known]
      cases read : parse a.formula with
      | error fault => exact .refl _
      | ok t =>
        refine ((Node.shortens_ofTree (fun r => ∃ others, m.Chain (m.follow r) others ∧
          d ≤ others.length) t fun r _ place => (ih (Nat.le_add_right d e)).map _).bind_same
          _).mono ?_
        rintro ⟨r, hr, others, rest, long⟩
        exact ⟨_, .next ⟨a, t, known, read, r, hr, rfl⟩ rest, Nat.succ_le_succ long⟩

theorem Chain.length_lt {taxon : String} {others : List String} (h : m.Chain taxon others)
    {levels : Nat} {sql : Sql.Expr} (renders : m.attributeSql levels taxon = .ok sql) :
    others.length < levels := by
  induction h generalizing levels sql with
  | done taxon =>
    cases levels with
    | zero => cases renders
    | succ levels => exact Nat.succ_pos _
  | next first rest ih =>
    cases levels with
    | zero => cases renders
    | succ levels =>
      obtain ⟨a, t, known, read, r, hr, rfl⟩ := first
      rw [attributeSql_succ known, read] at renders
      obtain ⟨_, ⟨⟩, renders⟩ := Result.bind_eq_ok.1 renders
      obtain ⟨n, reads, _⟩ := Result.bind_eq_ok.1 renders
      obtain ⟨_, found⟩ := (Node.exists_ofTree_iff exists_lookup_iff t).1 ⟨n, reads⟩
      obtain ⟨sql, renders⟩ := found r hr
      exact Nat.succ_lt_succ (ih renders)

/-- An attribute that renders with some number of levels does so with each that its longest chain
does not reach. -/
theorem attributeSql_eq {taxon : String} {others : List String} (chain : m.Chain taxon others)
    (longest : ∀ more, m.Chain taxon more → more.length ≤ others.length) {levels : Nat}
    {sql : Sql.Expr} (renders : m.attributeSql levels taxon = .ok sql) (d : Nat) :
    m.attributeSql d taxon = if others.length < d then .ok sql else .error tooDeep :=
  eq_of_longest (fun d => m.attributeSql d taxon)
    (fun l => ∃ others, m.Chain taxon others ∧ others.length = l)
    (fun _ _ le => (shortens_attributeSql le).mono fun ⟨others, h, long⟩ =>
      ⟨_, ⟨others, h, rfl⟩, long⟩)
    (fun _ _ _ renders ⟨_, h, length⟩ => length ▸ h.length_lt renders)
    ⟨others, chain, rfl⟩ (fun _ ⟨more, h, length⟩ => length ▸ longest more h) renders d

/-! ## Attributes that name each other -/

/-- Whether each of several attributes names another of them, and else only such as render with some
number of levels. -/
structure IsEndless (m : Model) (among : String → Prop) : Prop where
  reads : ∀ taxon, among taxon → ∃ a, m.attribute? taxon = some a ∧ IsReadable a.formula
  follows : ∀ taxon, among taxon → ∃ next, m.Names taxon next ∧ among next
  others : ∀ taxon, among taxon → ∀ next, m.Names taxon next →
    among next ∨ ∃ levels sql, m.attributeSql levels next = .ok sql

theorem attributeSql_cases {taxon : String} {levels : Nat} {sql : Sql.Expr}
    (renders : m.attributeSql levels taxon = .ok sql) (d : Nat) :
    m.attributeSql d taxon = .ok sql ∨ m.attributeSql d taxon = .error tooDeep := by
  rcases Nat.le_total d levels with le | le
  · exact (shortens_attributeSql le).imp (fun same => same.trans renders) And.right
  · exact .inl ((shortens_attributeSql le).eq_of_ok renders)

theorem IsEndless.attributeSql_eq {among : String → Prop} (h : m.IsEndless among) (levels : Nat)
    {taxon : String} (member : among taxon) : m.attributeSql levels taxon = .error tooDeep := by
  induction levels generalizing taxon with
  | zero => rfl
  | succ levels ih =>
    obtain ⟨a, known, t, read, calls⟩ := h.reads taxon member
    obtain ⟨_, ⟨a', t', known', read', r, hr, rfl⟩, further⟩ := h.follows taxon member
    cases known.symm.trans known'
    cases read.symm.trans read'
    rw [attributeSql_succ known, read]
    have deep : Node.ofTree m.context a.formula (m.lookup levels) t = .error tooDeep := by
      refine Node.ofTree_eq_tooDeep calls (fun u hu place => ?each) ?unread
      case each =>
        rcases h.others taxon member _ ⟨a, t, known, read, u, hu, rfl⟩ with again | ⟨_, _, renders⟩
        · exact .inr (congrArg (Except.map _) (ih again))
        · rcases attributeSql_cases renders levels with ok | deep
          · exact .inl ⟨_, congrArg (Except.map _) ok⟩
          · exact .inr (congrArg (Except.map _) deep)
      case unread =>
        intro reads
        obtain ⟨_, found⟩ := (Node.exists_ofTree_iff exists_lookup_iff t).1 reads
        obtain ⟨sql, ok⟩ := found r hr
        cases ok.symm.trans (ih further)
    change Node.ofTree m.context a.formula (m.lookup levels) t >>= _ = _
    rw [deep]
    rfl

theorem taxonSql_eq_tooDeep {taxon : String}
    (deep : m.attributeSql referenceLimit taxon = .error tooDeep) (arraysAsText : Bool) :
    m.taxonSql taxon arraysAsText = .error tooDeep := by
  unfold taxonSql
  rw [deep]
  rfl

theorem exists_taxonSql {taxon : String} {sql : Sql.Expr}
    (renders : m.attributeSql referenceLimit taxon = .ok sql) (arraysAsText : Bool) :
    ∃ e, m.taxonSql taxon arraysAsText = .ok e := by
  unfold taxonSql
  rw [renders]
  exact ⟨_, rfl⟩

/-! ## Chains of both kinds -/

/-- Whether two computations both have a result or both fail since references go too deep. -/
def Alike {α β : Type} (x : Result α) (y : Result β) : Prop :=
  (∃ a, x = .ok a) ∧ (∃ b, y = .ok b) ∨ x = .error tooDeep ∧ y = .error tooDeep

/-- A calculation and an attribute whose longest chains have the same length, and which render with
some number of levels.  With their first taxon, chains of computed taxons have to stay below the
limit; those of attributes may reach it. -/
theorem chains_alike_iff {ctx : Context} {text last : String} {slugs : List String}
    (taxons : Formula.Chain ctx text slugs last)
    (longestTaxons : ∀ others last, Formula.Chain ctx text others last →
      others.length ≤ slugs.length)
    {levels : Nat} {o : Outcome} (rendersTaxons : renderTaxonWithin ctx levels text = .ok o)
    {taxon : String} {names : List String} (attributes : m.Chain taxon names)
    (longestAttributes : ∀ more, m.Chain taxon more → more.length ≤ names.length)
    {levels' : Nat} {sql : Sql.Expr} (rendersAttributes : m.attributeSql levels' taxon = .ok sql)
    (same : names.length = slugs.length) (arraysAsText : Bool) :
    let n := slugs.length + 1
    (renderTaxon ctx text = if n < referenceLimit then .ok o else .error tooDeep) ∧
    (n ≤ referenceLimit → ∃ e, m.taxonSql taxon arraysAsText = .ok e) ∧
    (referenceLimit < n → m.taxonSql taxon arraysAsText = .error tooDeep) ∧
    (Alike (renderTaxon ctx text) (m.taxonSql taxon arraysAsText) ↔ n ≠ referenceLimit) ∧
    ∀ (m' : Model) (among : String → Prop), m'.IsEndless among →
      ∀ t, among t → m'.taxonSql t arraysAsText = .error tooDeep := by
  intro n
  have ofTaxons : renderTaxon ctx text = if n < referenceLimit then .ok o else .error tooDeep :=
    renderTaxon_eq taxons longestTaxons rendersTaxons
  have ofAttributes : m.attributeSql referenceLimit taxon =
      if n ≤ referenceLimit then .ok sql else .error tooDeep := by
    rw [attributeSql_eq attributes longestAttributes rendersAttributes, same]
    exact if_congr Nat.lt_iff_add_one_le rfl rfl
  have short (h : n ≤ referenceLimit) : ∃ e, m.taxonSql taxon arraysAsText = .ok e := by
    rw [if_pos h] at ofAttributes
    exact exists_taxonSql ofAttributes arraysAsText
  have long (h : referenceLimit < n) : m.taxonSql taxon arraysAsText = .error tooDeep := by
    rw [if_neg (Nat.not_le_of_lt h)] at ofAttributes
    exact taxonSql_eq_tooDeep ofAttributes arraysAsText
  refine ⟨ofTaxons, short, long, ⟨?differ, ?alike⟩, fun m' among endless t member =>
    taxonSql_eq_tooDeep (endless.attributeSql_eq referenceLimit member) arraysAsText⟩
  case differ =>
    intro alike atLimit
    rw [if_neg (Nat.not_lt_of_le (Nat.le_of_eq atLimit.symm))] at ofTaxons
    obtain ⟨e, renders⟩ := short (Nat.le_of_eq atLimit)
    rcases alike with ⟨⟨o, renders⟩, _⟩ | ⟨_, deep⟩
    · cases ofTaxons.symm.trans renders
    · cases renders.symm.trans deep
  case alike =>
    intro offLimit
    rcases Nat.lt_or_gt_of_ne offLimit with below | above
    · rw [if_pos below] at ofTaxons
      exact .inl ⟨⟨o, ofTaxons⟩, short (Nat.le_of_lt below)⟩
    · rw [if_neg (Nat.not_lt_of_gt above)] at ofTaxons
      exact .inr ⟨ofTaxons, long above⟩

/-! ### Costs that are linked -/

/-- Attributes of one table. -/
def ofFormulas (formulas : List (String × String)) : Model where
  name := "costs"
  attributes := .ofList (formulas.map fun (taxon, formula) => (taxon, .of taxon formula))
  joins := []
  dataSources := ["ads"]
  type? := none
  visibility := .available
  company := "shop"
  project? := none
  table := ["costs"]
  physicalSource? := none

theorem Names.of_any {taxon next : String}
    (named : (m.attribute? taxon).any (fun a => (parse a.formula).toOption.any fun t =>
      t.taxonRefs.any fun r => m.follow r = next) = true) : m.Names taxon next := by
  obtain ⟨a, known, named⟩ := (Option.any_eq_true _ _).1 named
  obtain ⟨t, read, named⟩ := Result.ok_of_any named
  obtain ⟨r, hr, same⟩ := List.any_eq_true.1 named
  exact ⟨a, t, known, read, r, hr, of_decide_eq_true same⟩

/-- Whether each of several attributes names one of them, and else only such as render with so many
levels. -/
def endless (m : Model) (levels : Nat) (taxons : List String) : Bool :=
  taxons.all fun taxon => (m.attribute? taxon).any fun a => (parse a.formula).toOption.any fun t =>
    t.callsKnown && t.taxonRefs.any (fun r => taxons.contains (m.follow r)) &&
      t.taxonRefs.all fun r => taxons.contains (m.follow r) ||
        (m.attributeSql levels (m.follow r)).toOption.any fun _ => true

theorem isEndless_of_endless {levels : Nat} {taxons : List String}
    (h : m.endless levels taxons = true) : m.IsEndless (· ∈ taxons) := by
  have each {taxon : String} (member : taxon ∈ taxons) : ∃ a t, m.attribute? taxon = some a ∧
      parse a.formula = .ok t ∧ t.callsKnown = true ∧
      (∃ r ∈ t.taxonRefs, m.follow r ∈ taxons) ∧
      ∀ r ∈ t.taxonRefs, m.follow r ∈ taxons ∨
        ∃ levels sql, m.attributeSql levels (m.follow r) = .ok sql := by
    obtain ⟨a, known, h⟩ := (Option.any_eq_true _ _).1 (List.all_eq_true.1 h taxon member)
    obtain ⟨t, read, h⟩ := Result.ok_of_any h
    rw [Bool.and_eq_true, Bool.and_eq_true, List.any_eq_true, List.all_eq_true] at h
    obtain ⟨⟨calls, r, hr, again⟩, others⟩ := h
    refine ⟨a, t, known, read, calls, ⟨r, hr, List.contains_iff_mem.1 again⟩, fun u hu => ?_⟩
    refine (Bool.or_eq_true_iff.1 (others u hu)).imp List.contains_iff_mem.1 fun renders => ?_
    obtain ⟨sql, ok, _⟩ := Result.ok_of_any renders
    exact ⟨levels, sql, ok⟩
  refine ⟨fun taxon member => ?reads, fun taxon member => ?follows, fun taxon member => ?others⟩
  case reads =>
    obtain ⟨a, t, known, read, calls, _⟩ := each member
    exact ⟨a, known, t, read, calls⟩
  case follows =>
    obtain ⟨a, t, known, read, _, ⟨r, hr, again⟩, _⟩ := each member
    exact ⟨_, ⟨a, t, known, read, r, hr, rfl⟩, again⟩
  case others =>
    rintro _ ⟨a', t', known', read', r, hr, rfl⟩
    obtain ⟨a, t, known, read, _, _, others⟩ := each member
    cases known.symm.trans known'
    cases read.symm.trans read'
    exact others r hr

/-- A total of a cost in one model, and a debit and a credit that name each other. -/
def costModel : Model := .ofFormulas [("ads|total", "cost + cost"), ("ads|cost", "\"COST\""),
  ("ads|debit", "credit + cost"), ("ads|credit", "total - debit")]

theorem chains_alike_costs :
    (∃ o, renderTaxon sharedCost "cost + cost?" = .ok o) ∧
    (∃ e, costModel.taxonSql "ads|total" false = .ok e) ∧
    costModel.taxonSql "ads|debit" false = .error tooDeep := by
  obtain ⟨o, renders, _⟩ : ∃ o, renderTaxonWithin sharedCost 2 "cost + cost?" = .ok o ∧ _ :=
    Result.ok_of_any (f := fun _ => true) (by decide +kernel)
  obtain ⟨sql, renders', _⟩ : ∃ sql, costModel.attributeSql 2 "ads|total" = .ok sql ∧ _ :=
    Result.ok_of_any (f := fun _ => true) (by decide +kernel)
  have cost : sharedCost.Expands "cost + cost?" "cost" "spend + spend" :=
    .of_any (by decide +kernel) (by decide +kernel)
  have total : costModel.Names "ads|total" "ads|cost" := .of_any (by decide +kernel)
  obtain ⟨below, attributes, _, _, cyclic⟩ := chains_alike_iff (.next cost (.done _))
    (fun _ _ h => Nat.le_of_lt_succ (h.length_lt renders)) renders (.next total (.done _))
    (fun _ h => Nat.le_of_lt_succ (h.length_lt renders')) renders' rfl false
  have endless : costModel.endless 2 ["ads|debit", "ads|credit"] = true := by decide +kernel
  exact ⟨⟨o, below⟩, attributes (by decide),
    cyclic _ _ (isEndless_of_endless endless) _ (List.mem_cons_self ..)⟩

/-- Names, each with the one after it, and the last with something else. -/
def linked (names : List String) (last : String) : List (String × String) :=
  names.zip (names.tail ++ [last])

/-- Computed taxons, each of which is the next one, and the last one is the spend. -/
def linkedCosts (names : List String) : Context :=
  let metric (slug : String) (definition : TaxonDefinition) : Taxon :=
    ⟨slug, slug, none, .metric, definition, .numeric, "shop", none, none, none⟩
  Context.ofTaxons (Taxon.mapOf (metric "spend" (.raw .sum) ::
    (linked names "spend").map fun (slug, next) => metric slug (.computed next)))

/-- Of ten computed taxons the first one does not render, of ten attributes it does. -/
theorem chains_not_alike :
    let names := ["a", "b", "c", "d", "e", "f", "g", "h", "i", "j"]
    names.length = referenceLimit ∧ (linkedCosts names).calculation? "a" = some "b" ∧
    renderTaxon (linkedCosts names) "b" = .error tooDeep ∧
    ∃ e, (Model.ofFormulas (linked names "\"COST\"")).taxonSql "a" false = .ok e := by
  intro names
  obtain ⟨e, renders, _⟩ :
      ∃ e, (Model.ofFormulas (linked names "\"COST\"")).taxonSql "a" false = .ok e ∧ _ :=
    Result.ok_of_any (f := fun _ => true) (by decide +kernel)
  refine ⟨rfl, by decide +kernel, ?_, e, renders⟩
  have fails : (match renderTaxon (linkedCosts names) "b" with
      | .error (.referenceDepth limit) => decide (limit = referenceLimit)
      | _ => false) = true := by
    decide +kernel
  split at fails
  · rename_i deep
    rw [deep, of_decide_eq_true fails]
    rfl
  · cases fails

end Model

end SemanticLayer
