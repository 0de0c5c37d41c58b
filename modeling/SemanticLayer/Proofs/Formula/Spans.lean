import SemanticLayer.Proofs.Formula.Reading

/-!
# The spans of a formula

Each node of a formula covers its own text, from its first token to the end of its last one, with the
texts of its children in it, one after another.  Read alone, that text is the same node.

* `Tree.Takes`: the lexemes that are read as a tree, wherever they stand and whatever follows, as long
  as it does not go on with them;
* `Tree.Laid`: a tree over its lexemes, with its children over parts of them that are read as they are;
* `Tree.expression_lays`: what is read is laid over what it takes, by the levels of reading;
* `Tree.IsNode.part`: each node is read from a part of the lexemes, by its way down from the root;
* `parse_nodes_standIn`: the same for texts.
-/

namespace SemanticLayer.Formula

/-- The span where its text starts `k` bytes later. -/
def Span.shift (k : Nat) (s : Span) : Span := ⟨s.start + k, s.stop + k⟩

/-- Spans one after another, from one byte to another. -/
def Span.InOrder (start stop : Nat) : List Span → Prop
  | [] => start ≤ stop
  | s :: ss => start ≤ s.start ∧ s.start ≤ s.stop ∧ InOrder s.stop stop ss

/-- A span from the first of some lexemes to the end of the last one. -/
structure Span.Covers (s : Span) (used : List Lexeme) : Prop where
  first : ∃ l ∈ used.head?, l.start = s.start
  last : ∃ l ∈ used.getLast?, l.stop = s.stop

namespace Tree

open Grammar

mutual

/-- The tree where its text starts `k` bytes later. -/
def shift (k : Nat) : Tree → Tree
  | .integer n s => .integer n (s.shift k)
  | .float x s => .float x (s.shift k)
  | .bool b s => .bool b (s.shift k)
  | .singleQuoted v s => .singleQuoted v (s.shift k)
  | .doubleQuoted v s => .doubleQuoted v (s.shift k)
  | .taxon r s => .taxon r (s.shift k)
  | .call name args s => .call name (shiftEach k args) (s.shift k)
  | .paren t s => .paren (t.shift k) (s.shift k)
  | .binary op l r s => .binary op (l.shift k) (r.shift k) (s.shift k)
  | .not t s => .not (t.shift k) (s.shift k)
  | .isNull t negated s => .isNull (t.shift k) negated (s.shift k)

def shiftEach (k : Nat) : List Tree → List Tree
  | [] => []
  | t :: ts => t.shift k :: shiftEach k ts

end

/-- The nodes that a node is made of, in the order in which they are written. -/
def children : Tree → List Tree
  | .integer .. => []
  | .float .. => []
  | .bool .. => []
  | .singleQuoted .. => []
  | .doubleQuoted .. => []
  | .taxon .. => []
  | .call _ args _ => args
  | .paren t _ => [t]
  | .binary _ l r _ => [l, r]
  | .not t _ => [t]
  | .isNull t _ _ => [t]

/-- Whether `n` is a node of a tree: its root, or a node of one of the root's children. -/
inductive IsNode (n : Tree) : Tree → Prop
  | root : IsNode n n
  | child {c t : Tree} (hc : c ∈ t.children) (h : IsNode n c) : IsNode n t

variable {k : Nat}

theorem shiftEach_eq (ts : List Tree) : shiftEach k ts = ts.map (shift k) := by
  induction ts with
  | nil => rw [shiftEach, List.map_nil]
  | cons t ts ih => rw [shiftEach, ih, List.map_cons]

@[simp] theorem span_shift (t : Tree) : (t.shift k).span = t.span.shift k := by
  cases t <;> rw [shift] <;> rfl

@[simp] theorem shift_operation (op : Operator) (l r : Tree) :
    (operation op l r).shift k = operation op (l.shift k) (r.shift k) := by
  rw [operation, shift, operation, span_shift, span_shift]
  rfl

@[simp] theorem shift_ofDigits (negative : Bool) (digits : String) (s : Span) :
    (ofDigits negative digits s).shift k = ofDigits negative digits (s.shift k) := by
  unfold ofDigits
  dsimp only
  rw [apply_ite (shift k), shift, shift]

@[simp] theorem shift_ofDecimal (negative : Bool) (text : String) (s : Span) :
    (ofDecimal negative text s).shift k = ofDecimal negative text (s.shift k) := by
  unfold ofDecimal
  rw [shift]

mutual

theorem shift_zero : (t : Tree) → t.shift 0 = t
  | .integer .. => by rw [shift]; rfl
  | .float .. => by rw [shift]; rfl
  | .bool .. => by rw [shift]; rfl
  | .singleQuoted .. => by rw [shift]; rfl
  | .doubleQuoted .. => by rw [shift]; rfl
  | .taxon .. => by rw [shift]; rfl
  | .call _ args _ => by rw [shift, shiftEach_zero args]; rfl
  | .paren t _ => by rw [shift, shift_zero t]; rfl
  | .binary _ l r _ => by rw [shift, shift_zero l, shift_zero r]; rfl
  | .not t _ => by rw [shift, shift_zero t]; rfl
  | .isNull t _ _ => by rw [shift, shift_zero t]; rfl

theorem shiftEach_zero : (ts : List Tree) → shiftEach 0 ts = ts
  | [] => by rw [shiftEach]
  | t :: ts => by rw [shiftEach, shift_zero t, shiftEach_zero ts]

end

/-! ## Trees over lexemes -/

/-- The lexemes `used` are read as `t`, wherever they stand and whatever follows that does not go on
with them. -/
def Takes (read : (ls : List Lexeme) → Except (Option Lexeme) (Tree × Shorter ls))
    (continues : Token → Prop) (used : List Lexeme) (t : Tree) : Prop :=
  ∀ k rest, Ends continues rest →
    Yields (read (used.map (Lexeme.shift k) ++ rest)) (t.shift k) rest

/-- After the lexemes `used` reading goes on as from the tree `left`. -/
def Leads (read : (ls : List Lexeme) → Except (Option Lexeme) (Tree × Shorter ls))
    (tail : Tree → (ls : List Lexeme) → Except (Option Lexeme) (Tree × NotLonger ls))
    (continues : Token → Prop) (used : List Lexeme) (left : Tree) : Prop :=
  ∀ k mid, Ends continues mid → ∀ t rest, Yields (tail (left.shift k) mid) t rest →
    Yields (read (used.map (Lexeme.shift k) ++ mid)) t rest

/-- The lexemes `used` are read as the expression `t`. -/
abbrev IsExpression (used : List Lexeme) (t : Tree) : Prop :=
  Takes expression ContinuesExpression used t

/-- Trees over parts of some lexemes, one after another, each part read as its tree. -/
inductive Spread : List Lexeme → List Tree → Prop
  | nil (ls : List Lexeme) : Spread ls []
  | cons (gap : List Lexeme) {part ls : List Lexeme} {t : Tree} {ts : List Tree}
      (covers : t.span.Covers part) (read : IsExpression part t) (rest : Spread ls ts) :
      Spread (gap ++ (part ++ ls)) (t :: ts)

theorem Spread.after (gap : List Lexeme) {ls : List Lexeme} {ts : List Tree} (h : Spread ls ts) :
    Spread (gap ++ ls) ts := by
  cases h with
  | nil => exact .nil _
  | cons gap' covers read rest =>
    rw [← List.append_assoc]
    exact .cons (gap ++ gap') covers read rest

theorem Spread.before {ls : List Lexeme} {ts : List Tree} (h : Spread ls ts) (more : List Lexeme) :
    Spread (ls ++ more) ts := by
  induction h with
  | nil => exact .nil _
  | cons gap covers read _ ih =>
    rw [List.append_assoc, List.append_assoc]
    exact .cons gap covers read ih

/-- A tree over lexemes, and its children over parts of them. -/
structure Laid (used : List Lexeme) (t : Tree) : Prop where
  covers : t.span.Covers used
  children : Spread used t.children

/-- What is read from some lexemes is laid over those that it takes. -/
def Lays (read : (ls : List Lexeme) → Except (Option Lexeme) (Tree × Shorter ls))
    (continues : Token → Prop) (ls : List Lexeme) : Prop :=
  ∀ t rest, Yields (read ls) t rest →
    ∃ used, ls = used ++ rest ∧ Takes read continues used t ∧ Laid used t

section

variable {read inner : (ls : List Lexeme) → Except (Option Lexeme) (Tree × Shorter ls)}
variable {tail : Tree → (ls : List Lexeme) → Except (Option Lexeme) (Tree × NotLonger ls)}
variable {continues continues' : Token → Prop} {ls used added rest : List Lexeme} {l : Lexeme}
variable {t left right : Tree} {op : Operator}

/-- A level begins with what the level below takes. -/
theorem Takes.leads (h : Takes inner continues used t)
    (start : ∀ {ls left mid t rest}, Yields (inner ls) left mid → Yields (tail left mid) t rest →
      Yields (read ls) t rest) : Leads read tail continues used t :=
  fun k mid ends _ _ more => start (h k mid ends) more

/-- A level ends where nothing goes on with it. -/
theorem Leads.takes (h : Leads read tail continues used t) (sub : ∀ t, continues t → continues' t)
    (stop : ∀ left mid, Ends continues' mid → Yields (tail left mid) left mid) :
    Takes read continues' used t :=
  fun k rest ends => h k rest (fun l hl c => ends l hl (sub _ c)) _ _ (stop _ _ ends)

theorem Leads.operation (h : Leads read tail continues used left) (apart : ¬ continues l.token)
    (next : ∀ {m : Lexeme} {left more right mid t rest}, m.token = l.token →
      Yields (inner more) right mid → Yields (tail (operation op left right) mid) t rest →
        Yields (tail left (m :: more)) t rest)
    (hr : Takes inner continues added right) :
    Leads read tail continues (used ++ l :: added) (operation op left right) := by
  intro k mid ends t rest more
  rw [shift_operation] at more
  rw [List.map_append, List.append_assoc]
  exact h k (l.shift k :: _) (ends_cons.2 apart) t rest
    (next (l.token_shift k) (hr k mid ends) more)

theorem Laid.operation (hl : Laid used left) (hr : Laid added right) (el : IsExpression used left)
    (er : IsExpression added right) :
    Laid (used ++ l :: added) (operation op left right) := by
  obtain ⟨first, hfirst, starts⟩ := hl.covers.first
  obtain ⟨last, hlast, stops⟩ := hr.covers.last
  refine ⟨⟨⟨first, by simp [Option.mem_def.1 hfirst], starts⟩,
    ⟨last, by simp [List.getLast?_cons, Option.mem_def.1 hlast], stops⟩⟩, ?_⟩
  have spread : Spread ([] ++ (used ++ ([l] ++ (added ++ [])))) [left, right] :=
    .cons [] hl.covers el (.cons [l] hr.covers er (.nil []))
  rwa [List.nil_append, List.singleton_append, List.append_nil] at spread

/-- What one step of a level joins to a tree. -/
def Joins (read : (ls : List Lexeme) → Except (Option Lexeme) (Tree × Shorter ls))
    (tail : Tree → (ls : List Lexeme) → Except (Option Lexeme) (Tree × NotLonger ls))
    (continues : Token → Prop) (left : Tree) (l : Lexeme) (added : List Lexeme) (next : Tree) : Prop :=
  ∀ used, Leads read tail continues used left → Laid used left →
    Leads read tail continues (used ++ l :: added) next ∧ Laid (used ++ l :: added) next

/-- Steps that each join lexemes join all that are read. -/
theorem Leads.joins {n : Nat} (step : ∀ {left ls t rest}, ls.length ≤ n →
      Yields (tail left ls) t rest → t = left ∧ rest = ls ∨
        ∃ l added next mid, ls = l :: (added ++ mid) ∧ Joins read tail continues left l added next ∧
          Yields (tail next mid) t rest)
    (lead : Leads read tail continues used left) (laid : Laid used left) {ls : List Lexeme}
    (short : ls.length ≤ n) (h : Yields (tail left ls) t rest) :
    ∃ more, ls = more ++ rest ∧ Leads read tail continues (used ++ more) t ∧ Laid (used ++ more) t := by
  induction len : ls.length using Nat.strong_induction_on generalizing left used ls with
  | _ length ih =>
    obtain ⟨rfl, rfl⟩ | ⟨l, added, next, mid, rfl, joins, h⟩ := step short h
    · exact ⟨[], rfl, by simpa using ⟨lead, laid⟩⟩
    · obtain ⟨lead, laid⟩ := joins used lead laid
      have shorter : mid.length < (l :: (added ++ mid)).length := by
        simp only [List.length_cons, List.length_append]
        omega
      obtain ⟨more, rfl, joined⟩ := ih _ (len ▸ shorter) lead laid (by omega) h rfl
      exact ⟨l :: (added ++ more), by simp, by simpa using joined⟩

/-- A level whose steps join lexemes is laid over what it takes. -/
theorem Lays.level {n : Nat} (below : ∀ {ls : List Lexeme}, ls.length ≤ n → Lays inner continues ls)
    (first : ∀ {ls t rest}, Yields (read ls) t rest ↔
      ∃ left mid, Yields (inner ls) left mid ∧ Yields (tail left mid) t rest)
    (step : ∀ {left ls t rest}, ls.length ≤ n →
      Yields (tail left ls) t rest → t = left ∧ rest = ls ∨
        ∃ l added next mid, ls = l :: (added ++ mid) ∧ Joins read tail continues left l added next ∧
          Yields (tail next mid) t rest)
    (sub : ∀ t, continues t → continues' t)
    (stop : ∀ left mid, Ends continues' mid → Yields (tail left mid) left mid)
    {ls : List Lexeme} (short : ls.length ≤ n) : Lays read continues' ls := by
  intro t rest h
  obtain ⟨left, mid, start, further⟩ := first.1 h
  obtain ⟨used, rfl, takes, laid⟩ := below short left mid start
  have lead : Leads read tail continues used left :=
    takes.leads fun start more => first.2 ⟨_, _, start, more⟩
  obtain ⟨more, rfl, lead, laid⟩ :=
    lead.joins step laid (by rw [List.length_append] at short; omega) further
  exact ⟨used ++ more, by simp, lead.takes sub stop, laid⟩

theorem Joins.operation (apart : ¬ continues l.token)
    (next : ∀ {m : Lexeme} {left more right mid t rest}, m.token = l.token →
      Yields (inner more) right mid → Yields (tail (operation op left right) mid) t rest →
        Yields (tail left (m :: more)) t rest)
    (whole : ∀ {used t}, Leads read tail continues used t → IsExpression used t)
    (takes : Takes inner continues added right) (laid : Laid added right)
    (er : IsExpression added right) :
    Joins read tail continues left l added (operation op left right) :=
  fun _ lead before => ⟨lead.operation apart next takes, before.operation laid (whole lead) er⟩

end

/-! ## From level to level -/

section

variable {ls used rest : List Lexeme} {t : Tree} {n : Nat}

theorem takes_operand (h : Takes atom ContinuesAtom used t) : Takes operand ContinuesAtom used t :=
  fun k rest ends => yields_operand (h k rest ends)

theorem leads_product (h : Takes operand ContinuesAtom used t) :
    Leads product productTail ContinuesAtom used t :=
  h.leads fun start more => yields_product.2 ⟨_, _, start, more⟩

theorem takes_product (h : Leads product productTail ContinuesAtom used t) :
    Takes product ContinuesProduct used t :=
  h.takes (fun _ => .inl) fun _ _ ends =>
    yields_productTail.2 (.inl ⟨fun l hl h => ends l hl (.inr h), rfl, rfl⟩)

theorem leads_sum (h : Takes product ContinuesProduct used t) :
    Leads sum sumTail ContinuesProduct used t :=
  h.leads fun start more => yields_sum.2 ⟨_, _, start, more⟩

theorem takes_sum (h : Leads sum sumTail ContinuesProduct used t) : Takes sum ContinuesSum used t :=
  h.takes (fun _ => .inl) fun _ _ ends =>
    yields_sumTail.2 (.inl ⟨fun l hl h => ends l hl (.inr h), rfl, rfl⟩)

theorem leads_expression (h : Takes sum ContinuesSum used t) :
    Leads expression expressionTail ContinuesSum used t :=
  h.leads fun start more => yields_expression.2 ⟨_, _, start, more⟩

theorem takes_expression (h : Leads expression expressionTail ContinuesSum used t) :
    IsExpression used t :=
  h.takes (fun _ => .inl) fun _ _ ends =>
    yields_expressionTail.2 (.inl ⟨fun l hl h => ends l hl (.inr h), rfl, rfl⟩)

/-- A part of a sum is an expression. -/
theorem isExpression_of_leads_sum (h : Leads sum sumTail ContinuesProduct used t) :
    IsExpression used t :=
  takes_expression (leads_expression (takes_sum h))

/-- A part of a product is an expression. -/
theorem isExpression_of_leads_product (h : Leads product productTail ContinuesAtom used t) :
    IsExpression used t :=
  isExpression_of_leads_sum (leads_sum (takes_product h))

theorem product_lays (below : ∀ {ls : List Lexeme}, ls.length ≤ n → Lays operand ContinuesAtom ls)
    (short : ls.length ≤ n) : Lays product ContinuesProduct ls := by
  refine .level below yields_product (fun short h => ?_) (fun _ => .inl)
    (fun _ _ ends => yields_productTail.2 (.inl ⟨fun l hl h => ends l hl (.inr h), rfl, rfl⟩)) short
  obtain ⟨_, rfl, rfl⟩ | ⟨l, more, op, right, mid, rfl, operator, first, tail⟩ := yields_productTail.1 h
  · exact .inl ⟨rfl, rfl⟩
  · obtain ⟨added, rfl, takes, laid⟩ := below (Nat.le_of_succ_le short) right mid first
    have apart : ¬ ContinuesAtom l.token := by
      cases known : l.token <;> simp_all [ContinuesAtom, productOperator?]
    refine .inr ⟨l, added, _, mid, rfl, .operation apart (fun same first tail => ?_)
      isExpression_of_leads_product takes laid
      (isExpression_of_leads_product (leads_product takes)), tail⟩
    exact yields_productTail.2 (.inr ⟨_, _, op, _, _, rfl, same ▸ operator, first, tail⟩)

theorem sum_lays (below : ∀ {ls : List Lexeme}, ls.length ≤ n → Lays product ContinuesProduct ls)
    (short : ls.length ≤ n) : Lays sum ContinuesSum ls := by
  refine .level below yields_sum (fun short h => ?_) (fun _ => .inl)
    (fun _ _ ends => yields_sumTail.2 (.inl ⟨fun l hl h => ends l hl (.inr h), rfl, rfl⟩)) short
  obtain ⟨_, rfl, rfl⟩ | ⟨l, more, op, right, mid, rfl, operator, first, tail⟩ := yields_sumTail.1 h
  · exact .inl ⟨rfl, rfl⟩
  · obtain ⟨added, rfl, takes, laid⟩ := below (Nat.le_of_succ_le short) right mid first
    have apart : ¬ ContinuesProduct l.token := by
      cases known : l.token <;>
        simp_all [ContinuesProduct, ContinuesAtom, productOperator?, sumOperator?]
    refine .inr ⟨l, added, _, mid, rfl, .operation apart (fun same first tail => ?_)
      isExpression_of_leads_sum takes laid (isExpression_of_leads_sum (leads_sum takes)), tail⟩
    exact yields_sumTail.2 (.inr ⟨_, _, op, _, _, rfl, same ▸ operator, first, tail⟩)

theorem nullTest_takes {negated : Bool} {stop : Nat} {h : rest.length < ls.length}
    (e : nullTest ls = .ok (negated, stop, ⟨rest, h⟩)) :
    ∃ more l, ls = more ++ l :: rest ∧ l.stop = stop ∧ ∀ k rest', ∃ h',
      nullTest ((more ++ [l]).map (Lexeme.shift k) ++ rest') = .ok (negated, stop + k, ⟨rest', h'⟩) := by
  unfold nullTest at e
  split at e
  · rename_i text start more
    cases e
    refine ⟨[], ⟨.null, text, start⟩, rfl, rfl, fun k rest' => ?_⟩
    rw [Nat.add_right_comm]
    exact ⟨_, rfl⟩
  · rename_i text' start' text start more
    cases e
    refine ⟨[⟨.not, text', start'⟩], ⟨.null, text, start⟩, rfl, rfl, fun k rest' => ?_⟩
    rw [Nat.add_right_comm]
    exact ⟨_, rfl⟩
  · cases unexpected_ne_ok e
  · cases unexpected_ne_ok e

theorem Joins.isNull {left : Tree} {l : Lexeme} (isIs : l.token = .is) {negated : Bool} {stop : Nat}
    {more : List Lexeme} {last : Lexeme} (ends : last.stop = stop)
    (test : ∀ k rest', ∃ h', nullTest ((more ++ [last]).map (Lexeme.shift k) ++ rest') =
      .ok (negated, stop + k, ⟨rest', h'⟩)) :
    Joins expression expressionTail ContinuesSum left l (more ++ [last])
      (.isNull left negated ⟨left.span.start, stop⟩) := by
  intro used lead laid
  constructor
  · intro k mid _ t rest further
    rw [shift] at further
    rw [List.map_append, List.append_assoc]
    have apart : ¬ ContinuesSum l.token := by
      rw [isIs]
      simp [ContinuesSum, ContinuesProduct, ContinuesAtom, productOperator?, sumOperator?]
    obtain ⟨shorter, test⟩ := test k mid
    refine lead k (l.shift k :: _) (ends_cons.2 apart) t rest ?_
    refine yields_expressionTail.2 (.inr (.inr ⟨_, _, negated, _, mid, shorter, rfl, isIs, test, ?_⟩))
    rw [span_shift]
    exact further
  · obtain ⟨first, hfirst, starts⟩ := laid.covers.first
    refine ⟨⟨⟨first, by simp [Option.mem_def.1 hfirst], starts⟩,
      ⟨last, by simp [List.getLast?_cons], ends⟩⟩, ?_⟩
    exact .cons [] laid.covers (takes_expression lead) (.nil _)

theorem expression_lays_of_sum
    (below : ∀ {ls : List Lexeme}, ls.length ≤ n → Lays sum ContinuesSum ls)
    (short : ls.length ≤ n) : Lays expression ContinuesExpression ls := by
  refine .level below yields_expression (fun short h => ?_) (fun _ => .inl)
    (fun _ _ ends => yields_expressionTail.2 (.inl ⟨fun l hl h => ends l hl (.inr h), rfl, rfl⟩)) short
  obtain ⟨_, rfl, rfl⟩ | ⟨l, more, op, right, mid, rfl, operator, first, tail⟩ |
    ⟨l, more, negated, stop, mid, hmid, rfl, isIs, test, tail⟩ := yields_expressionTail.1 h
  · exact .inl ⟨rfl, rfl⟩
  · obtain ⟨added, rfl, takes, laid⟩ := below (Nat.le_of_succ_le short) right mid first
    have apart : ¬ ContinuesSum l.token := by
      cases known : l.token <;>
        simp_all [ContinuesSum, ContinuesProduct, ContinuesAtom, productOperator?, sumOperator?,
          logicalOperator?]
    refine .inr ⟨l, added, _, mid, rfl, .operation apart (fun same first tail => ?_)
      takes_expression takes laid (takes_expression (leads_expression takes)), tail⟩
    exact yields_expressionTail.2
      (.inr (.inl ⟨_, _, op, _, _, rfl, same ▸ operator, first, tail⟩))
  · obtain ⟨more, last, rfl, ends, test⟩ := nullTest_takes test
    exact .inr ⟨l, more ++ [last], _, mid, by simp, .isNull isIs ends test, tail⟩

theorem operand_lays {ls : List Lexeme}
    (below : ∀ {ls : List Lexeme}, ls.length ≤ n → Lays atom ContinuesAtom ls)
    (short : ls.length ≤ n) : Lays operand ContinuesAtom ls := by
  intro t rest h
  obtain ⟨_, e⟩ := h
  rw [operand.eq_def] at e
  split at e
  · rename_i text start more _
    obtain ⟨⟨inner, _, h'⟩, read, same⟩ := Result.map_eq_ok.1 e
    cases same
    obtain ⟨used, rfl, takes, laid⟩ :=
      operand_lays below (Nat.le_of_succ_le short) inner _ ⟨h', read⟩
    refine ⟨⟨.not, text, start⟩ :: used, rfl, fun k rest' ends => ?_, ?_⟩
    · have again := yields_not text (start + k) (takes k rest' ends)
      rw [span_shift] at again
      rw [shift]
      exact again
    · obtain ⟨last, hlast, stops⟩ := laid.covers.last
      refine ⟨⟨⟨_, rfl, rfl⟩, ⟨last, by simp [List.getLast?_cons, Option.mem_def.1 hlast], stops⟩⟩, ?_⟩
      have spread := Spread.cons [⟨.not, text, start⟩] laid.covers
        (isExpression_of_leads_product (leads_product takes)) (.nil [])
      rwa [List.append_nil] at spread
  · obtain ⟨used, own, takes, laid⟩ := below short t rest ⟨_, e⟩
    exact ⟨used, own, takes_operand takes, laid⟩
termination_by ls.length

/-! ## Atoms -/

/-- Arguments over the lexemes before the closing parenthesis. -/
theorem arguments_lays {ls : List Lexeme} {acc args : List Tree} {stop : Nat}
    (below : ∀ {ls : List Lexeme}, ls.length < n → Lays expression ContinuesExpression ls)
    (short : ls.length < n) (h : ∃ h, arguments acc ls = .ok (args, stop, ⟨rest, h⟩)) :
    ∃ used close added, ls = used ++ close :: rest ∧ close.stop = stop ∧
      args = acc.reverse ++ added ∧ Spread used added ∧
      ∀ k acc' rest', ∃ h', arguments acc' (used.map (Lexeme.shift k) ++ close.shift k :: rest') =
        .ok (acc'.reverse ++ added.map (shift k), stop + k, ⟨rest', h'⟩) := by
  obtain ⟨t, l, mid, first, ⟨close, rfl, rfl, rfl⟩ | ⟨comma, further⟩⟩ := arguments_iff.1 h
  · obtain ⟨used, rfl, takes, laid⟩ := below short t _ first
    refine ⟨used, l, [t], rfl, rfl, by simp, ?_, fun k acc' rest' => arguments_iff.2 ?_⟩
    · have spread := Spread.cons [] laid.covers takes (.nil [])
      rwa [List.nil_append, List.append_nil] at spread
    · have ends : Ends ContinuesExpression (l.shift k :: rest') := by
        rw [ends_cons, Lexeme.token_shift, close]
        exact not_continues_closeParen
      exact ⟨t.shift k, l.shift k, rest', takes k _ ends, .inl ⟨close, by simp, by simp, rfl⟩⟩
  · obtain ⟨used, rfl, takes, laid⟩ := below short t _ first
    have shorter : mid.length < (used ++ l :: mid).length := by simp; omega
    obtain ⟨used', close, added, rfl, stops, rfl, spread, again⟩ :=
      arguments_lays below (shorter.trans short) further
    refine ⟨used ++ l :: used', close, t :: added, by simp, stops, by simp, ?_,
      fun k acc' rest' => arguments_iff.2 ?_⟩
    · exact .cons [] laid.covers takes (spread.after [l])
    · have ends (more : List Lexeme) : Ends ContinuesExpression (l.shift k :: more) := by
        rw [ends_cons, Lexeme.token_shift, comma]
        exact not_continues_comma
      obtain ⟨shorter, again⟩ := again k (t.shift k :: acc') rest'
      refine ⟨t.shift k, l.shift k, _, ?_, .inr ⟨comma, shorter, ?_⟩⟩
      · rw [List.map_append, List.append_assoc]
        exact takes k _ (ends _)
      · rw [again]
        simp
termination_by ls.length

theorem nameParts_colon {name whole part text text' : String} {start start' stop stop' : Nat}
    (h : ∃ h, nameParts (name ++ ":" ++ part) (start + text.utf8ByteSize) ls =
      .ok (whole, stop', ⟨rest, h⟩)) :
    ∃ h, nameParts name stop (⟨.colon, text', start'⟩ :: ⟨.word part, text, start⟩ :: ls) =
      .ok (whole, stop', ⟨rest, h⟩) := by
  obtain ⟨_, e⟩ := h
  refine ⟨by simp only [List.length_cons]; omega, ?_⟩
  rw [nameParts, e]
  rfl

theorem nameParts_ends {name : String} {stop : Nat} (ends : Ends (· = .colon) ls) :
    nameParts name stop ls = .ok (name, stop, ⟨ls, Nat.le_refl _⟩) := by
  rw [nameParts.eq_def]
  split
  · exact absurd rfl (ends _ rfl)
  · exact absurd rfl (ends _ rfl)
  · rfl

theorem nameParts_takes {name whole : String} {stop stop' : Nat}
    (h : ∃ h, nameParts name stop ls = .ok (whole, stop', ⟨rest, h⟩)) :
    ∃ used, ls = used ++ rest ∧ (∀ l ∈ used.head?, l.token = .colon) ∧
      (used.getLast?.map Lexeme.stop).getD stop = stop' ∧
      ∀ k rest', Ends (· = .colon) rest' → ∃ h,
        nameParts name (stop + k) (used.map (Lexeme.shift k) ++ rest') =
          .ok (whole, stop' + k, ⟨rest', h⟩) := by
  fun_induction nameParts name stop ls with
  | case1 name stop text' start' part text start more ih =>
    obtain ⟨_, e⟩ := h
    obtain ⟨⟨_, _, _, h'⟩, inner, same⟩ := Result.map_eq_ok.1 e
    cases same
    obtain ⟨used, rfl, _, stops, again⟩ := ih ⟨h', inner⟩
    refine ⟨⟨.colon, text', start'⟩ :: ⟨.word part, text, start⟩ :: used, rfl, by simp, ?_, ?_⟩
    · rw [← stops, List.getLast?_cons, List.getLast?_cons]
      cases used.getLast? <;> rfl
    · intro k rest' ends
      have further := again k rest' ends
      rw [Nat.add_right_comm] at further
      exact nameParts_colon further
  | case2 name stop _ _ more noWord =>
    obtain ⟨_, e⟩ := h
    cases unexpected_ne_ok e
  | case3 name stop ls _ noColon =>
    obtain ⟨_, e⟩ := h
    cases e
    exact ⟨[], rfl, by simp, rfl, fun k rest' ends => ⟨_, nameParts_ends ends⟩⟩

/-- A taxon over the lexemes after its first word. -/
theorem taxonAfter_takes {dataSource? : Option String} {first : Lexeme} {name : String} {start : Nat}
    (h : Yields (taxonAfter dataSource? first name start ls) t rest) :
    ∃ used, ls = used ++ rest ∧ (∀ l ∈ used.head?, l.token ∈ [.colon, .question]) ∧
      t.span = ⟨start, (used.getLast?.getD first).stop⟩ ∧ t.children = [] ∧
      ∀ k rest', Ends (· ∈ [.colon, .question]) rest' →
        Yields (taxonAfter dataSource? (first.shift k) name (start + k)
          (used.map (Lexeme.shift k) ++ rest')) (t.shift k) rest' := by
  obtain ⟨h', e⟩ := h
  obtain ⟨⟨whole, stop, mid, hmid⟩, named, same⟩ := Result.map_eq_ok.1 e
  obtain ⟨used, rfl, begins, stops, again⟩ := nameParts_takes ⟨_, named⟩
  dsimp only at same
  split at same
  · rename_i text qStart more hmid'
    cases same
    refine ⟨used ++ [⟨.question, text, qStart⟩], by simp, ?_, ?_, rfl, fun k rest' ends => ?_⟩
    · intro l hl
      cases used with
      | nil =>
        cases hl
        simp
      | cons m used =>
        cases hl
        exact List.mem_cons.2 (.inl (begins _ rfl))
    · rw [List.getLast?_concat]
      rfl
    · obtain ⟨h', named⟩ := again k (⟨.question, text, qStart + k⟩ :: rest') (by simp [ends_cons])
      rw [List.map_append, List.append_assoc, shift, Span.shift, Nat.add_right_comm]
      refine ⟨by simp; omega, ?_⟩
      change taxonAfter _ _ _ _ (_ ++ ⟨.question, text, qStart + k⟩ :: rest') = _
      rw [taxonAfter, Lexeme.stop_shift, named]
      rfl
  · rename_i noQuestion
    cases same
    refine ⟨used, rfl, fun l hl => by simp [begins l hl], by rw [← stops, Option.getD_map]; rfl, rfl,
      fun k rest' ends => ?_⟩
    obtain ⟨h', named⟩ := again k rest' fun l hl h => ends l hl (by simp [h])
    rw [shift]
    refine ⟨h', ?_⟩
    rw [taxonAfter, Lexeme.stop_shift, named]
    refine congrArg Except.ok ?_
    dsimp only
    split
    · exact absurd (by simp) (ends _ rfl)
    · rfl

/-- A tree without children, wherever it stands. -/
structure IsLeaf (make : Span → Tree) : Prop where
  shift : ∀ k s, (make s).shift k = make (s.shift k)
  span : ∀ s, (make s).span = s
  children : ∀ s, (make s).children = []

theorem isLeaf_ofDigits (negative : Bool) (digits : String) : IsLeaf (ofDigits negative digits) := by
  refine ⟨fun k s => shift_ofDigits .., fun s => ?_, fun s => ?_⟩
  · unfold ofDigits
    exact (apply_ite span ..).trans (ite_self _)
  · unfold ofDigits
    exact (apply_ite children ..).trans (ite_self _)

theorem isLeaf_ofDecimal (negative : Bool) (text : String) : IsLeaf (ofDecimal negative text) :=
  ⟨fun _ _ => shift_ofDecimal .., fun _ => rfl, fun _ => rfl⟩

theorem IsLeaf.laid {make : Span → Tree} (leaf : IsLeaf make) {s : Span} (covers : s.Covers used) :
    Laid used (make s) := by
  constructor
  · rwa [leaf.span]
  · rw [leaf.children]
    exact .nil _

/-- One lexeme that is a tree without children. -/
theorem IsLeaf.lays {token : Token} {text : String} {start : Nat} {make : Span → Tree}
    (leaf : IsLeaf make) (read : ∀ text start rest, ∃ h, atom (⟨token, text, start⟩ :: rest) =
      .ok (make ⟨start, start + text.utf8ByteSize⟩, ⟨rest, h⟩)) :
    ∃ used, ⟨token, text, start⟩ :: rest = used ++ rest ∧
      Takes atom ContinuesAtom used (make ⟨start, start + text.utf8ByteSize⟩) ∧
      Laid used (make ⟨start, start + text.utf8ByteSize⟩) := by
  refine ⟨[⟨token, text, start⟩], rfl, fun k rest' _ => ?_, leaf.laid ⟨⟨_, rfl, rfl⟩, ⟨_, rfl, rfl⟩⟩⟩
  rw [leaf.shift, Span.shift, Nat.add_right_comm]
  exact read text (start + k) rest'

/-- A minus and a lexeme that together are a tree without children. -/
theorem IsLeaf.lays_minus {token : Token} {text text' : String} {start n : Nat} {make : Span → Tree}
    (leaf : IsLeaf make) (read : ∀ text text' start n rest, ∃ h,
      atom (⟨.minus, text, start⟩ :: ⟨token, text', n⟩ :: rest) =
        .ok (make ⟨start, n + text'.utf8ByteSize⟩, ⟨rest, h⟩)) :
    ∃ used, ⟨.minus, text, start⟩ :: ⟨token, text', n⟩ :: rest = used ++ rest ∧
      Takes atom ContinuesAtom used (make ⟨start, n + text'.utf8ByteSize⟩) ∧
      Laid used (make ⟨start, n + text'.utf8ByteSize⟩) := by
  refine ⟨[⟨.minus, text, start⟩, ⟨token, text', n⟩], rfl, fun k rest' _ => ?_,
    leaf.laid ⟨⟨_, rfl, rfl⟩, ⟨_, rfl, rfl⟩⟩⟩
  rw [leaf.shift, Span.shift, Nat.add_right_comm]
  exact read text text' (start + k) (n + k) rest'

theorem continues_of_taxon {t : Token} (h : t ∈ [.colon, .question]) : ContinuesAtom t := by
  simp only [List.mem_cons, List.not_mem_nil, or_false] at h
  simp [ContinuesAtom, h]

theorem ownedTaxon_lays {ns name text text' text'' : String} {start start' nameStart : Nat}
    (h : Yields (taxonAfter (some ns) ⟨.word name, text'', nameStart⟩ name start ls) t rest) :
    ∃ used, ⟨.word ns, text, start⟩ :: ⟨.bar, text', start'⟩ ::
        ⟨.word name, text'', nameStart⟩ :: ls = used ++ rest ∧
      Takes atom ContinuesAtom used t ∧ Laid used t := by
  obtain ⟨used, rfl, _, covers, leaf, again⟩ := taxonAfter_takes h
  refine ⟨⟨.word ns, text, start⟩ :: ⟨.bar, text', start'⟩ ::
    ⟨.word name, text'', nameStart⟩ :: used, rfl, fun k rest' ends => ?_, ⟨?_, ?_⟩⟩
  · exact yields_ownedTaxon (again k rest' fun l hl h => ends l hl (continues_of_taxon h))
  · rw [covers]
    exact ⟨⟨_, rfl, rfl⟩, ⟨_, by simp [List.getLast?_cons], rfl⟩⟩
  · rw [leaf]
    exact .nil _

theorem taxon_lays {name text : String} {start : Nat}
    (h : Yields (taxonAfter none ⟨.word name, text, start⟩ name start ls) t rest) :
    ∃ used, ⟨.word name, text, start⟩ :: ls = used ++ rest ∧
      Takes atom ContinuesAtom used t ∧ Laid used t := by
  obtain ⟨used, rfl, begins, covers, leaf, again⟩ := taxonAfter_takes h
  refine ⟨⟨.word name, text, start⟩ :: used, rfl, fun k rest' ends => ?_, ⟨?_, ?_⟩⟩
  · refine yields_taxon (again k rest' fun l hl h => ends l hl (continues_of_taxon h)) ?_
    -- Neither a further part of the name nor what may follow it makes the word something else.
    intro l hl other
    cases used with
    | nil =>
      refine ends l hl ?_
      simp only [List.mem_cons, List.not_mem_nil, or_false] at other
      rcases other with other | other <;> simp [ContinuesAtom, other]
    | cons m used =>
      cases hl
      have first := begins m rfl
      rw [Lexeme.token_shift] at other
      simp only [List.mem_cons, List.not_mem_nil, or_false] at first other
      rcases first with first | first <;> simp [first] at other
  · rw [covers]
    exact ⟨⟨_, rfl, rfl⟩, ⟨_, by simp [List.getLast?_cons], rfl⟩⟩
  · rw [leaf]
    exact .nil _

theorem call_lays
    (below : ∀ {ls : List Lexeme}, ls.length < n → Lays expression ContinuesExpression ls)
    (short : ls.length < n) {name text text' : String} {start start' stop : Nat} {args : List Tree}
    (h : ∃ h, arguments [] ls = .ok (args, stop, ⟨rest, h⟩)) :
    ∃ used, ⟨.word name, text, start⟩ :: ⟨.openParen, text', start'⟩ :: ls = used ++ rest ∧
      Takes atom ContinuesAtom used (.call name args ⟨start, stop⟩) ∧
      Laid used (.call name args ⟨start, stop⟩) := by
  obtain ⟨used, close, added, rfl, stops, rfl, spread, again⟩ := arguments_lays below short h
  refine ⟨⟨.word name, text, start⟩ :: ⟨.openParen, text', start'⟩ :: (used ++ [close]), by simp,
    fun k rest' ends => ?_, ⟨⟨_, rfl, rfl⟩, ⟨close, by simp [List.getLast?_cons], stops⟩⟩, ?_⟩
  · obtain ⟨_, again⟩ := again k [] rest'
    rw [shift, shiftEach_eq, List.map_cons, List.map_cons, List.map_append, List.cons_append,
      List.cons_append, List.append_assoc]
    exact yields_call again
  · exact (spread.before [close]).after [_, _]

theorem paren_lays (below : Lays expression ContinuesExpression ls) {text : String}
    {start stop : Nat} {inner : Tree} {mid : List Lexeme} (h : Yields (expression ls) inner mid)
    (closed : Yields (closing mid) stop rest) :
    ∃ used, ⟨.openParen, text, start⟩ :: ls = used ++ rest ∧
      Takes atom ContinuesAtom used (.paren inner ⟨start, stop⟩) ∧
      Laid used (.paren inner ⟨start, stop⟩) := by
  obtain ⟨close, rfl, isClose, stops⟩ := yields_closing_iff.1 closed
  obtain ⟨used, rfl, takes, laid⟩ := below inner _ h
  refine ⟨⟨.openParen, text, start⟩ :: (used ++ [close]), by simp, fun k rest' _ => ?_,
    ⟨⟨_, rfl, rfl⟩, ⟨close, by simp [List.getLast?_cons], stops⟩⟩,
    .cons [_] laid.covers takes (.nil [close])⟩
  have ends : Ends ContinuesExpression (close.shift k :: rest') := by
    rw [ends_cons, Lexeme.token_shift, isClose]
    exact not_continues_closeParen
  rw [shift, List.map_cons, List.map_append, List.cons_append, List.append_assoc]
  exact yields_paren (takes k _ ends)
    (yields_closing_iff.2 ⟨close.shift k, rfl, isClose, by rw [close.stop_shift, stops]⟩)

theorem atom_lays
    (below : ∀ {ls : List Lexeme}, ls.length < n → Lays expression ContinuesExpression ls)
    (short : ls.length ≤ n) : Lays atom ContinuesAtom ls := by
  intro t rest h
  obtain ⟨h', e⟩ := h
  rw [atom.eq_def] at e
  split at e
  · rename_i name text start text' start' text'' last more
    cases e
    refine ⟨[⟨.word name, text, start⟩, ⟨.openParen, text', start'⟩, ⟨.closeParen, text'', last⟩],
      rfl, fun k rest' _ => ?_, ⟨⟨_, rfl, rfl⟩, ⟨_, rfl, rfl⟩⟩, .nil _⟩
    rw [shift, shiftEach, Span.shift, Nat.add_right_comm]
    exact yields_callEmpty
  · obtain ⟨⟨_, _, _⟩, read, same⟩ := Result.map_eq_ok.1 e
    cases same
    exact call_lays below (Nat.le_of_succ_le short) ⟨_, read⟩
  · obtain ⟨⟨_, _, _⟩, read, same⟩ := Result.map_eq_ok.1 e
    cases same
    exact ownedTaxon_lays ⟨_, read⟩
  · cases unexpected_ne_ok e
  · obtain ⟨⟨_, _, _⟩, read, same⟩ := Result.map_eq_ok.1 e
    cases same
    exact taxon_lays ⟨_, read⟩
  · cases e
    exact IsLeaf.lays ⟨fun _ _ => by rw [shift], fun _ => rfl, fun _ => rfl⟩
      fun _ _ _ => ⟨by simp, by rw [atom]⟩
  · cases e
    exact IsLeaf.lays ⟨fun _ _ => by rw [shift], fun _ => rfl, fun _ => rfl⟩
      fun _ _ _ => ⟨by simp, by rw [atom]⟩
  · cases e
    exact IsLeaf.lays ⟨fun _ _ => by rw [shift], fun _ => rfl, fun _ => rfl⟩
      fun _ _ _ => ⟨by simp, by rw [atom]⟩
  · cases e
    exact (isLeaf_ofDigits false _).lays fun _ _ _ => ⟨by simp, by rw [atom]⟩
  · cases e
    exact (isLeaf_ofDecimal false _).lays fun _ _ _ => ⟨by simp, by rw [atom]⟩
  · cases e
    exact (isLeaf_ofDigits true _).lays_minus
      fun _ _ _ _ _ => ⟨by simp only [List.length_cons]; omega, by rw [atom]⟩
  · cases e
    exact (isLeaf_ofDecimal true _).lays_minus
      fun _ _ _ _ _ => ⟨by simp only [List.length_cons]; omega, by rw [atom]⟩
  · cases unexpected_ne_ok e
  · split at e
    · cases e
    · rename_i inner mid hmid read
      obtain ⟨⟨_, _, _⟩, closed, same⟩ := Result.map_eq_ok.1 e
      cases same
      exact paren_lays (below (Nat.lt_of_succ_le short)) ⟨hmid, read⟩ ⟨_, closed⟩
  · cases unexpected_ne_ok e

/-! ## Every node -/

/-- An expression is laid over what it takes. -/
theorem expression_lays (ls : List Lexeme) : Lays expression ContinuesExpression ls := by
  induction len : ls.length using Nat.strong_induction_on generalizing ls with
  | _ n ih =>
    have below {ks : List Lexeme} (shorter : ks.length < n) : Lays expression ContinuesExpression ks :=
      ih _ shorter ks rfl
    have operands {ks : List Lexeme} (short : ks.length ≤ n) : Lays operand ContinuesAtom ks :=
      operand_lays (atom_lays below) short
    exact expression_lays_of_sum (sum_lays (product_lays operands)) (Nat.le_of_eq len)

/-- Lexemes that are read as an expression are read so as a whole. -/
theorem IsExpression.yields (h : IsExpression used t) : Yields (expression used) t [] := by
  have read := h 0 [] (by simp [Ends])
  have same : used.map (Lexeme.shift 0) = used := List.map_id'' (fun _ => rfl) used
  rwa [same, List.append_nil, shift_zero] at read

theorem IsExpression.laid (h : IsExpression used t) : Laid used t := by
  obtain ⟨whole, rfl, _, laid⟩ := expression_lays used t [] h.yields
  rwa [List.append_nil]

theorem Spread.of_mem {ls : List Lexeme} {ts : List Tree} (h : Spread ls ts) (ht : t ∈ ts) :
    ∃ before part after, ls = before ++ (part ++ after) ∧ IsExpression part t := by
  induction h with
  | nil => cases ht
  | @cons gap part ls c cs _ read _ ih =>
    rcases List.mem_cons.1 ht with rfl | ht
    · exact ⟨gap, part, ls, rfl, read⟩
    · obtain ⟨before, part', after, rfl, read'⟩ := ih ht
      exact ⟨gap ++ (part ++ before), part', after, by simp, read'⟩

/-- Each node is read from a part of the lexemes. -/
theorem IsNode.part {m : Tree} (h : m.IsNode t) (ht : IsExpression used t) :
    ∃ before part after, used = before ++ (part ++ after) ∧ IsExpression part m := by
  induction h generalizing used with
  | root => exact ⟨[], used, [], by simp, ht⟩
  | child hc _ ih =>
    obtain ⟨before, part, after, rfl, read⟩ := ht.laid.children.of_mem hc
    obtain ⟨before', part', after', rfl, read'⟩ := ih read
    exact ⟨before ++ before', part', after' ++ after, by simp, read'⟩

/-- Lexemes that are read as an expression are read alike where their text starts earlier. -/
theorem IsExpression.unshift {k : Nat} (h : IsExpression (used.map (Lexeme.shift k)) t) :
    ∃ m, IsExpression used m ∧ m.shift k = t := by
  have expr := (ofLexemes_eq_ok_iff _ _).1 ⟨t, ofLexemes_eq_ok.2 h.yields, rfl⟩
  rw [List.map_map] at expr
  obtain ⟨m, read, _⟩ := (ofLexemes_eq_ok_iff used _).2 expr
  obtain ⟨whole, own, takes, _⟩ := expression_lays used m [] (ofLexemes_eq_ok.1 read)
  rw [List.append_nil] at own
  subst own
  have shifted := takes k [] (by simp [Ends])
  rw [List.append_nil] at shifted
  exact ⟨m, takes, shifted.unique h.yields⟩

end

end Tree

/-! ## Texts -/

namespace Span

variable {s : Span} {used : List Lexeme}

theorem Covers.bounds (h : s.Covers used) (ordered : used.Pairwise fun l m => l.stop ≤ m.start) :
    s.start ≤ s.stop ∧ ∀ l ∈ used, s.start ≤ l.start ∧ l.stop ≤ s.stop := by
  obtain ⟨first, hfirst, starts⟩ := h.first
  obtain ⟨last, hlast, stops⟩ := h.last
  have own (l : Lexeme) : l.start ≤ l.stop := Nat.le_add_right _ _
  have after : ∀ l ∈ used, s.start ≤ l.start := by
    obtain ⟨more, rfl⟩ := List.head?_eq_some_iff.1 hfirst
    obtain ⟨before, _⟩ := List.pairwise_cons.1 ordered
    refine List.forall_mem_cons.2 ⟨Nat.le_of_eq starts.symm, fun l hl => ?_⟩
    have := before l hl
    have := own first
    omega
  have upto : ∀ l ∈ used, l.stop ≤ s.stop := by
    obtain ⟨more, rfl⟩ := List.getLast?_eq_some_iff.1 hlast
    obtain ⟨_, _, before⟩ := List.pairwise_append.1 ordered
    refine List.forall_mem_append.2 ⟨fun l hl => ?_, fun l hl => ?_⟩
    · have := before l hl last (List.mem_singleton_self _)
      have := own last
      omega
    · cases List.mem_singleton.1 hl
      exact Nat.le_of_eq stops
  refine ⟨?_, fun l hl => ⟨after l hl, upto l hl⟩⟩
  have mem : last ∈ used := List.mem_of_getLast? hlast
  exact (after last mem).trans ((own last).trans (upto last mem))

end Span

namespace Tree

theorem Spread.inOrder {ls : List Lexeme} {ts : List Tree} (h : Spread ls ts) {start stop : Nat}
    (ordered : ls.Pairwise fun l m => l.stop ≤ m.start) (le : start ≤ stop)
    (within : ∀ l ∈ ls, start ≤ l.start ∧ l.stop ≤ stop) :
    Span.InOrder start stop (ts.map span) := by
  induction h generalizing start with
  | nil => exact le
  | @cons gap part ls t ts covers _ _ ih =>
    obtain ⟨_, ordered, _⟩ := List.pairwise_append.1 ordered
    obtain ⟨inner, further, apart⟩ := List.pairwise_append.1 ordered
    obtain ⟨proper, _⟩ := covers.bounds inner
    obtain ⟨first, hfirst, starts⟩ := covers.first
    obtain ⟨last, hlast, stops⟩ := covers.last
    have hfirst : first ∈ part := List.mem_of_mem_head? hfirst
    have hlast : last ∈ part := List.mem_of_mem_getLast? hlast
    refine ⟨?_, proper, ih further ?_ fun l hl => ⟨?_, ?_⟩⟩
    · rw [← starts]
      exact (within first (by simp [hfirst])).1
    · rw [← stops]
      exact (within last (by simp [hlast])).2
    · rw [← stops]
      exact apart last hlast l hl
    · exact (within l (by simp [hl])).2

/-- Whether a node covers a part of a text, on boundaries of characters, with the spans of its children
within its own, one after another, and that part alone is read as the node. -/
structure StandsIn (n : Tree) (text : String) : Prop where
  children : Span.InOrder n.span.start n.span.stop (n.children.map span)
  part : ∃ before part after, text = before ++ part ++ after ∧
    before.utf8ByteSize = n.span.start ∧ (before ++ part).utf8ByteSize = n.span.stop ∧
    ∃ m, parse part = .ok m ∧ m.shift n.span.start = n

/-- The text of lexemes that are read as an expression. -/
theorem IsExpression.standsIn {cs : List Char} {before part after : List Lexeme} {n : Tree}
    (lexed : Lexeme.lex 0 cs = .ok (before ++ (part ++ after))) (h : IsExpression part n) :
    n.StandsIn (String.ofList cs) := by
  obtain ⟨covers, children⟩ := h.laid
  have ordered : part.Pairwise fun l m => l.stop ≤ m.start := by
    obtain ⟨_, within, _⟩ := List.pairwise_append.1 (Lexeme.lex_pairwise lexed).2
    exact (List.pairwise_append.1 within).1
  obtain ⟨proper, bounds⟩ := covers.bounds ordered
  refine ⟨children.inOrder ordered proper bounds, ?_⟩
  obtain ⟨first, hfirst, starts⟩ := covers.first
  obtain ⟨last, hlast, stops⟩ := covers.last
  obtain ⟨front, back, rfl, begins, lexed⟩ :=
    Lexeme.lex_suffix lexed (l := first) (by simp [Option.mem_def.1 hfirst])
  obtain ⟨own, rest, rfl, lexed, ends⟩ := Lexeme.lex_prefix lexed
  rw [Nat.zero_add] at begins
  rw [Option.mem_def.1 hlast, Option.map_some, Option.getD_some] at ends
  have size : byteLength front = n.span.start := begins.symm.trans starts
  refine ⟨String.ofList front, String.ofList own, String.ofList rest, ?_, size, ?_, ?_⟩
  · rw [← String.ofList_append, ← String.ofList_append, List.append_assoc]
  · rw [String.utf8ByteSize_append, ← stops, ends, begins]
    rfl
  · obtain ⟨ls, alone, _⟩ := Lexeme.lex_of_splits (Lexeme.splits_of_lex lexed) 0
    have shifted := Lexeme.lex_shift first.start alone
    rw [Nat.zero_add, lexed] at shifted
    rw [Except.ok.inj shifted] at h
    obtain ⟨m, whole, same⟩ := h.unshift
    refine ⟨m, parse_eq_ok.2 (read_eq_ok.2 ⟨ls, ?_, whole.yields⟩), starts ▸ same⟩
    rwa [String.toList_ofList]

end Tree

/-- Each node of a formula stands in its text: it covers a part of it, where its children follow one
another, and that part read alone is the node with its spans counted from there. -/
theorem parse_nodes_standIn {text : String} {t n : Tree} (h : parse text = .ok t) (hn : n.IsNode t) :
    n.StandsIn text := by
  obtain ⟨ls, lexed, read⟩ := Tree.read_eq_ok.1 (parse_eq_ok.1 h)
  obtain ⟨used, own, takes, _⟩ := Tree.expression_lays ls t [] read
  rw [List.append_nil] at own
  subst own
  obtain ⟨before, part, after, rfl, standing⟩ := hn.part takes
  have stands := standing.standsIn lexed
  rwa [String.ofList_toList] at stands

/-- A text with a character of two bytes before the node. -/
theorem parse_nodes_standIn_not :
    ∃ n t : Tree, parse "'é' = NOT a" = .ok t ∧ n.IsNode t ∧ n.span = ⟨7, 12⟩ ∧
      n.StandsIn "'é' = NOT a" := by
  obtain ⟨t, read, second⟩ : ∃ t, parse "'é' = NOT a" = .ok t ∧ _ :=
    Result.ok_of_any (f := fun t => t.children.any fun n => n.span = ⟨7, 12⟩) (by decide +kernel)
  obtain ⟨n, hn, span⟩ := List.any_eq_true.1 second
  have node : n.IsNode t := .child hn .root
  exact ⟨n, t, read, node, of_decide_eq_true span, parse_nodes_standIn read node⟩

end SemanticLayer.Formula
