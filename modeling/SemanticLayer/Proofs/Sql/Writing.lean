import Mathlib.Data.List.Forall2
import SemanticLayer.Proofs.Sql.ReadingBack

/-!
# Expressions as phrases

Each expression is a phrase, once as its tree has it and once with the parentheses it is written
with.

* `Expr.parts`: what stands directly in an expression, with induction over it;
* `Dialect.callPhrase`: the phrase of a dialect's call, whose text `Dialect.dialectCall` splices;
* `Expr.tree`, `Expr.written`: the phrase of the tree and the written one;
* `Phrase.Same`: one lemma for each way to build a phrase;
* `Expr.same_phrase`: the tree and the written phrase say the same.
-/

namespace SemanticLayer.Sql

/-! ## Parts of an expression -/

namespace Expr

/-- The expressions that stand directly in another. -/
def parts : Expr → List Expr
  | .binary l _ r => [l, r]
  | .unary _ e => [e]
  | .call _ args _ => args
  | .dialectCall _ args => args
  | .case operand? branches otherwise? =>
    operand?.toList ++ branches.flatMap (fun b => [b.1, b.2]) ++ otherwise?.toList
  | .cast e _ => [e]
  | .extract _ e => [e]
  | .inList e vs _ => e :: vs
  | .isNull e _ => [e]
  | .like e p .. => [e, p]
  | .paren e => [e]
  | .window f ps os _ => f :: (ps ++ os.map (·.key))
  | .list es => es
  | _ => []

theorem sizeOf_lt_of_mem_parts {x e : Expr} (h : x ∈ e.parts) : sizeOf x < sizeOf e := by
  cases e with
  | call n args distinct =>
    have : sizeOf x < sizeOf args := List.sizeOf_lt_of_mem h
    simp only [call.sizeOf_spec]
    omega
  | dialectCall f args =>
    have : sizeOf x < sizeOf args := List.sizeOf_lt_of_mem h
    simp only [dialectCall.sizeOf_spec]
    omega
  | list es =>
    have : sizeOf x < sizeOf es := List.sizeOf_lt_of_mem h
    simp only [list.sizeOf_spec]
    omega
  | case operand? branches otherwise? =>
    simp only [parts, List.mem_append, Option.mem_toList, List.mem_flatMap, List.mem_cons,
      List.not_mem_nil, or_false] at h
    simp only [case.sizeOf_spec]
    rcases h with (rfl | ⟨⟨w, t⟩, hb, rfl | rfl⟩) | rfl
    · simp only [Option.some.sizeOf_spec]
      omega
    · have := List.sizeOf_lt_of_mem hb
      simp only [Prod.mk.sizeOf_spec] at this
      omega
    · have := List.sizeOf_lt_of_mem hb
      simp only [Prod.mk.sizeOf_spec] at this
      omega
    · simp only [Option.some.sizeOf_spec]
      omega
  | inList e vs negated =>
    simp only [parts, List.mem_cons] at h
    simp only [inList.sizeOf_spec]
    rcases h with rfl | h
    · omega
    · have := List.sizeOf_lt_of_mem h
      omega
  | window f ps os frame? =>
    simp only [parts, List.mem_cons, List.mem_append, List.mem_map] at h
    simp only [window.sizeOf_spec]
    rcases h with rfl | h | ⟨⟨k, d, n⟩, ho, rfl⟩
    · omega
    · have := List.sizeOf_lt_of_mem h
      omega
    · have := List.sizeOf_lt_of_mem ho
      simp only [Ordered.mk.sizeOf_spec] at this ⊢
      omega
  | binary l op r =>
    simp only [parts, List.mem_cons, List.not_mem_nil, or_false] at h
    simp only [binary.sizeOf_spec]
    rcases h with rfl | rfl <;> omega
  | like e p c negated ignoreCase =>
    simp only [parts, List.mem_cons, List.not_mem_nil, or_false] at h
    simp only [like.sizeOf_spec]
    rcases h with rfl | rfl <;> omega
  | unary op e =>
    rw [List.mem_singleton.mp h]
    simp only [unary.sizeOf_spec]
    omega
  | cast e t =>
    rw [List.mem_singleton.mp h]
    simp only [cast.sizeOf_spec]
    omega
  | extract f e =>
    rw [List.mem_singleton.mp h]
    simp only [extract.sizeOf_spec]
    omega
  | isNull e negated =>
    rw [List.mem_singleton.mp h]
    simp only [isNull.sizeOf_spec]
    omega
  | paren e =>
    rw [List.mem_singleton.mp h]
    simp only [paren.sizeOf_spec]
    omega
  | _ => cases h

/-- What holds of an expression if it holds of all that stands directly in it holds of all. -/
@[elab_as_elim]
theorem parts_induction {motive : Expr → Prop}
    (step : ∀ e, (∀ x ∈ e.parts, motive x) → motive e) (e : Expr) : motive e :=
  step e fun x _ => parts_induction step x
termination_by sizeOf e
decreasing_by exact sizeOf_lt_of_mem_parts ‹_›

end Expr

/-! ## Phrases of calls -/

namespace Phrase

def groupIf (needed : Bool) (p : Phrase) : Phrase := if needed then p.group else p

/-- Phrases between commas. -/
def commas : List Phrase → Phrase
  | [] => .empty
  | [p] => p
  | p :: q :: rest => .joined p (.separator .comma) (commas (q :: rest))

def call (name : String) (args : List Phrase) : Phrase :=
  .bracketed (.atom (.raw name)) .paren (commas args)

end Phrase

namespace Dialect

def snowflakePhrase : DialectFunction → List Phrase → Phrase
  | .convertTimezone, [value, source, target] => .call "CONVERT_TIMEZONE" [source, target, value]
  | .convertTimezone, [value, source] => .call "CONVERT_TIMEZONE" [source, value]
  | .convertTimezone, args => .call "CONVERT_TIMEZONE" args
  | .splitPart, args => .call "SPLIT_PART" args
  | .dateTrunc, args => .call "DATE_TRUNC" args
  | .toDate, args => .call "TO_DATE" args
  | .timestampDiff, args => .call "TIMESTAMPDIFF" args

def bigQueryPhrase (unit : String) : DialectFunction → List Phrase → Phrase
  | .convertTimezone, [value, source, target] =>
    .call "DATETIME" [.call "DATETIME" [value, source], target]
  | .convertTimezone, [value, source] => .call "DATETIME" [value, source]
  | .convertTimezone, args => .call "DATETIME" args
  | .splitPart, [value, delimiter, position] =>
    .bracketed (.call "SPLIT" [value, delimiter]) .index (.call "SAFE_ORDINAL" [position])
  | .splitPart, args => .call "SPLIT" args
  | .dateTrunc, [_, value] => .call "DATETIME_TRUNC" [value, .atom (.raw (unquoted unit))]
  | .dateTrunc, args => .call "DATETIME_TRUNC" args
  | .toDate, [value, format] => .call "PARSE_DATE" [format, value]
  | .toDate, [value] =>
    .bracketed (.atom (.keyword .cast)) .paren
      (.joined value (.separator .asName) (.atom (.raw "DATE")))
  | .toDate, args => .call "PARSE_DATE" args
  | .timestampDiff, [unit, start, stop] => .call "DATETIME_DIFF" [stop, start, unit]
  | .timestampDiff, args => .call "DATETIME_DIFF" args

def postgresPhrase (unit : String) : DialectFunction → List Phrase → Phrase
  | .convertTimezone, [value, source, target] =>
    .group (.joined (.group (.joined value .atTimeZone source)) .atTimeZone target)
  | .convertTimezone, [value, source] => .group (.joined value .atTimeZone source)
  | .convertTimezone, args => .call "TIMEZONE" args
  | .timestampDiff, [_, start, stop] =>
    .bracketed (.atom (.keyword .extract)) .paren
      (.joined (.atom (.raw (bareUnit unit))) (.separator .fromTable)
        (.group (.joined stop (.binary .sub) start)))
  | .timestampDiff, args => .call "AGE" args
  | f, args => snowflakePhrase f args

def mySqlPhrase (unit : String) : DialectFunction → List Phrase → Phrase
  | .convertTimezone, [value, source, target] => .call "CONVERT_TZ" [value, source, target]
  | .convertTimezone, [value, source] =>
    .call "CONVERT_TZ" [value, source, .atom (.raw "'UTC'")]
  | .convertTimezone, args => .call "CONVERT_TZ" args
  | .splitPart, [value, delimiter, position] =>
    .call "SUBSTRING_INDEX"
      [.call "SUBSTRING_INDEX" [value, delimiter, position], delimiter, .atom (.raw "-1")]
  | .splitPart, args => .call "SUBSTRING_INDEX" args
  | .toDate, [value, format] => .call "STR_TO_DATE" [value, format]
  | .toDate, [value] => .call "DATE" [value]
  | .toDate, args => .call "STR_TO_DATE" args
  | .timestampDiff, [_, start, stop] =>
    .call "TIMESTAMPDIFF" [.atom (.raw (bareUnit unit)), start, stop]
  | .timestampDiff, args => .call "TIMESTAMPDIFF" args
  | .dateTrunc, args => snowflakePhrase .dateTrunc args

/-- The phrase of a dialect function from the phrases of its arguments.  A time unit becomes a bare
word, made from its text. -/
def callPhrase (d : Dialect) (unit : String) (f : DialectFunction) (args : List Phrase) : Phrase :=
  match d with
  | .snowflake => snowflakePhrase f args
  | .bigQuery => bigQueryPhrase unit f args
  | .postgres => postgresPhrase unit f args
  | .mySql => mySqlPhrase unit f args

end Dialect

/-! ## Phrases of expressions -/

namespace Phrase

/-- A key of an ordering. -/
def ordered (d : Dialect) (key : Phrase) (direction? : Option SortDirection)
    (nulls? : Option NullsPlacement) : Phrase :=
  let directed :=
    match direction? with
    | some dir => joined key (.separator (.direction dir)) .empty
    | none => key
  match nulls? with
  | some n => if d.ordersNulls then joined directed (.separator (.nulls n)) .empty else directed
  | none => directed

/-- The items of a clause after what stands before it, nothing where there are none. -/
def clause (before : Phrase) (s : Separator) (items : List Phrase) : Phrase :=
  if items.isEmpty then before else .joined before (.separator s) (commas items)

/-- The parts of a window between its parentheses. -/
def windowParts (partition order : List Phrase) (frame? : Option Frame) : Phrase :=
  let clauses := clause (clause .empty .partitionBy partition) .orderBy order
  match frame? with
  | some f => .joined clauses (.separator (.frame f)) .empty
  | none => clauses

end Phrase

namespace Expr

mutual

/-- The phrase of an expression, with or without the parentheses that are added where it is
written.  An empty list is an empty text. -/
def phrase (parens : Bool) (d : Dialect) : Expr → Phrase
  | .column t n => .atom (.column t n)
  | .literal l => .atom (.literal l)
  | .binary l op r =>
    .joined (.groupIf (parens && needsParens l op false) (l.phrase parens d)) (.binary op)
      (.groupIf (parens && needsParens r op true) (r.phrase parens d))
  | .unary op e => .prefixed op (.groupIf (parens && e.isBinary) (e.phrase parens d))
  | .call n args distinct =>
    .bracketed (.atom (.function n)) .paren
      (if distinct then .joined .empty (.separator .distinct) (.commas (phraseEach parens d args))
        else .commas (phraseEach parens d args))
  | .dialectCall f args =>
    d.callPhrase (((tokensEach d args).map (TokenStream.text d)).headD "") f
      (phraseEach parens d args)
  | .case operand? branches otherwise? =>
    .bracketed .empty .case
      (elsePhrase parens d (branchPhrase parens d (operandPhrase parens d operand?) branches)
        otherwise?)
  | .cast e t =>
    .bracketed (.atom (.keyword .cast)) .paren
      (.joined (e.phrase parens d) (.separator .asName) (.atom (.raw (d.castType t))))
  | .extract f e =>
    .bracketed (.atom (.keyword .extract)) .paren
      (.joined (.atom (.raw f)) (.separator .fromTable) (e.phrase parens d))
  | .inList e vs negated =>
    if vs.isEmpty then .atom (.keyword (if negated then .always else .never))
    else
      .joined (e.phrase parens d) (.inValues negated) (.group (.commas (phraseEach parens d vs)))
  | .isNull e negated => .tested (.groupIf (parens && e.isBinary) (e.phrase parens d)) negated
  | .like e p c negated ignoreCase =>
    .joined (.joined (e.phrase parens d) (.like negated ignoreCase) (p.phrase parens d)) .escape
      (.atom (.literal (.string (String.ofList [c]))))
  | .paren e => .group (e.phrase parens d)
  | .window f ps os frame? =>
    .joined (f.phrase parens d) .over
      (.group (.windowParts (phraseEach parens d ps) (orderPhrases parens d os) frame?))
  | .list es =>
    if es.isEmpty then .atom (.raw "") else .commas (phraseEach parens d es)
  | .placeholder n => .atom (.raw ("$\x7b" ++ n ++ "\x7d"))
  | .raw s => .atom (.raw s)

def phraseEach (parens : Bool) (d : Dialect) : List Expr → List Phrase
  | [] => []
  | e :: es => e.phrase parens d :: phraseEach parens d es

def operandPhrase (parens : Bool) (d : Dialect) : Option Expr → Phrase
  | none => .empty
  | some e => e.phrase parens d

/-- The branches of a `CASE` after what stands before them. -/
def branchPhrase (parens : Bool) (d : Dialect) (before : Phrase) : List (Expr × Expr) → Phrase
  | [] => before
  | (w, t) :: bs =>
    branchPhrase parens d
      (.joined (.joined before (.separator .whenCase) (w.phrase parens d)) (.separator .thenValue)
        (t.phrase parens d)) bs

def elsePhrase (parens : Bool) (d : Dialect) (before : Phrase) : Option Expr → Phrase
  | none => before
  | some e => .joined before (.separator .elseValue) (e.phrase parens d)

def orderPhrases (parens : Bool) (d : Dialect) : List (Ordered Expr) → List Phrase
  | [] => []
  | ⟨e, direction?, nulls?⟩ :: os =>
    .ordered d (e.phrase parens d) direction? nulls? :: orderPhrases parens d os

end

/-- The phrase of the tree, with no parentheses but its own. -/
abbrev tree (e : Expr) (d : Dialect) : Phrase := e.phrase false d

/-- The phrase with the parentheses that the operators need. -/
abbrev written (e : Expr) (d : Dialect) : Phrase := e.phrase true d

/-- The words and blanks of the expression's SQL. -/
def spelling (e : Expr) (d : Dialect) : Spelling := (e.written d).spelling

theorem phraseEach_eq (parens : Bool) (d : Dialect) (es : List Expr) :
    phraseEach parens d es = es.map (·.phrase parens d) := by
  induction es with
  | nil => rw [phraseEach, List.map_nil]
  | cons e es ih => rw [phraseEach, ih, List.map_cons]

theorem orderPhrases_eq (parens : Bool) (d : Dialect) (os : List (Ordered Expr)) :
    orderPhrases parens d os =
      os.map fun o => .ordered d (o.key.phrase parens d) o.direction? o.nulls? := by
  induction os with
  | nil => rw [orderPhrases, List.map_nil]
  | cons o os ih => rw [orderPhrases, ih, List.map_cons]

theorem tokensEach_eq (d : Dialect) (es : List Expr) :
    tokensEach d es = es.map (·.tokens d) := by
  induction es with
  | nil => rw [tokensEach, List.map_nil]
  | cons e es ih => rw [tokensEach, ih, List.map_cons]

theorem orderTokens_eq (d : Dialect) (os : List (Ordered Expr)) :
    orderTokens d os = os.map fun o => o.key.tokens d ++ orderSuffix d o.direction? o.nulls? := by
  induction os with
  | nil => rw [orderTokens, List.map_nil]
  | cons o os ih => rw [orderTokens, ih, List.map_cons]

end Expr

/-! ## What the written phrase says -/

namespace Phrase

namespace Same

theorem refl (p : Phrase) : p.Same p := rfl

theorem prefixed (op : UnaryOperator) (h : p.Same q) :
    (Phrase.prefixed op p).Same (.prefixed op q) := congrArg (Phrase.prefixed op) h

theorem tested (h : p.Same q) (negated : Bool) :
    (Phrase.tested p negated).Same (.tested q negated) := congrArg (Phrase.tested · negated) h

variable {l l' r r' p q : Phrase} {ps qs : List Phrase}

theorem joined (hl : l.Same l') (j : Joint) (hr : r.Same r') :
    (Phrase.joined l j r).Same (.joined l' j r') := congrArg₂ (fun x y => attach x j y) hl hr

theorem bracketed (hl : l.Same l') (b : Bracket) (hr : r.Same r') :
    (Phrase.bracketed l b r).Same (.bracketed l' b r') := congrArg₂ (fun x y => enclose x b y) hl hr

theorem group (h : p.Same q) : p.group.Same q.group := bracketed (.refl _) .paren h

theorem commas (h : List.Forall₂ Same ps qs) : (Phrase.commas ps).Same (.commas qs) := by
  induction h with
  | nil => rfl
  | cons hp rest ih =>
    cases rest with
    | nil => exact hp
    | cons _ _ => exact joined hp _ ih

theorem call (name : String) (h : List.Forall₂ Same ps qs) :
    (Phrase.call name ps).Same (.call name qs) := bracketed (.refl _) _ (commas h)

theorem ordered (d : Dialect) (h : p.Same q) (direction? : Option SortDirection)
    (nulls? : Option NullsPlacement) :
    (Phrase.ordered d p direction? nulls?).Same (.ordered d q direction? nulls?) := by
  unfold Phrase.ordered
  cases direction? <;> cases nulls? <;> cases d <;>
    first
    | exact h
    | exact joined h _ (.refl _)
    | exact joined (joined h _ (.refl _)) _ (.refl _)

theorem clause (hp : p.Same q) (s : Separator) (h : List.Forall₂ Same ps qs) :
    (Phrase.clause p s ps).Same (.clause q s qs) := by
  cases h with
  | nil => exact hp
  | cons first rest => exact joined hp _ (commas (.cons first rest))

theorem windowParts {ks ls : List Phrase} (hp : List.Forall₂ Same ps qs)
    (ho : List.Forall₂ Same ks ls) (frame? : Option Frame) :
    (Phrase.windowParts ps ks frame?).Same (.windowParts qs ls frame?) := by
  have clauses := clause (clause (.refl .empty) .partitionBy hp) .orderBy ho
  cases frame? with
  | none => exact clauses
  | some f => exact joined clauses _ (.refl _)

theorem callPhrase (d : Dialect) (unit : String) (f : DialectFunction)
    (h : List.Forall₂ Same ps qs) :
    (d.callPhrase unit f ps).Same (d.callPhrase unit f qs) := by
  have whole := h
  rcases h with _ | ⟨h₁, _ | ⟨h₂, _ | ⟨h₃, _ | ⟨h₄, h⟩⟩⟩⟩
  · cases d <;> cases f <;> exact call _ whole
  · cases d <;> cases f <;>
      first
      | exact call _ whole
      | exact bracketed (.refl _) _ (joined h₁ _ (.refl _))
  · have swapped := List.Forall₂.cons h₂ (.cons h₁ .nil)
    cases d <;> cases f <;>
      first
      | exact call _ whole
      | exact call _ swapped
      | exact call _ (.cons h₂ (.cons (.refl _) .nil))
      | exact call _ (.cons h₁ (.cons h₂ (.cons (.refl _) .nil)))
      | exact group (joined h₁ _ h₂)
  · have first₂ := List.Forall₂.cons h₁ (.cons h₂ .nil)
    cases d <;> cases f <;>
      first
      | exact call _ whole
      | exact call _ (.cons h₂ (.cons h₃ (.cons h₁ .nil)))
      | exact call _ (.cons h₃ (.cons h₂ (.cons h₁ .nil)))
      | exact call _ (.cons (call _ first₂) (.cons h₃ .nil))
      | exact bracketed (call _ first₂) _ (call _ (.cons h₃ .nil))
      | exact group (joined (group (joined h₁ _ h₂)) _ h₃)
      | exact bracketed (.refl _) _ (joined (.refl _) _ (group (joined h₃ _ h₂)))
      | exact call _ (.cons (call _ whole) (.cons h₂ (.cons (.refl _) .nil)))
      | exact call _ (.cons (.refl _) (.cons h₂ (.cons h₃ .nil)))
  · cases d <;> cases f <;> exact call _ whole

/-- Parentheses around an expression, and not around a list, say nothing. -/
theorem groupIf {needed : Bool} (single : needed = true → p.isSingle = true) (h : p.Same q) :
    (Phrase.groupIf needed p).Same q := by
  cases needed with
  | false => exact h
  | true =>
    refine Eq.trans (if_pos ?_) h
    rw [isSingle_normal, single rfl]

end Same

end Phrase

namespace Expr

/-- Where parentheses are added, there is no list. -/
theorem isSingle_phrase_of_isBinary {e : Expr} {parens : Bool} (d : Dialect)
    (h : (parens && e.isBinary) = true) : (e.phrase parens d).isSingle = true := by
  cases e with
  | binary l op r => rw [phrase, Phrase.isSingle] <;> simp
  | _ => simp [isBinary] at h

theorem isSingle_phrase_of_needsParens {e : Expr} {op : BinaryOperator} {onRight parens : Bool}
    (d : Dialect) (h : (parens && needsParens e op onRight) = true) :
    (e.phrase parens d).isSingle = true := by
  cases e with
  | binary l op r => rw [phrase, Phrase.isSingle] <;> simp
  | isNull e negated => rw [phrase, Phrase.isSingle] <;> simp
  | like e p c negated ignoreCase => rw [phrase, Phrase.isSingle] <;> simp
  | inList e vs negated =>
    rw [phrase]
    split <;> rfl
  | _ => simp [needsParens] at h

theorem mem_parts_case {operand? otherwise? : Option Expr} {branches : List (Expr × Expr)}
    {b : Expr × Expr} (h : b ∈ branches) :
    b.1 ∈ (case operand? branches otherwise?).parts ∧
      b.2 ∈ (case operand? branches otherwise?).parts := by
  have within : ∀ x ∈ [b.1, b.2], x ∈ (case operand? branches otherwise?).parts := fun x hx =>
    List.mem_append_left _ (List.mem_append_right _ (List.mem_flatMap.mpr ⟨b, h, hx⟩))
  exact ⟨within _ (by simp), within _ (by simp)⟩

theorem same_branchPhrase {p q : Phrase} {parens : Bool} {d : Dialect}
    {branches : List (Expr × Expr)} (before : p.Same q)
    (h : ∀ b ∈ branches, (b.1.phrase parens d).Same (b.1.tree d) ∧
      (b.2.phrase parens d).Same (b.2.tree d)) :
    (branchPhrase parens d p branches).Same (branchPhrase false d q branches) := by
  induction branches generalizing p q with
  | nil => exact before
  | cons b bs ih =>
    obtain ⟨first, rest⟩ := List.forall_mem_cons.mp h
    exact ih (.joined (.joined before _ first.1) _ first.2) rest

/-- The parentheses that are added change nothing that the phrase says. -/
theorem same_phrase (parens : Bool) (d : Dialect) (e : Expr) :
    (e.phrase parens d).Same (e.tree d) := by
  have each : ∀ es : List Expr, (∀ x ∈ es, (x.phrase parens d).Same (x.tree d)) →
      List.Forall₂ Phrase.Same (phraseEach parens d es) (phraseEach false d es) := by
    intro es ih
    rw [phraseEach_eq, phraseEach_eq, List.forall₂_map_left_iff, List.forall₂_map_right_iff,
      List.forall₂_same]
    exact ih
  induction e using parts_induction with
  | step e ih =>
    cases e with
    | column t n => exact .refl _
    | literal l => exact .refl _
    | placeholder n => exact .refl _
    | raw s => exact .refl _
    | binary l op r =>
      exact .joined (.groupIf (isSingle_phrase_of_needsParens d) (ih l (by simp [parts]))) _
        (.groupIf (isSingle_phrase_of_needsParens d) (ih r (by simp [parts])))
    | unary op e =>
      exact .prefixed op (.groupIf (isSingle_phrase_of_isBinary d) (ih e (by simp [parts])))
    | call n args distinct =>
      have args := Phrase.Same.commas (each args ih)
      cases distinct with
      | false => exact .bracketed (.refl _) _ args
      | true => exact .bracketed (.refl _) _ (.joined (.refl _) _ args)
    | dialectCall f args => exact .callPhrase _ _ _ (each args ih)
    | case operand? branches otherwise? =>
      have operand : (operandPhrase parens d operand?).Same (operandPhrase false d operand?) := by
        cases operand? with
        | none => exact .refl _
        | some e => exact ih e (by simp [parts])
      have branches := same_branchPhrase operand fun b hb =>
        ⟨ih b.1 (mem_parts_case hb).1, ih b.2 (mem_parts_case hb).2⟩
      refine .bracketed (.refl _) _ ?_
      cases otherwise? with
      | none => exact branches
      | some e => exact .joined branches _ (ih e (by simp [parts]))
    | cast e t => exact .bracketed (.refl _) _ (.joined (ih e (by simp [parts])) _ (.refl _))
    | extract f e => exact .bracketed (.refl _) _ (.joined (.refl _) _ (ih e (by simp [parts])))
    | inList e vs negated =>
      cases vs with
      | nil => exact .refl _
      | cons v vs =>
        have values := each (v :: vs) fun x hx => ih x (List.mem_cons_of_mem _ hx)
        exact .joined (ih e (by simp [parts])) _ (.group (.commas values))
    | isNull e negated =>
      exact .tested (.groupIf (isSingle_phrase_of_isBinary d) (ih e (by simp [parts]))) negated
    | like e p c negated ignoreCase =>
      exact .joined (.joined (ih e (by simp [parts])) _ (ih p (by simp [parts]))) _ (.refl _)
    | paren e => exact .group (ih e (by simp [parts]))
    | window f ps os frame? =>
      have keys :
          List.Forall₂ Phrase.Same (orderPhrases parens d os) (orderPhrases false d os) := by
        rw [orderPhrases_eq, orderPhrases_eq, List.forall₂_map_left_iff,
          List.forall₂_map_right_iff, List.forall₂_same]
        intro o ho
        exact .ordered d (ih o.key (by simp [parts]; exact .inr (.inr ⟨o, ho, rfl⟩))) _ _
      have partition := each ps fun x hx => ih x (by simp [parts, hx])
      exact .joined (ih f (by simp [parts])) _ (.group (.windowParts partition keys frame?))
    | list es =>
      cases es with
      | nil => exact .refl _
      | cons e es => exact .commas (each (e :: es) ih)

end Expr

end SemanticLayer.Sql
