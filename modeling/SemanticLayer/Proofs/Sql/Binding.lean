import Mathlib.Tactic.Tauto
import SemanticLayer.Proofs.Sql.Spelling

/-!
# Operands that bind

When the operands of an expression, as they are written, are what its operators take.

* `Expr.lead`, `Expr.tail`: what an operator before or after the written expression has to be weaker
  than;
* `Expr.Binds`: the operators of one expression take its operands as a whole;
* `Expr.fits_written_iff`: the written phrase fits exactly if this holds everywhere in the
  expression.
-/

namespace SemanticLayer.Sql

namespace Expr

/-- An operator before the written expression takes all of it as its operand if it is weaker than
this. -/
def lead : Expr → Nat
  | .binary l op _ => Min.min op.precedence (if needsParens l op false then 10 else l.lead)
  | .isNull e _ => Min.min 4 (if e.isBinary then 10 else e.lead)
  | .inList e vs _ => if vs.isEmpty then 10 else Min.min 4 e.lead
  | .like e .. => Min.min 4 e.lead
  | .window f .. => Min.min 9 f.lead
  | .list [e] => e.lead
  | .list (_ :: _ :: _) => 0
  | _ => 10

/-- An operator after the written expression takes all of it as its operand if it is no stronger
than this. -/
def tail : Expr → Nat
  | .binary _ op r => Min.min op.precedence (if needsParens r op true then 10 else r.tail)
  | .unary op e => Min.min op.precedence (if e.isBinary then 10 else e.tail)
  | .inList _ vs _ => if vs.isEmpty then 10 else 4
  | .like .. => 4
  | .window .. => 9
  | .list [e] => e.tail
  | .list (_ :: _ :: _) => 0
  | _ => 10

/-- `lead` of where a chain of the operator begins, as it is written. -/
def chainLead (op : BinaryOperator) : Expr → Nat
  | .binary l op' r =>
    if (Joint.binary op).chains (.binary op') then
      if needsParens l op' false then 10 else l.chainLead op
    else (Expr.binary l op' r).lead
  | .list [e] => e.chainLead op
  | e => e.lead

end Expr

/-- The arguments that a dialect writes as expressions: a time unit may become a bare word. -/
def Dialect.writtenArguments (d : Dialect) (f : DialectFunction) (args : List Expr) : List Expr :=
  match d, f, args with
  | .bigQuery, .dateTrunc, [_, value] => [value]
  | .postgres, .timestampDiff, [_, start, stop] => [start, stop]
  | .mySql, .timestampDiff, [_, start, stop] => [start, stop]
  | _, _, args => args

/-- Whether the operators that a dialect writes between arguments take them as a whole. -/
def Dialect.BindsArguments (d : Dialect) (f : DialectFunction) (args : List Expr) : Prop :=
  match d, f, args with
  | .postgres, .convertTimezone, [value, source] => 7 ≤ value.tail ∧ 7 < source.lead
  | .postgres, .convertTimezone, [value, source, target] =>
    7 ≤ value.tail ∧ 7 < source.lead ∧ 7 < target.lead
  | .postgres, .timestampDiff, [_, start, stop] => 5 ≤ stop.tail ∧ 5 < start.lead
  | _, _, _ => True

namespace Expr

/-- What stands directly in an expression where it is written. -/
def operands (d : Dialect) : Expr → List Expr
  | .dialectCall f args => d.writtenArguments f args
  | .inList _ [] _ => []
  | e => e.parts

/-- Whether the operators of an expression take its operands as a whole. -/
def Binds (d : Dialect) : Expr → Prop
  | .binary l op r =>
    (needsParens l op false = true ∨ op.precedence ≤ l.tail) ∧
      (needsParens r op true = true ∨ op.precedence < r.chainLead op)
  | .unary op e => e.isBinary = true ∨ op.precedence < e.lead
  | .isNull e _ => e.isBinary = true ∨ 4 ≤ e.tail
  | .inList e vs _ => vs = [] ∨ 4 ≤ e.tail
  | .like e p .. => 4 ≤ e.tail ∧ 4 < p.lead ∧ 4 ≤ p.tail
  | .window f .. => 9 ≤ f.tail
  | .dialectCall f args => d.BindsArguments f args
  | _ => True

/-- Whether something holds of an expression and of everything within it. -/
inductive Everywhere (within : Expr → List Expr) (P : Expr → Prop) : Expr → Prop
  | intro {e : Expr} (here : P e) (inside : ∀ x ∈ within e, Everywhere within P x) :
    Everywhere within P e

theorem everywhere_iff {within : Expr → List Expr} {P : Expr → Prop} {e : Expr} :
    Everywhere within P e ↔ P e ∧ ∀ x ∈ within e, Everywhere within P x :=
  ⟨fun ⟨here, inside⟩ => ⟨here, inside⟩, fun h => ⟨h.1, h.2⟩⟩

end Expr

/-! ## Fitting phrases -/

namespace Phrase

variable {p l r : Phrase} {ps : List Phrase}

theorem precedence_pos {s : Separator} {j : Joint}
    (other : ¬(Joint.separator s).chains j = true) : 0 < j.precedence := by
  cases j with
  | separator t => exact absurd rfl other
  | binary op => cases op <;> exact Nat.succ_pos _
  | _ => exact Nat.succ_pos _

theorem Fits.lead_pos (h : p.Fits) (closed : 0 < p.tail) : 0 < p.lead := by
  induction p with
  | empty => exact absurd closed (Nat.lt_irrefl 0)
  | joined m k r ihm _ =>
    rw [tail] at closed
    have left := ihm h.1 (by have := h.2.2.1; omega)
    rw [lead]
    omega
  | tested e negated ih =>
    have inner := ih h.1 (by have := h.2; omega)
    rw [lead]
    omega
  | _ => exact Nat.succ_pos _

/-- Only a list is open to an operator as weak as a separator. -/
theorem Fits.lead_first_pos (h : p.Fits) (filled : p.startsEmpty = false) (s : Separator) :
    0 < (p.first (.separator s)).lead := by
  induction p with
  | empty => cases filled
  | joined m k r ihm _ =>
    rw [first]
    split
    · exact ihm h.1 filled
    · rename_i other
      have left := h.1.lead_pos (Nat.lt_of_lt_of_le (precedence_pos other) h.2.2.1)
      have := precedence_pos other
      rw [lead]
      omega
  | tested e negated ih => exact Fits.lead_pos (p := .tested e negated) h (Nat.succ_pos _)
  | _ => exact Nat.succ_pos _

theorem fits_joined_separator {s : Separator} (filled : r.startsEmpty = false) :
    (joined l (.separator s) r).Fits ↔ l.Fits ∧ r.Fits :=
  ⟨fun h => ⟨h.1, h.2.1⟩, fun h => ⟨h.1, h.2, Nat.zero_le _, h.2.lead_first_pos filled s⟩⟩

theorem startsEmpty_commas (some : ps ≠ []) (filled : ∀ p ∈ ps, p.startsEmpty = false) :
    (commas ps).startsEmpty = false := by
  cases ps with
  | nil => exact absurd rfl some
  | cons p rest =>
    have first := filled p (List.mem_cons_self ..)
    cases rest <;> exact first

theorem fits_joined_separator_empty {s : Separator} :
    (joined l (.separator s) .empty).Fits ↔ l.Fits :=
  ⟨fun h => h.1, fun h => ⟨h, trivial, Nat.zero_le _, Nat.one_pos⟩⟩

theorem fits_group : p.group.Fits ↔ p.Fits := ⟨fun h => h.2.2, fun h => ⟨trivial, rfl, h⟩⟩

theorem fits_groupIf (needed : Bool) : (groupIf needed p).Fits ↔ p.Fits := by
  cases needed with
  | false => rfl
  | true => exact fits_group

theorem fits_commas (filled : ∀ p ∈ ps, p.startsEmpty = false) :
    (commas ps).Fits ↔ ∀ p ∈ ps, p.Fits := by
  induction ps with
  | nil => simp [commas, Fits]
  | cons p rest ih =>
    obtain ⟨-, filled⟩ := List.forall_mem_cons.mp filled
    cases rest with
    | nil => simp [commas]
    | cons q rest =>
      have rest := startsEmpty_commas (List.cons_ne_nil q rest) filled
      rw [commas, fits_joined_separator rest, ih filled, List.forall_mem_cons (a := p)]

theorem fits_call (name : String) (filled : ∀ p ∈ ps, p.startsEmpty = false) :
    (call name ps).Fits ↔ ∀ p ∈ ps, p.Fits :=
  Iff.trans ⟨fun h => h.2.2, fun h => ⟨trivial, rfl, h⟩⟩ (fits_commas filled)

theorem startsEmpty_atom (t : Token) : (atom t).startsEmpty = false := rfl

theorem startsEmpty_call (name : String) (ps : List Phrase) : (call name ps).startsEmpty = false :=
  rfl

theorem fits_atom (t : Token) : (atom t).Fits := trivial

theorem fits_joined_separator_atom {s : Separator} {t : Token} :
    (joined l (.separator s) (.atom t)).Fits ↔ l.Fits := by
  rw [fits_joined_separator rfl, and_iff_left (fits_atom t)]

theorem fits_joined_separator_group {s : Separator} :
    (joined l (.separator s) r.group).Fits ↔ l.Fits ∧ r.Fits := by
  rw [fits_joined_separator rfl, fits_group]

theorem fits_named {e : Phrase} (t : Token) : (bracketed (.atom t) .paren e).Fits ↔ e.Fits :=
  ⟨fun fits => fits.2.2, fun fits => ⟨trivial, rfl, fits⟩⟩

theorem fits_position {e : Phrase} (name : String) :
    (bracketed (call name ps) .index e).Fits ↔ (call name ps).Fits ∧ e.Fits :=
  ⟨fun fits => ⟨fits.1, fits.2.2⟩, fun fits => ⟨fits.1, rfl, fits.2⟩⟩

theorem fits_clause {before : Phrase} {s : Separator}
    (filled : ∀ p ∈ ps, p.startsEmpty = false) :
    (clause before s ps).Fits ↔ before.Fits ∧ ∀ p ∈ ps, p.Fits := by
  cases ps with
  | nil => simp [clause]
  | cons p rest =>
    rw [← fits_commas filled]
    exact fits_joined_separator (startsEmpty_commas (List.cons_ne_nil _ _) filled)

theorem fits_ordered {d : Dialect} {direction? : Option SortDirection}
    {nulls? : Option NullsPlacement} : (ordered d p direction? nulls?).Fits ↔ p.Fits := by
  cases direction? <;> cases nulls? <;> cases d <;>
    simp [ordered, Dialect.ordersNulls, fits_joined_separator_empty]

theorem startsEmpty_ordered (filled : p.startsEmpty = false) (d : Dialect)
    (direction? : Option SortDirection) (nulls? : Option NullsPlacement) :
    (ordered d p direction? nulls?).startsEmpty = false := by
  cases direction? <;> cases nulls? <;> cases d <;> exact filled

theorem fits_windowParts {ks : List Phrase} (hp : ∀ p ∈ ps, p.startsEmpty = false)
    (hk : ∀ k ∈ ks, k.startsEmpty = false) (frame? : Option Frame) :
    (windowParts ps ks frame?).Fits ↔ (∀ p ∈ ps, p.Fits) ∧ ∀ k ∈ ks, k.Fits := by
  have clauses : (clause (clause .empty .partitionBy ps) .orderBy ks).Fits ↔
      (∀ p ∈ ps, p.Fits) ∧ ∀ k ∈ ks, k.Fits := by
    rw [fits_clause hk, fits_clause hp, and_iff_right (a := Phrase.empty.Fits) trivial]
  cases frame? with
  | none => exact clauses
  | some f => exact fits_joined_separator_empty.trans clauses

end Phrase

/-! ## Written expressions -/

namespace Phrase

theorem lead_groupIf (needed : Bool) (p : Phrase) :
    (groupIf needed p).lead = if needed then 10 else p.lead := by
  cases needed <;> rfl

theorem tail_groupIf (needed : Bool) (p : Phrase) :
    (groupIf needed p).tail = if needed then 10 else p.tail := by
  cases needed <;> rfl

/-- Nothing is attached to a joint that makes no chains. -/
theorem first_eq {j : Joint} (alone : ∀ k : Joint, j.chains k = false) (p : Phrase) :
    p.first j = p := by
  cases p with
  | joined m k r => rw [first, alone, if_neg Bool.false_ne_true]
  | _ => rfl

theorem fits_joined {l r : Phrase} {j : Joint} (alone : ∀ k : Joint, j.chains k = false) :
    (joined l j r).Fits ↔
      l.Fits ∧ r.Fits ∧ j.precedence ≤ l.tail ∧ j.precedence < r.lead := by
  rw [Fits, first_eq alone]

theorem fits_atTimeZone {l r : Phrase} :
    (joined l .atTimeZone r).Fits ↔ l.Fits ∧ r.Fits ∧ 7 ≤ l.tail ∧ 7 < r.lead :=
  fits_joined fun _ => rfl

theorem fits_sub {l r : Phrase} :
    (joined l (.binary .sub) r).Fits ↔ l.Fits ∧ r.Fits ∧ 5 ≤ l.tail ∧ 5 < r.lead :=
  fits_joined fun k => by cases k <;> simp [Joint.chains, BinaryOperator.groupsFreely]

end Phrase

namespace Expr

theorem lead_written (d : Dialect) (e : Expr) : (e.written d).lead = e.lead := by
  induction e using parts_induction with
  | step e ih =>
    cases e with
    | binary l op r =>
      rw [written, phrase, Phrase.lead, Phrase.lead_groupIf, lead, ih l (by simp [parts])]
      rfl
    | dialectCall f args =>
      obtain ⟨h, b, e, eq⟩ := exists_callPhrase_eq d _ f (phraseEach true d args)
      rw [written, phrase, eq]
      rfl
    | inList e vs negated =>
      cases vs with
      | nil => rfl
      | cons v vs => exact congrArg (Nat.min 4) (ih e (by simp [parts]))
    | isNull e negated =>
      rw [written, phrase, Phrase.lead, Phrase.lead_groupIf, lead, ih e (by simp [parts])]
      rfl
    | like e p c negated ignoreCase =>
      rw [written, phrase, Phrase.lead, Phrase.lead, lead, ih e (by simp [parts])]
      simp only [Joint.precedence]
      omega
    | window f ps os frame? => exact congrArg (Nat.min 9) (ih f (by simp [parts]))
    | list es =>
      rcases es with _ | ⟨e, _ | ⟨e', es⟩⟩
      · rfl
      · exact ih e (by simp [parts])
      · exact Nat.zero_min _
    | _ => rfl

theorem tail_written (d : Dialect) (e : Expr) : (e.written d).tail = e.tail := by
  induction e using parts_induction with
  | step e ih =>
    cases e with
    | binary l op r =>
      rw [written, phrase, Phrase.tail, Phrase.tail_groupIf, tail, ih r (by simp [parts])]
      rfl
    | unary op e =>
      rw [written, phrase, Phrase.tail, Phrase.tail_groupIf, tail, ih e (by simp [parts])]
      rfl
    | dialectCall f args =>
      obtain ⟨h, b, e, eq⟩ := exists_callPhrase_eq d _ f (phraseEach true d args)
      rw [written, phrase, eq]
      rfl
    | inList e vs negated => cases vs <;> rfl
    | list es =>
      rcases es with _ | ⟨e, _ | ⟨e', es⟩⟩
      · rfl
      · exact ih e (by simp [parts])
      · exact Nat.zero_min _
    | _ => rfl

theorem lead_first_written (d : Dialect) (op : BinaryOperator) (e : Expr) :
    ((e.written d).first (.binary op)).lead = e.chainLead op := by
  induction e using parts_induction with
  | step e ih =>
    cases e with
    | binary l op' r =>
      rw [written, phrase, Phrase.first, chainLead]
      split
      · cases h : needsParens l op' false with
        | false => exact ih l (by simp [parts])
        | true => rfl
      · exact lead_written d (.binary l op' r)
    | inList e vs negated =>
      cases vs with
      | nil => rfl
      | cons v vs => exact lead_written d (.inList e (v :: vs) negated)
    | list es =>
      rcases es with _ | ⟨e, _ | ⟨e', es⟩⟩
      · rfl
      · exact ih e (by simp [parts])
      · exact lead_written d (.list (e :: e' :: es))
    | dialectCall f args =>
      obtain ⟨h, b, e, eq⟩ := exists_callPhrase_eq d _ f (phraseEach true d args)
      rw [written, phrase, eq]
      rfl
    | like e p c negated ignoreCase => exact lead_written d (.like ..)
    | window f ps os frame? => exact lead_written d (.window ..)
    | isNull e negated => exact lead_written d (.isNull ..)
    | _ => rfl

theorem fits_callPhrase (d : Dialect) (unit : String) (f : DialectFunction) (args : List Expr) :
    (d.callPhrase unit f (args.map (·.written d))).Fits ↔
      d.BindsArguments f args ∧ ∀ x ∈ d.writtenArguments f args, (x.written d).Fits := by
  rcases args with _ | ⟨a, _ | ⟨b, _ | ⟨c, _ | ⟨e, rest⟩⟩⟩⟩ <;> cases d <;> cases f <;>
    simp [Dialect.callPhrase, Dialect.snowflakePhrase, Dialect.bigQueryPhrase,
      Dialect.postgresPhrase, Dialect.mySqlPhrase, Dialect.BindsArguments, Dialect.writtenArguments,
      Phrase.fits_call, Phrase.fits_atom, Phrase.fits_group, Phrase.fits_named,
      Phrase.fits_position, Phrase.fits_joined_separator_atom, Phrase.fits_joined_separator_group,
      Phrase.fits_atTimeZone, Phrase.fits_sub, Phrase.startsEmpty_atom, Phrase.startsEmpty_call,
      Phrase.tail, startsEmpty_phrase, lead_written, tail_written]
  all_goals tauto

theorem fits_branchPhrase {d : Dialect} {before : Phrase} {bs : List (Expr × Expr)} :
    (branchPhrase true d before bs).Fits ↔
      before.Fits ∧ ∀ b ∈ bs, (b.1.written d).Fits ∧ (b.2.written d).Fits := by
  induction bs generalizing before with
  | nil => simp [branchPhrase]
  | cons b bs ih =>
    obtain ⟨w, t⟩ := b
    rw [branchPhrase, ih, Phrase.fits_joined_separator (startsEmpty_phrase true d t),
      Phrase.fits_joined_separator (startsEmpty_phrase true d w), List.forall_mem_cons, and_assoc,
      and_assoc, and_assoc]

theorem startsEmpty_each (d : Dialect) (es : List Expr) :
    ∀ p ∈ phraseEach true d es, p.startsEmpty = false := by
  rw [phraseEach_eq]
  exact List.forall_mem_map.mpr fun x _ => startsEmpty_phrase true d x

theorem fits_each (d : Dialect) (es : List Expr) :
    (∀ p ∈ phraseEach true d es, p.Fits) ↔ ∀ x ∈ es, (x.written d).Fits := by
  rw [phraseEach_eq]
  exact List.forall_mem_map

theorem fits_commas_each (d : Dialect) (es : List Expr) :
    (Phrase.commas (phraseEach true d es)).Fits ↔ ∀ x ∈ es, (x.written d).Fits :=
  (Phrase.fits_commas (startsEmpty_each d es)).trans (fits_each d es)

/-- An operand in parentheses is taken as a whole. -/
theorem le_tail_groupIf {n : Nat} (weak : n < 10) (needed : Bool) (d : Dialect) (e : Expr) :
    n ≤ (Phrase.groupIf needed (e.written d)).tail ↔ needed = true ∨ n ≤ e.tail := by
  cases needed with
  | false => simp [Phrase.tail_groupIf, tail_written]
  | true => simpa [Phrase.tail_groupIf] using Nat.le_of_lt weak

theorem lt_lead_groupIf {n : Nat} (weak : n < 10) (needed : Bool) (d : Dialect) (e : Expr) :
    n < (Phrase.groupIf needed (e.written d)).lead ↔ needed = true ∨ n < e.lead := by
  cases needed with
  | false => simp [Phrase.lead_groupIf, lead_written]
  | true => simpa [Phrase.lead_groupIf] using weak

theorem lt_lead_first_groupIf {n : Nat} (weak : n < 10) (needed : Bool) (d : Dialect)
    (op : BinaryOperator) (e : Expr) :
    n < ((Phrase.groupIf needed (e.written d)).first (.binary op)).lead ↔
      needed = true ∨ n < e.chainLead op := by
  cases needed with
  | false => simp [Phrase.groupIf, lead_first_written]
  | true => simpa [Phrase.groupIf, Phrase.first, Phrase.lead] using weak

theorem precedence_lt_ten (op : BinaryOperator) : op.precedence < 10 := by
  cases op <;> decide

theorem forall_mem_branches (P : Expr → Prop) (bs : List (Expr × Expr)) :
    (∀ x ∈ bs.flatMap fun b => [b.1, b.2], P x) ↔ ∀ b ∈ bs, P b.1 ∧ P b.2 := by
  simp only [List.forall_mem_flatMap, List.forall_mem_cons, List.not_mem_nil, false_implies,
    implies_true, and_true]

/-- The written phrase of an expression fits if its operators take their operands as a whole and the
operands fit themselves. -/
theorem fits_written_iff_operands (d : Dialect) (e : Expr) :
    (e.written d).Fits ↔ e.Binds d ∧ ∀ x ∈ e.operands d, (x.written d).Fits := by
  cases e with
  | column t n => simp [written, phrase, Phrase.Fits, Binds, operands, parts]
  | literal l => simp [written, phrase, Phrase.Fits, Binds, operands, parts]
  | placeholder n => simp [written, phrase, Phrase.Fits, Binds, operands, parts]
  | raw s => simp [written, phrase, Phrase.Fits, Binds, operands, parts]
  | binary l op r =>
    have weak := precedence_lt_ten op
    simp only [written, phrase, Phrase.Fits, Bool.true_and, Phrase.fits_groupIf, Joint.precedence,
      le_tail_groupIf weak, lt_lead_first_groupIf weak, Binds, operands, parts,
      List.forall_mem_cons, List.not_mem_nil, false_implies, implies_true, and_true]
    tauto
  | unary op e =>
    have weak : op.precedence < 10 := by cases op <;> decide
    simp only [written, phrase, Phrase.Fits, Bool.true_and, Phrase.fits_groupIf,
      lt_lead_groupIf weak, Binds, operands, parts, List.forall_mem_cons,
      List.not_mem_nil, false_implies, implies_true, and_true]
    tauto
  | call n args distinct =>
    rw [written, phrase, Phrase.fits_named]
    refine Iff.trans ?_ (fits_commas_each d args |>.trans (by simp [Binds, operands, parts]))
    cases distinct with
    | false => rfl
    | true =>
      cases args with
      | nil => exact Phrase.fits_joined_separator_empty
      | cons x xs =>
        have filled :=
          Phrase.startsEmpty_commas (by simp [phraseEach]) (startsEmpty_each d (x :: xs))
        exact (Phrase.fits_joined_separator filled).trans (and_iff_right trivial)
  | dialectCall f args =>
    rw [written, phrase, phraseEach_eq, fits_callPhrase]
    rfl
  | case operand? branches otherwise? =>
    have operand :
        (operandPhrase true d operand?).Fits ↔ ∀ x ∈ operand?.toList, (x.written d).Fits := by
      cases operand? <;> simp [operandPhrase, Phrase.Fits]
    have branched : (branchPhrase true d (operandPhrase true d operand?) branches).Fits ↔
        (∀ x ∈ operand?.toList, (x.written d).Fits) ∧
          ∀ x ∈ branches.flatMap fun b => [b.1, b.2], (x.written d).Fits := by
      rw [fits_branchPhrase, operand, forall_mem_branches]
    have all : (elsePhrase true d (branchPhrase true d (operandPhrase true d operand?) branches)
        otherwise?).Fits ↔ ∀ x ∈ (case operand? branches otherwise?).parts, (x.written d).Fits := by
      rw [parts, List.forall_mem_append, List.forall_mem_append, ← branched]
      cases otherwise? with
      | none => simp [elsePhrase]
      | some e =>
        rw [elsePhrase, Phrase.fits_joined_separator (startsEmpty_phrase true d e)]
        simp
    rw [written, phrase]
    exact ⟨fun h => ⟨trivial, all.mp h.2.2⟩, fun h => ⟨trivial, rfl, all.mpr h.2⟩⟩
  | cast e t =>
    rw [written, phrase, Phrase.fits_named, Phrase.fits_joined_separator_atom]
    simp [Binds, operands, parts]
  | extract f e =>
    rw [written, phrase, Phrase.fits_named,
      Phrase.fits_joined_separator (startsEmpty_phrase true d e)]
    simp [Binds, operands, parts, Phrase.fits_atom]
  | inList e vs negated =>
    cases vs with
    | nil => simp [written, phrase, Phrase.Fits, Binds, operands]
    | cons v vs =>
      rw [written, phrase, if_neg (by simp), Phrase.fits_joined fun _ => rfl, Phrase.fits_group,
        fits_commas_each, tail_written]
      simp only [Joint.precedence, Phrase.lead, Binds, operands, parts, List.forall_mem_cons,
        Nat.reduceLT, and_true, reduceCtorEq, false_or]
      tauto
  | isNull e negated =>
    simp only [written, phrase, Phrase.Fits, Bool.true_and, Phrase.fits_groupIf,
      le_tail_groupIf (show 4 < 10 by decide), Binds, operands, parts, List.forall_mem_cons,
      List.not_mem_nil, false_implies, implies_true, and_true]
    tauto
  | like e p c negated ignoreCase =>
    rw [written, phrase, Phrase.fits_joined fun _ => rfl, Phrase.fits_joined fun _ => rfl,
      Phrase.tail, tail_written, lead_written, tail_written]
    simp only [Joint.precedence, Phrase.lead, Phrase.fits_atom, Binds, operands, parts,
      List.forall_mem_cons, List.not_mem_nil, false_implies, implies_true, Nat.le_min, Nat.le_refl,
      Nat.reduceLT, true_and, and_true]
    tauto
  | paren e =>
    rw [written, phrase, Phrase.fits_group]
    simp [Binds, operands, parts]
  | window f ps os frame? =>
    have keys : ∀ k ∈ orderPhrases true d os, k.startsEmpty = false := by
      rw [orderPhrases_eq]
      exact List.forall_mem_map.mpr fun o _ =>
        Phrase.startsEmpty_ordered (startsEmpty_phrase true d o.key) ..
    rw [written, phrase, Phrase.fits_joined fun _ => rfl, Phrase.fits_group,
      Phrase.fits_windowParts (startsEmpty_each d ps) keys, fits_each, tail_written,
      orderPhrases_eq, List.forall_mem_map]
    simp only [Phrase.fits_ordered, Joint.precedence, Phrase.lead, Binds, operands, parts,
      List.forall_mem_cons, List.forall_mem_append, List.forall_mem_map, Nat.lt_add_one, and_true]
    tauto
  | list es =>
    cases es with
    | nil => simp [written, phrase, Phrase.Fits, Binds, operands, parts]
    | cons e es =>
      refine (fits_commas_each d (e :: es)).trans ?_
      simp [Binds, operands, parts]

theorem mem_parts_of_mem_operands {d : Dialect} {x e : Expr} (h : x ∈ e.operands d) :
    x ∈ e.parts := by
  cases e with
  | dialectCall f args =>
    rw [operands] at h
    unfold Dialect.writtenArguments at h
    split at h
    · exact List.mem_cons_of_mem _ h
    · exact List.mem_cons_of_mem _ h
    · exact List.mem_cons_of_mem _ h
    · exact h
  | inList e vs negated =>
    cases vs with
    | nil => cases h
    | cons v vs => exact h
  | _ => exact h

/-- The written phrase fits exactly if the operators take their operands as a whole everywhere. -/
theorem fits_written_iff (d : Dialect) (e : Expr) :
    (e.written d).Fits ↔ Everywhere (operands d) (Binds d) e := by
  induction e using parts_induction with
  | step e ih =>
    rw [fits_written_iff_operands, everywhere_iff]
    exact and_congr_right fun _ => forall₂_congr fun x hx => ih x (mem_parts_of_mem_operands hx)

end Expr

end SemanticLayer.Sql
