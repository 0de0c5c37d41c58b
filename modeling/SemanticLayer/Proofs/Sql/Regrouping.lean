import SemanticLayer.Proofs.Sql.Reading

/-!
# Chains grouped from the left

A chain of one associative operator says the same however it is grouped, and a reader groups it from
the left.

* `Phrase.attach`: two phrases joined, with a chain on the right taken apart;
* `Phrase.chained`: the phrase with all its chains grouped from the left, with the same words;
* `Phrase.Fits`: no operator takes more or less of what is next to it than its operand;
* `Phrase.chained_isGrouped_iff`: the phrase fits exactly if it obeys the precedences once its
  chains are grouped from the left.
-/

namespace SemanticLayer.Sql

namespace Joint

theorem chains_iff {j k : Joint} : j.chains k = true ↔
    (∃ s t, j = .separator s ∧ k = .separator t) ∨
      ∃ op : BinaryOperator, j = .binary op ∧ k = .binary op ∧ op.groupsFreely = true := by
  unfold chains
  split
  · simp
  · rename_i op op'
    simp only [Bool.and_eq_true, beq_iff_eq, reduceCtorEq, false_and, exists_false, binary.injEq,
      false_or]
    constructor
    · rintro ⟨rfl, free⟩
      exact ⟨op, rfl, rfl, free⟩
    · rintro ⟨_, rfl, rfl, free⟩
      exact ⟨rfl, free⟩
  · rename_i notSeparators notBinary
    simp only [Bool.false_eq_true, false_iff]
    rintro (⟨s, t, rfl, rfl⟩ | ⟨op, rfl, rfl, -⟩)
    · exact notSeparators s t rfl rfl
    · exact notBinary op op rfl rfl

theorem precedence_of_chains {j k : Joint} (h : j.chains k = true) :
    j.precedence = k.precedence := by
  rcases chains_iff.mp h with ⟨s, t, rfl, rfl⟩ | ⟨op, rfl, rfl, -⟩ <;> rfl

/-- What chains is of one kind: two such joints chain with the same others. -/
theorem chains_congr {j k : Joint} (h : j.chains k = true) (i : Joint) :
    i.chains k = i.chains j := by
  rcases chains_iff.mp h with ⟨s, t, rfl, rfl⟩ | ⟨op, rfl, rfl, -⟩
  · cases i <;> rfl
  · rfl

end Joint

namespace Phrase

/-! ## Chains grouped from the left -/

/-- Whether the phrase continues a chain before it. -/
def continues (j : Joint) : Phrase → Bool
  | .joined _ k _ => j.chains k
  | _ => false

/-- Two phrases joined, with a chain on the right grouped from the left. -/
def attach (l : Phrase) (j : Joint) : Phrase → Phrase
  | .joined m k r => if j.chains k then .joined (l.attach j m) k r else .joined l j (.joined m k r)
  | r => .joined l j r

def chained : Phrase → Phrase
  | .empty => .empty
  | .atom t => .atom t
  | .prefixed op e => .prefixed op e.chained
  | .tested e negated => .tested e.chained negated
  | .joined l j r => l.chained.attach j r.chained
  | .bracketed h b e => .bracketed h.chained b e.chained

/-- Where a phrase begins whose chain is attached to a joint before it. -/
def first (j : Joint) : Phrase → Phrase
  | .joined m k r => if j.chains k then m.first j else .joined m k r
  | p => p

/-- Whether the phrase with its chains grouped from the left obeys the precedences. -/
def Fits : Phrase → Prop
  | .empty => True
  | .atom _ => True
  | .prefixed op e => e.Fits ∧ op.precedence < e.lead
  | .tested e _ => e.Fits ∧ 4 ≤ e.tail
  | .joined l j r =>
    l.Fits ∧ r.Fits ∧ j.precedence ≤ l.tail ∧ j.precedence < (r.first j).lead
  | .bracketed h _ e => h.Fits ∧ h.isHead ∧ e.Fits

variable {l r p q : Phrase} {j k : Joint}

theorem attach_joined_eq (l : Phrase) (j : Joint) (m : Phrase) (k : Joint) (r : Phrase) :
    l.attach j (.joined m k r) =
      if j.chains k then .joined (l.attach j m) k r else .joined l j (.joined m k r) := rfl

theorem first_joined (j : Joint) (m : Phrase) (k : Joint) (r : Phrase) :
    (joined m k r).first j = if j.chains k then m.first j else .joined m k r := rfl

@[simp] theorem chained_prefixed (op : UnaryOperator) (e : Phrase) :
    (prefixed op e).chained = .prefixed op e.chained := rfl

@[simp] theorem chained_tested (e : Phrase) (negated : Bool) :
    (tested e negated).chained = .tested e.chained negated := rfl

@[simp] theorem chained_joined (l : Phrase) (j : Joint) (r : Phrase) :
    (joined l j r).chained = l.chained.attach j r.chained := rfl

@[simp] theorem chained_bracketed (h : Phrase) (b : Bracket) (e : Phrase) :
    (bracketed h b e).chained = .bracketed h.chained b e.chained := rfl

theorem attach_of_not_continues (h : r.continues j = false) : l.attach j r = .joined l j r := by
  cases r with
  | joined m k r => exact if_neg (Bool.eq_false_iff.mp h)
  | _ => rfl

theorem attach_joined (m r : Phrase) (h : j.chains k = true) :
    l.attach j (.joined m k r) = .joined (l.attach j m) k r := if_pos h

/-- The joint at the top of an attached phrase is of the same kind. -/
theorem exists_attach_eq (l : Phrase) (j : Joint) (r : Phrase) :
    ∃ m k x, l.attach j r = .joined m k x ∧ ∀ i : Joint, i.chains k = i.chains j := by
  cases h : r.continues j with
  | false => exact ⟨l, j, r, attach_of_not_continues h, fun _ => rfl⟩
  | true =>
    cases r with
    | joined m k x => exact ⟨_, k, x, attach_joined m x h, Joint.chains_congr h⟩
    | _ => cases h

theorem words_attach (l : Phrase) (j : Joint) (r : Phrase) :
    (l.attach j r).words = l.words ++ .joint j :: r.words := by
  induction r with
  | joined m k r ih _ =>
    rw [attach_joined_eq]
    split
    · rw [words, ih, words, List.append_assoc, List.cons_append]
    · rfl
  | _ => rfl

theorem words_chained (p : Phrase) : p.chained.words = p.words := by
  induction p with
  | empty => rfl
  | atom t => rfl
  | prefixed op e ih => rw [chained_prefixed, words, words, ih]
  | tested e negated ih => rw [chained_tested, words, words, ih]
  | joined l j r ihl ihr => rw [chained_joined, words_attach, words, ihl, ihr]
  | bracketed h b e ihh ihe => rw [chained_bracketed, words, words, ihh, ihe]

theorem lead_attach (l : Phrase) (j : Joint) (r : Phrase) :
    (l.attach j r).lead = min j.precedence l.lead := by
  induction r with
  | joined m k r ih _ =>
    rw [attach_joined_eq]
    split
    · rename_i h
      rw [lead, ih, Joint.precedence_of_chains h]
      omega
    · rfl
  | _ => rfl

theorem tail_attach (l : Phrase) (j : Joint) (r : Phrase) :
    (l.attach j r).tail = min j.precedence r.tail := by
  cases r with
  | joined m k r =>
    rw [attach_joined_eq]
    split
    · rename_i h
      rw [tail, tail, Joint.precedence_of_chains h]
      omega
    · rfl
  | _ => rfl

theorem lead_chained (p : Phrase) : p.chained.lead = p.lead := by
  induction p with
  | tested e negated ih => rw [chained_tested, lead, lead, ih]
  | joined l j r ihl _ => rw [chained_joined, lead_attach, lead, ihl]
  | _ => rfl

theorem tail_chained (p : Phrase) : p.chained.tail = p.tail := by
  induction p with
  | prefixed op e ih => rw [chained_prefixed, tail, tail, ih]
  | joined l j r _ ihr => rw [chained_joined, tail_attach, tail, ihr]
  | _ => rfl

theorem isHead_chained (p : Phrase) : p.chained.isHead = p.isHead := by
  cases p with
  | joined l j r =>
    obtain ⟨m, k, x, eq, -⟩ := exists_attach_eq l.chained j r.chained
    rw [chained_joined, eq]
    rfl
  | _ => rfl

theorem first_attach (l : Phrase) (j k : Joint) (r : Phrase) :
    (l.attach k r).first j = if j.chains k then l.first j else l.attach k r := by
  induction r with
  | joined m i r ih _ =>
    rw [attach_joined_eq]
    split
    · rename_i h
      rw [first_joined, ih, Joint.chains_congr h]
      split <;> rfl
    · rfl
  | _ => rfl

theorem first_chained (j : Joint) (p : Phrase) : p.chained.first j = (p.first j).chained := by
  induction p with
  | joined l k r ihl _ =>
    rw [chained_joined, first_attach, first_joined]
    split
    · exact ihl
    · rfl
  | _ => rfl

/-- An attached phrase obeys the precedences if both sides do, and their sides next to the joint are
strong enough for it. -/
theorem attach_isGrouped_iff (l : Phrase) (j : Joint) (r : Phrase) :
    (l.attach j r).IsGrouped ↔
      l.IsGrouped ∧ r.IsGrouped ∧ j.precedence ≤ l.tail ∧ j.precedence < (r.first j).lead := by
  induction r with
  | joined m k r ih _ =>
    rw [attach_joined_eq, first_joined]
    split
    · rename_i h
      rw [IsGrouped, IsGrouped, ih, tail_attach, ← Joint.precedence_of_chains h]
      constructor
      · rintro ⟨⟨hl, hm, strong, weak⟩, hr, strong', weak'⟩
        exact ⟨hl, ⟨hm, hr, by omega, weak'⟩, strong, weak⟩
      · rintro ⟨hl, ⟨hm, hr, strong', weak'⟩, strong, weak⟩
        exact ⟨⟨hl, hm, strong, weak⟩, hr, by omega, weak'⟩
    · rfl
  | _ => rfl

theorem chained_isGrouped_iff (p : Phrase) : p.chained.IsGrouped ↔ p.Fits := by
  induction p with
  | empty => rfl
  | atom t => rfl
  | prefixed op e ih => rw [chained_prefixed, IsGrouped, Fits, ih, lead_chained]
  | tested e negated ih => rw [chained_tested, IsGrouped, Fits, ih, tail_chained]
  | joined l j r ihl ihr =>
    rw [chained_joined, attach_isGrouped_iff, Fits, ihl, ihr, tail_chained, first_chained,
      lead_chained]
  | bracketed h b e ihh ihe => rw [chained_bracketed, IsGrouped, Fits, ihh, ihe, isHead_chained]

/-- Whether all chains are grouped from the left. -/
def IsChained : Phrase → Prop
  | .empty => True
  | .atom _ => True
  | .prefixed _ e => e.IsChained
  | .tested e _ => e.IsChained
  | .joined l j r => l.IsChained ∧ r.IsChained ∧ r.continues j = false
  | .bracketed h _ e => h.IsChained ∧ e.IsChained

theorem attach_isChained (hl : l.IsChained) (hr : r.IsChained) : (l.attach j r).IsChained := by
  induction r with
  | joined m k r ih _ =>
    rw [attach_joined_eq]
    split
    · exact ⟨ih hr.1, hr.2.1, hr.2.2⟩
    · rename_i h
      exact ⟨hl, hr, Bool.eq_false_iff.mpr h⟩
  | _ => exact ⟨hl, hr, rfl⟩

theorem chained_isChained (p : Phrase) : p.chained.IsChained := by
  induction p with
  | empty => trivial
  | atom t => trivial
  | prefixed op e ih => exact ih
  | tested e negated ih => exact ih
  | joined l j r ihl ihr => exact attach_isChained ihl ihr
  | bracketed h b e ihh ihe => exact ⟨ihh, ihe⟩

theorem IsGrouped.isChained (h : p.IsGrouped) : p.IsChained := by
  induction p with
  | empty => trivial
  | atom t => trivial
  | prefixed op e ih => exact ih h.1
  | tested e negated ih => exact ih h.1
  | joined l j r ihl ihr =>
    refine ⟨ihl h.1, ihr h.2.1, Bool.eq_false_iff.mpr fun continues => ?_⟩
    have weak := h.2.2.2
    cases r with
    | joined m k x =>
      rw [lead, Joint.precedence_of_chains continues] at weak
      omega
    | _ => cases continues
  | bracketed h b e ihh ihe => exact ⟨ihh h.1, ihe h.2.2⟩

end Phrase

end SemanticLayer.Sql
