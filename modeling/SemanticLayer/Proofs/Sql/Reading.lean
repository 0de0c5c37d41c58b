import SemanticLayer.Proofs.Sql.Phrases

/-!
# Reading phrases

Words have at most one reading.  `Reader.read` finds it: it goes through the words once and keeps
the operators and brackets that still wait for their right side on a stack, the last one on top; an
operator first completes the waiting ones that bind at least as tightly.

* `Reader.run_words`: the words of a grouped phrase leave the reader as if the phrase were one
  operand;
* `IsReading.read_eq`, `IsReading.unique`: the reader finds each reading, so there is no other.
-/

namespace SemanticLayer.Sql

namespace Reader

/-- What waits for its right side. -/
inductive Waiting where
  | joint (left : Phrase) (j : Joint)
  | sign (op : UnaryOperator)
  | bracket (head : Phrase) (b : Bracket)

namespace Waiting

/-- Whether an operator of a precedence completes what waits. -/
def yieldsTo (n : Nat) : Waiting → Bool
  | .joint _ j => n ≤ j.precedence
  | .sign op => n ≤ op.precedence
  | .bracket .. => false

def complete (right : Phrase) : Waiting → Phrase
  | .joint l j => .joined l j right
  | .sign op => .prefixed op right
  | .bracket .. => right

end Waiting

/-- What waits, and the operand that was read last, empty where there is none. -/
abbrev State := List Waiting × Phrase

def reduce (n : Nat) : List Waiting → Phrase → State
  | [], x => ([], x)
  | w :: ws, x => if w.yieldsTo n then reduce n ws (w.complete x) else (w :: ws, x)

def step : State → Word → Option State
  | (ws, x), .atom t => if x.isEmpty then some (ws, .atom t) else none
  | (ws, x), .joint j =>
    if x.isEmpty ∧ 0 < j.precedence then
      if j = .binary .sub then some (.sign .minus :: ws, .empty) else none
    else
      let (ws, x) := reduce j.precedence ws x
      some (.joint x j :: ws, .empty)
  | (ws, x), .not => if x.isEmpty then some (.sign .not :: ws, .empty) else none
  | (ws, x), .isNull negated =>
    if x.isEmpty then none
    else
      let (ws, x) := reduce 4 ws x
      some (ws, .tested x negated)
  | (ws, x), .opening b => some (.bracket x b :: ws, .empty)
  | (ws, x), .closing b =>
    match reduce 0 ws x with
    | (.bracket h b' :: ws, x) => if b = b' then some (ws, .bracketed h b x) else none
    | _ => none

def run (s : State) (ws : List Word) : Option State := ws.foldlM step s

def read (ws : List Word) : Option Phrase :=
  match run ([], .empty) ws with
  | some (waiting, x) =>
    match reduce 0 waiting x with
    | ([], p) => some p
    | _ => none
  | none => none

theorem run_append (s : State) (us vs : List Word) :
    run s (us ++ vs) = (run s us).bind fun t => run t vs := List.foldlM_append ..

theorem run_cons (s : State) (w : Word) (ws : List Word) :
    run s (w :: ws) = (step s w).bind fun t => run t ws := List.foldlM_cons ..

/-- Whether nothing that waits is completed by an operator of the precedence. -/
def IsFirm (n : Nat) (ws : List Waiting) : Prop := ∀ w ∈ ws.head?, w.yieldsTo n = false

theorem Waiting.yieldsTo_mono {w : Waiting} {m n : Nat} (h : m ≤ n) (no : w.yieldsTo m = false) :
    w.yieldsTo n = false := by
  cases w with
  | joint l j => simp only [yieldsTo, decide_eq_false_iff_not] at no ⊢; omega
  | sign op => simp only [yieldsTo, decide_eq_false_iff_not] at no ⊢; omega
  | bracket h b => rfl

theorem IsFirm.mono {m n : Nat} {ws : List Waiting} (firm : IsFirm m ws) (h : m ≤ n) :
    IsFirm n ws := fun w hw => Waiting.yieldsTo_mono h (firm w hw)

theorem IsFirm.cons {n : Nat} {w : Waiting} (ws : List Waiting) (no : w.yieldsTo n = false) :
    IsFirm n (w :: ws) := by
  intro v hv
  cases hv
  exact no

theorem IsFirm.reduce_eq {n : Nat} {ws : List Waiting} (firm : IsFirm n ws) (x : Phrase) :
    reduce n ws x = (ws, x) := by
  cases ws with
  | nil => rfl
  | cons w ws => rw [reduce, firm w rfl, if_neg Bool.false_ne_true]

theorem reduce_cons_of_yields {n : Nat} {w : Waiting} (ws : List Waiting) (x : Phrase)
    (yields : w.yieldsTo n = true) : reduce n (w :: ws) x = reduce n ws (w.complete x) := by
  rw [reduce, if_pos yields]

theorem Waiting.yieldsTo_ten (w : Waiting) : w.yieldsTo 10 = false := by
  cases w with
  | joint l j =>
    simp only [yieldsTo, decide_eq_false_iff_not]
    cases j with
    | binary op => cases op <;> simp [Joint.precedence, BinaryOperator.precedence]
    | _ => simp [Joint.precedence]
  | sign op => cases op <;> rfl
  | bracket h b => rfl

/-- No operator is as strong as ten. -/
theorem isFirm_ten (ws : List Waiting) : IsFirm 10 ws := fun w _ => w.yieldsTo_ten

/-! ## Steps -/

variable {ws : List Waiting} {x : Phrase}

theorem step_joint {j : Joint} (here : x.isEmpty = true → j.precedence = 0) :
    step (ws, x) (.joint j) =
      some (.joint (reduce j.precedence ws x).2 j :: (reduce j.precedence ws x).1, .empty) := by
  rw [step, if_neg]
  rintro ⟨empty, pos⟩
  exact absurd (here empty) (Nat.ne_of_gt pos)

theorem step_sign (op : UnaryOperator) :
    step (ws, .empty) op.word = some (.sign op :: ws, .empty) := by
  cases op <;> rfl

theorem step_isNull (negated : Bool) (here : x.isEmpty = false) :
    step (ws, x) (.isNull negated) =
      some ((reduce 4 ws x).1, .tested (reduce 4 ws x).2 negated) := by
  rw [step, here, if_neg Bool.false_ne_true]

theorem step_closing {head inner : Phrase} {b : Bracket} {us : List Waiting}
    (reduced : reduce 0 us x = (.bracket head b :: ws, inner)) :
    step (us, x) (.closing b) = some (ws, .bracketed head b inner) := by
  rw [step, reduced]
  exact if_pos rfl

theorem lead_of_isHead {h : Phrase} (head : h.isHead = true) (filled : h.isEmpty = false) :
    h.lead = 10 ∧ h.tail = 10 := by
  cases h with
  | empty => cases filled
  | atom _ => exact ⟨rfl, rfl⟩
  | bracketed _ _ _ => exact ⟨rfl, rfl⟩
  | _ => cases head

/-! ## Runs -/

/-- Where nothing that waits takes the start of a grouped phrase, its words leave the reader as if
the phrase were one operand, for each operator that the end of the phrase is strong enough for. -/
theorem run_words {p : Phrase} (grouped : p.IsGrouped) {ws : List Waiting}
    (firm : IsFirm p.lead ws) :
    ∃ us y, run (ws, .empty) p.words = some (us, y) ∧ (0 < p.tail → y.isEmpty = false) ∧
      ∀ n ≤ p.tail, reduce n us y = reduce n ws p := by
  induction p generalizing ws with
  | empty => exact ⟨ws, .empty, rfl, fun pos => absurd pos (Nat.lt_irrefl 0), fun _ _ => rfl⟩
  | atom t => exact ⟨ws, .atom t, rfl, fun _ => rfl, fun _ _ => rfl⟩
  | prefixed op e ih =>
    obtain ⟨inner, weaker⟩ := grouped
    have waits : (Waiting.sign op).yieldsTo e.lead = false := by
      simp only [Waiting.yieldsTo, decide_eq_false_iff_not]
      omega
    obtain ⟨us, y, ran, filled, reduced⟩ := ih inner (IsFirm.cons ws waits)
    rw [Phrase.tail]
    refine ⟨us, y, ?_, fun pos => filled (by omega), ?_⟩
    · rw [Phrase.words, run_cons, step_sign]
      exact ran
    · intro n hn
      rw [Nat.le_min] at hn
      rw [reduced n hn.2, reduce_cons_of_yields ws e (by simpa [Waiting.yieldsTo] using hn.1)]
      rfl
  | tested e negated ih =>
    obtain ⟨inner, strong⟩ := grouped
    rw [Phrase.lead] at firm
    obtain ⟨us, y, ran, filled, reduced⟩ := ih inner (firm.mono (Nat.min_le_right ..))
    have here : y.isEmpty = false := filled (by omega)
    have whole : reduce 4 us y = (ws, e) :=
      (reduced 4 strong).trans ((firm.mono (Nat.min_le_left ..)).reduce_eq e)
    refine ⟨ws, .tested e negated, ?_, fun _ => rfl, fun _ _ => rfl⟩
    rw [Phrase.words, run_append, ran, Option.bind_some, run_cons, step_isNull negated here, whole]
    rfl
  | joined l j r ihl ihr =>
    obtain ⟨left, right, strong, weaker⟩ := grouped
    rw [Phrase.lead] at firm
    obtain ⟨us, y, ran, filled, reduced⟩ := ihl left (firm.mono (Nat.min_le_right ..))
    have here : y.isEmpty = true → j.precedence = 0 := by
      intro empty
      by_contra pos
      rw [filled (by omega)] at empty
      cases empty
    have whole : reduce j.precedence us y = (ws, l) :=
      (reduced _ strong).trans ((firm.mono (Nat.min_le_left ..)).reduce_eq l)
    have waits : (Waiting.joint l j).yieldsTo r.lead = false := by
      simp only [Waiting.yieldsTo, decide_eq_false_iff_not]
      omega
    obtain ⟨vs, z, ran', filled', reduced'⟩ := ihr right (IsFirm.cons ws waits)
    rw [Phrase.tail]
    refine ⟨vs, z, ?_, fun pos => filled' (by omega), ?_⟩
    · rw [Phrase.words, run_append, ran, Option.bind_some, run_cons, step_joint here, whole]
      exact ran'
    · intro n hn
      rw [Nat.le_min] at hn
      rw [reduced' n hn.2, reduce_cons_of_yields ws r (by simpa [Waiting.yieldsTo] using hn.1)]
      rfl
  | bracketed h b e ihh ihe =>
    obtain ⟨outer, head, inner⟩ := grouped
    have ran : run (ws, .empty) h.words = some (ws, h) := by
      cases hh : h.isEmpty with
      | true =>
        cases h <;> first | rfl | cases hh
      | false =>
        obtain ⟨lead, tail⟩ := lead_of_isHead head hh
        obtain ⟨us, y, ran, -, reduced⟩ := ihh outer (lead ▸ isFirm_ten ws)
        have same := reduced 10 (tail ▸ Nat.le_refl 10)
        rw [(isFirm_ten us).reduce_eq, (isFirm_ten ws).reduce_eq] at same
        rw [ran, same]
    have waits : (Waiting.bracket h b).yieldsTo 0 = false := rfl
    obtain ⟨us, y, ran', -, reduced⟩ :=
      ihe inner ((IsFirm.cons ws waits).mono (Nat.zero_le e.lead))
    have whole : reduce 0 us y = (.bracket h b :: ws, e) :=
      (reduced 0 (Nat.zero_le _)).trans ((IsFirm.cons ws waits).reduce_eq e)
    refine ⟨ws, .bracketed h b e, ?_, fun _ => rfl, fun _ _ => rfl⟩
    rw [Phrase.words, run_append, ran, Option.bind_some, run_cons, step, Option.bind_some,
      run_append, ran', Option.bind_some, run_cons, step_closing whole]
    rfl

end Reader

theorem IsReading.read_eq {ws : List Word} {p : Phrase} (h : IsReading ws p) :
    Reader.read ws = some p := by
  have firm : Reader.IsFirm p.lead [] := fun w hw => by cases hw
  obtain ⟨us, y, ran, -, reduced⟩ := Reader.run_words h.grouped firm
  have whole : Reader.reduce 0 us y = ([], p) := reduced 0 (Nat.zero_le _)
  rw [h.words] at ran
  unfold Reader.read
  rw [ran]
  dsimp only
  rw [whole]

/-- SQL is not ambiguous: words have at most one reading. -/
theorem IsReading.unique {ws : List Word} {p q : Phrase} (hp : IsReading ws p)
    (hq : IsReading ws q) : p = q :=
  Option.some.inj (hp.read_eq.symm.trans hq.read_eq)

end SemanticLayer.Sql
