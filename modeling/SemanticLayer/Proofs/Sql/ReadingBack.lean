import Mathlib.Algebra.Ring.Int.Defs
import SemanticLayer.Proofs.Sql.Regrouping

/-!
# Phrases that read back

The words of a phrase read back if their reading says what the phrase says: the same up to
parentheses and the grouping of chains.

* `Phrase.normal`: a phrase without its parentheses and with its chains grouped from the left;
* `IsBalanced`: brackets in pairs, which tells where a bracketed phrase ends;
* `Phrase.eq_of_normal`: the words and the normal form determine a phrase whose chains are grouped
  from the left, so its parentheses cannot stand for another grouping;
* `ReadsAs`, `readsAs_words_iff`: the words say what the phrase says exactly if it fits.
-/

namespace SemanticLayer.Sql

/-! ## Balanced words -/

def Word.depth : Word → Int
  | .opening _ => 1
  | .closing _ => -1
  | _ => 0

/-- How many brackets are open at the end. -/
def depth (ws : List Word) : Int := (ws.map Word.depth).sum

theorem depth_append (us vs : List Word) : depth (us ++ vs) = depth us + depth vs := by
  simp [depth]

theorem depth_cons (w : Word) (ws : List Word) : depth (w :: ws) = w.depth + depth ws := by
  simp [depth]

structure IsBalanced (ws : List Word) : Prop where
  total : depth ws = 0
  before : ∀ us vs, ws = us ++ vs → 0 ≤ depth us

namespace IsBalanced

theorem nil : IsBalanced [] where
  total := rfl
  before us vs h := by
    rw [(List.append_eq_nil_iff.mp h.symm).1]
    exact Int.le_refl _

theorem append {ws xs : List Word} (hw : IsBalanced ws) (hx : IsBalanced xs) :
    IsBalanced (ws ++ xs) where
  total := by rw [depth_append, hw.total, hx.total, Int.add_zero]
  before us vs h := by
    rcases List.append_eq_append_iff.mp h with ⟨as, rfl, eq⟩ | ⟨bs, eq, -⟩
    · rw [depth_append, hw.total, Int.zero_add]
      exact hx.before as vs eq
    · exact hw.before us bs eq

theorem cons {w : Word} {ws : List Word} (hw : w.depth = 0) (h : IsBalanced ws) :
    IsBalanced (w :: ws) where
  total := by rw [depth_cons, hw, h.total, Int.add_zero]
  before us vs eq := by
    cases us with
    | nil => exact Int.le_refl _
    | cons u us =>
      rw [List.cons_append, List.cons.injEq] at eq
      rw [depth_cons, ← eq.1, hw, Int.zero_add]
      exact h.before us vs eq.2

/-- Within a pair of brackets at least one is open. -/
theorem one_le_depth {ws us vs : List Word} {b c : Bracket} (h : IsBalanced ws)
    (eq : .opening b :: (ws ++ [.closing c]) = us ++ vs) (hu : us ≠ []) (hv : vs ≠ []) :
    1 ≤ depth us := by
  cases us with
  | nil => exact absurd rfl hu
  | cons u us =>
    rw [List.cons_append, List.cons.injEq] at eq
    have inner : 0 ≤ depth us := by
      rcases List.append_eq_append_iff.mp eq.2 with ⟨as, rfl, last⟩ | ⟨bs, eq, -⟩
      · rcases List.append_eq_singleton_iff.mp last.symm with ⟨rfl, -⟩ | ⟨-, rfl⟩
        · rw [List.append_nil]
          exact Int.le_of_eq h.total.symm
        · exact absurd rfl hv
      · exact h.before us bs eq
    rw [depth_cons, ← eq.1, Word.depth]
    omega

theorem wrap {ws : List Word} (h : IsBalanced ws) (b : Bracket) :
    IsBalanced (.opening b :: (ws ++ [.closing b])) where
  total := by
    rw [depth_cons, depth_append, h.total]
    rfl
  before us vs eq := by
    by_cases hu : us = []
    · rw [hu]
      exact Int.le_refl _
    · by_cases hv : vs = []
      · rw [hv, List.append_nil] at eq
        rw [← eq, depth_cons, depth_append, h.total]
        exact Int.le_refl _
      · exact Int.le_trans (by decide) (h.one_le_depth eq hu hv)

end IsBalanced

/-- How many words there are, parentheses not counted. -/
def wordCount (ws : List Word) : Nat :=
  ws.countP fun w => w != .opening .paren && w != .closing .paren

theorem wordCount_append (us vs : List Word) :
    wordCount (us ++ vs) = wordCount us + wordCount vs := List.countP_append

theorem wordCount_cons_of_depth {w : Word} (h : w.depth = 0) (ws : List Word) :
    wordCount (w :: ws) = wordCount ws + 1 := by
  cases w with
  | opening b => cases h
  | closing b => cases h
  | _ => simp [wordCount]

namespace Phrase

variable {l r p q e : Phrase} {j k : Joint} {b : Bracket}

theorem words_isBalanced (p : Phrase) : IsBalanced p.words := by
  induction p with
  | empty => exact .nil
  | atom t => exact .cons rfl .nil
  | prefixed op e ih => exact .cons (by cases op <;> rfl) ih
  | tested e negated ih => exact ih.append (.cons rfl .nil)
  | joined l j r ihl ihr => exact ihl.append (.cons rfl ihr)
  | bracketed h b e ihh ihe => exact ihh.append (ihe.wrap b)

theorem words_eq_nil (h : p.words = []) : p = .empty := by
  cases p with
  | empty => rfl
  | _ => simp [words] at h

/-- A phrase that starts with a bracket and ends with the one that closes it. -/
theorem eq_bracketed_of_words {ws : List Word} (h : IsBalanced ws)
    (eq : p.words = .opening b :: (ws ++ [.closing b])) :
    ∃ e, p = .bracketed .empty b e ∧ e.words = ws := by
  cases p with
  | empty => cases eq
  | atom t => simp [words] at eq
  | prefixed op e => cases op <;> simp [words, UnaryOperator.word] at eq
  | tested e negated =>
    rw [words, ← List.cons_append] at eq
    have last := (List.append_inj' eq rfl).2
    simp at last
  | joined l j r =>
    rw [words] at eq
    by_cases hr : r.words = []
    · rw [hr, ← List.cons_append] at eq
      have last := (List.append_inj' eq rfl).2
      simp at last
    · have parts : .opening b :: (ws ++ [.closing b]) = (l.words ++ [.joint j]) ++ r.words := by
        rw [← eq, List.append_assoc, List.singleton_append]
      have inside := h.one_le_depth parts (by simp) hr
      rw [depth_append, l.words_isBalanced.total] at inside
      simp [depth, Word.depth] at inside
  | bracketed h' b' e =>
    rw [words] at eq
    by_cases hh : h'.words = []
    · rw [hh, List.nil_append, List.cons.injEq, Word.opening.injEq] at eq
      obtain ⟨rfl, eq⟩ := eq
      exact ⟨e, by rw [words_eq_nil hh], (List.append_inj' eq rfl).1⟩
    · have inside : 1 ≤ depth h'.words := h.one_le_depth eq.symm hh (by simp)
      rw [h'.words_isBalanced.total] at inside
      simp at inside

/-! ## Normal forms -/

/-- Whether the phrase is one expression, not the parts of a list. -/
def isSingle : Phrase → Bool
  | .empty => false
  | .joined _ (.separator _) _ => false
  | _ => true

/-- A bracket, without it if it is a pair of parentheses around an expression. -/
def enclose : Phrase → Bracket → Phrase → Phrase
  | .empty, .paren, e => if e.isSingle then e else e.group
  | h, b, e => .bracketed h b e

def normal : Phrase → Phrase
  | .empty => .empty
  | .atom t => .atom t
  | .prefixed op e => .prefixed op e.normal
  | .tested e negated => .tested e.normal negated
  | .joined l j r => l.normal.attach j r.normal
  | .bracketed h b e => enclose h.normal b e.normal

def isGroup : Phrase → Bool
  | .bracketed .empty .paren _ => true
  | _ => false

def size (p : Phrase) : Nat := wordCount p.words

theorem attach_attach (h : j.chains k = true) (l m r : Phrase) :
    l.attach j (m.attach k r) = (l.attach j m).attach k r := by
  induction r with
  | joined x i y ih _ =>
    rw [attach]
    split
    · rename_i hi
      rw [attach_joined _ _ (by rw [Joint.chains_congr hi, h]), ih, attach_joined _ _ hi]
    · rename_i hi
      have ends : (Phrase.joined x i y).continues k = false := Bool.eq_false_iff.mpr hi
      rw [attach_joined _ _ h, attach_of_not_continues ends]
  | _ => exact attach_joined _ _ h

theorem normal_attach (l : Phrase) (j : Joint) (r : Phrase) :
    (l.attach j r).normal = l.normal.attach j r.normal := by
  induction r with
  | joined m k r ih _ =>
    rw [attach]
    split
    · rename_i h
      rw [normal, ih, normal, attach_attach h]
    · rfl
  | _ => rfl

theorem normal_chained (p : Phrase) : p.chained.normal = p.normal := by
  induction p with
  | empty => rfl
  | atom t => rfl
  | prefixed op e ih => rw [chained, normal, normal, ih]
  | tested e negated ih => rw [chained, normal, normal, ih]
  | joined l j r ihl ihr => rw [chained, normal_attach, normal, ihl, ihr]
  | bracketed h b e ihh ihe => rw [chained, normal, normal, ihh, ihe]

theorem enclose_empty_paren (e : Phrase) :
    enclose .empty .paren e = if e.isSingle then e else e.group := rfl

theorem enclose_eq (h e : Phrase) (b : Bracket) (other : h ≠ .empty ∨ b ≠ .paren) :
    enclose h b e = .bracketed h b e := by
  cases h with
  | empty => cases b <;> first | rfl | simp at other
  | _ => rfl

theorem isSingle_enclose (h : Phrase) (b : Bracket) (e : Phrase) :
    (enclose h b e).isSingle = true := by
  unfold enclose
  split
  · split
    · assumption
    · rfl
  · rfl

theorem isSingle_attach (l : Phrase) (j : Joint) (r : Phrase) :
    (l.attach j r).isSingle = (Phrase.joined l j r).isSingle := by
  induction r with
  | joined m k r ih _ =>
    rw [attach]
    split
    · rename_i h
      rcases Joint.chains_iff.mp h with ⟨s, t, rfl, rfl⟩ | ⟨op, rfl, rfl, -⟩ <;> rfl
    · cases j <;> rfl
  | _ => rfl

theorem isSingle_normal (p : Phrase) : p.normal.isSingle = p.isSingle := by
  cases p with
  | joined l j r =>
    rw [normal, isSingle_attach]
    cases j <;> rfl
  | bracketed h b e => exact isSingle_enclose ..
  | _ => rfl

theorem normal_eq_empty (h : p.normal = .empty) : p = .empty := by
  cases p with
  | empty => rfl
  | joined l j r =>
    obtain ⟨m, k, x, eq, -⟩ := exists_attach_eq l.normal j r.normal
    rw [normal, eq] at h
    cases h
  | bracketed g b e =>
    have single := isSingle_enclose g.normal b e.normal
    rw [normal] at h
    rw [h] at single
    cases single
  | _ => cases h

theorem normal_bracketed {h : Phrase} (other : (Phrase.bracketed h b e).isGroup = false) :
    (Phrase.bracketed h b e).normal = .bracketed h.normal b e.normal := by
  refine enclose_eq _ _ _ ?_
  by_contra both
  rw [not_or, not_not, not_not] at both
  obtain ⟨empty, rfl⟩ := both
  rw [normal_eq_empty empty] at other
  cases other

/-- Only parentheses around a list stay. -/
theorem isGroup_of_normal (h : p.normal = q.group) : p.isGroup = true := by
  by_contra other
  rw [Bool.not_eq_true] at other
  cases p with
  | joined l j r =>
    obtain ⟨m, k, x, eq, -⟩ := exists_attach_eq l.normal j r.normal
    rw [normal, eq] at h
    cases h
  | bracketed g b e =>
    rw [normal_bracketed other] at h
    simp only [bracketed.injEq] at h
    obtain ⟨empty, rfl, -⟩ := h
    rw [normal_eq_empty empty] at other
    cases other
  | _ => cases h

theorem exists_of_isGroup (h : p.isGroup = true) : ∃ e, p = group e := by
  cases p with
  | bracketed g b e =>
    cases g <;> cases b <;> first | exact ⟨e, rfl⟩ | cases h
  | _ => cases h

/-- Parentheses around everything can be seen from the words. -/
theorem exists_group_of_words (h : p.words = e.group.words) :
    ∃ e' : Phrase, p = e'.group ∧ e'.words = e.words :=
  eq_bracketed_of_words e.words_isBalanced h

/-! ## Sizes -/

theorem size_joined (l : Phrase) (j : Joint) (r : Phrase) :
    (Phrase.joined l j r).size = l.size + (r.size + 1) := by
  rw [size, words, wordCount_append, wordCount_cons_of_depth rfl, size, size]

theorem size_attach (l : Phrase) (j : Joint) (r : Phrase) :
    (l.attach j r).size = l.size + (r.size + 1) := by
  rw [← size_joined, size, size, words_attach, words]

theorem size_bracketed (h : Phrase) (b : Bracket) (e : Phrase) :
    (Phrase.bracketed h b e).size = h.size + (if b = .paren then 0 else 2) + e.size := by
  cases b <;> simp [size, words, wordCount] <;> omega

theorem size_enclose (h : Phrase) (b : Bracket) (e : Phrase) :
    (enclose h b e).size = (Phrase.bracketed h b e).size := by
  unfold enclose
  split
  · split
    · rw [size_bracketed]
      simp [size, words, wordCount]
    · rfl
  · rfl

/-- The normal form has all words but the parentheses. -/
theorem size_normal (p : Phrase) : p.normal.size = p.size := by
  induction p with
  | empty => rfl
  | atom t => rfl
  | prefixed op e ih =>
    have sign : op.word.depth = 0 := by cases op <;> rfl
    rw [normal, size, words, wordCount_cons_of_depth sign, size, words,
      wordCount_cons_of_depth sign]
    exact congrArg (· + 1) ih
  | tested e negated ih =>
    rw [normal, size, words, wordCount_append, size, words, wordCount_append]
    exact congrArg (· + 1) ih
  | joined l j r ihl ihr => rw [normal, size_attach, size_joined, ihl, ihr]
  | bracketed h b e ihh ihe =>
    rw [normal, size_enclose, size_bracketed, size_bracketed, ihh, ihe]

/-! ## Words and normal form -/

theorem attach_inj_of_not_continues {l' r' : Phrase} (hr : r.continues j = false)
    (h : l.attach j r = l'.attach j r') (hs : r'.size ≤ r.size) : l = l' ∧ r = r' := by
  rw [attach_of_not_continues hr] at h
  cases hr' : r'.continues j with
  | false =>
    rw [attach_of_not_continues hr', joined.injEq] at h
    exact ⟨h.1, h.2.2⟩
  | true =>
    cases r' with
    | joined m k x =>
      rw [attach_joined _ _ hr', joined.injEq] at h
      rw [size_joined, h.2.2] at hs
      omega
    | _ => cases hr'

/-- An attached phrase can be taken apart where the size of its right side is known. -/
theorem attach_inj {l' r' : Phrase} (h : l.attach j r = l'.attach j r') (hs : r.size = r'.size) :
    l = l' ∧ r = r' := by
  induction r generalizing r' with
  | joined m k x ih _ =>
    cases hr : (Phrase.joined m k x).continues j with
    | false => exact attach_inj_of_not_continues hr h (Nat.le_of_eq hs.symm)
    | true =>
      cases hr' : r'.continues j with
      | false =>
        obtain ⟨hl, hr⟩ := attach_inj_of_not_continues hr' h.symm (Nat.le_of_eq hs)
        exact ⟨hl.symm, hr.symm⟩
      | true =>
        cases r' with
        | joined m' k' x' =>
          rw [attach_joined _ _ hr, attach_joined _ _ hr', joined.injEq] at h
          obtain ⟨h, rfl, rfl⟩ := h
          rw [size_joined, size_joined, Nat.add_right_cancel_iff] at hs
          obtain ⟨rfl, rfl⟩ := ih h hs
          exact ⟨rfl, rfl⟩
        | _ => cases hr'
  | _ => exact attach_inj_of_not_continues rfl h (Nat.le_of_eq hs.symm)

theorem size_right_le {m x : Phrase} (h : l.attach j r = .joined m k x) : x.size ≤ r.size := by
  cases hr : r.continues j with
  | false =>
    rw [attach_of_not_continues hr, joined.injEq] at h
    exact Nat.le_of_eq (congrArg size h.2.2.symm)
  | true =>
    cases r with
    | joined m' k' x' =>
      rw [attach_joined _ _ hr, joined.injEq] at h
      rw [size_joined, h.2.2]
      omega
    | _ => cases hr

theorem continues_normal (h : p.isGroup = false) : p.normal.continues j = p.continues j := by
  cases p with
  | joined l k r =>
    obtain ⟨m, k', x, eq, chains⟩ := exists_attach_eq l.normal k r.normal
    rw [normal, eq, continues, continues, chains]
  | bracketed g b e =>
    rw [normal_bracketed h]
    rfl
  | _ => rfl

/-- The right side of a phrase takes all that follows the joint: the right side of another phrase
with the same words and the same normal form is no shorter. -/
theorem length_right_le {l' r' : Phrase} {j' : Joint} (chained : r.continues j = false)
    (hw : (Phrase.joined l j r).words = (Phrase.joined l' j' r').words)
    (hn : (Phrase.joined l j r).normal = (Phrase.joined l' j' r').normal) :
    r.words.length ≤ r'.words.length := by
  by_contra shorter
  obtain ⟨t, ht⟩ : ∃ t, r.words = t ++ .joint j' :: r'.words := by
    rcases List.append_eq_append_iff.mp hw with ⟨as, -, eq⟩ | ⟨bs, -, eq⟩
    · cases as with
      | nil =>
        rw [List.nil_append, List.cons.injEq] at eq
        rw [eq.2] at shorter
        exact absurd (Nat.le_refl _) shorter
      | cons a as =>
        rw [List.cons_append, List.cons.injEq] at eq
        exact ⟨as, eq.2⟩
    · have := congrArg List.length eq
      simp only [List.length_append, List.length_cons] at this
      omega
  cases hg : r.isGroup with
  | true =>
    obtain ⟨e, rfl⟩ := exists_of_isGroup hg
    by_cases hr' : r'.words = []
    · rw [hr', words, words, List.nil_append, ← List.cons_append] at ht
      simpa using (List.append_inj' ht rfl).2
    · rw [← List.singleton_append, ← List.append_assoc] at ht
      have inside := e.words_isBalanced.one_le_depth ht (by simp) hr'
      have total := congrArg depth ht
      rw [depth_append, (words_isBalanced _).total, (words_isBalanced r').total] at total
      omega
  | false =>
    rw [normal, normal, attach_of_not_continues ((continues_normal hg).trans chained)] at hn
    have larger := size_right_le hn.symm
    rw [size_normal, size_normal, size, ht, wordCount_append, wordCount_cons_of_depth rfl] at larger
    change _ ≤ wordCount r'.words at larger
    omega

theorem isGroup_congr (h : p.words = q.words) : p.isGroup = q.isGroup := by
  suffices forth : ∀ {p q : Phrase}, p.words = q.words → p.isGroup = true → q.isGroup = true from
    Bool.eq_iff_iff.mpr ⟨forth h, forth h.symm⟩
  intro p q h hp
  obtain ⟨e, rfl⟩ := exists_of_isGroup hp
  obtain ⟨e', rfl, -⟩ := exists_group_of_words h.symm
  rfl

/-- The head of a bracket ends where the head of another one with the same words and the same
normal form ends. -/
theorem length_head_le {h h' e' : Phrase} {b' : Bracket}
    (hw : (Phrase.bracketed h b e).words = (Phrase.bracketed h' b' e').words) :
    h'.words.length ≤ h.words.length := by
  by_contra longer
  rw [words, words] at hw
  rcases List.append_eq_append_iff.mp hw with ⟨as, eq, rest⟩ | ⟨bs, eq, -⟩
  · have more : as ≠ [] := by
      rintro rfl
      rw [eq, List.append_nil] at longer
      exact longer (Nat.le_refl _)
    have inside := e.words_isBalanced.one_le_depth rest more (by simp)
    have total := congrArg depth eq
    rw [depth_append, h.words_isBalanced.total, h'.words_isBalanced.total] at total
    omega
  · have := congrArg List.length eq
    simp only [List.length_append] at this
    omega

/-- A pair of parentheses that the normal form keeps is around a list, and so is the one it stands
for. -/
theorem normal_ne_group (hw : e.words = q.words) (list : q.isSingle = false) :
    e.normal ≠ q.normal.group := by
  intro hn
  have group := (isGroup_congr hw).symm.trans (isGroup_of_normal hn)
  obtain ⟨x, rfl⟩ := exists_of_isGroup group
  cases list

theorem ctorIdx_normal (h : p.isGroup = false) : Phrase.ctorIdx p.normal = Phrase.ctorIdx p := by
  cases p with
  | joined l j r =>
    obtain ⟨m, k, x, eq, -⟩ := exists_attach_eq l.normal j r.normal
    rw [normal, eq]
    rfl
  | bracketed g b e =>
    rw [normal_bracketed h]
    rfl
  | _ => rfl

theorem ctorIdx_eq (hw : p.words = q.words) (hn : p.normal = q.normal) (h : p.isGroup = false) :
    Phrase.ctorIdx p = Phrase.ctorIdx q := by
  rw [← ctorIdx_normal h, hn, ctorIdx_normal ((isGroup_congr hw).symm.trans h)]

/-- The words and the normal form determine a phrase whose chains are grouped from the left. -/
theorem eq_of_normal (hp : p.IsChained) (hq : q.IsChained) (hw : p.words = q.words)
    (hn : p.normal = q.normal) : p = q := by
  induction p generalizing q with
  | empty => exact (words_eq_nil hw.symm).symm
  | atom t =>
    have same := ctorIdx_eq hw hn rfl
    cases q <;> cases same
    exact hn
  | prefixed op e ih =>
    have same := ctorIdx_eq hw hn rfl
    cases q <;> cases same
    rename_i op' e'
    rw [normal, normal, prefixed.injEq] at hn
    rw [words, words, List.cons.injEq] at hw
    rw [hn.1, ih (q := e') hp hq hw.2 hn.2]
  | tested e negated ih =>
    have same := ctorIdx_eq hw hn rfl
    cases q <;> cases same
    rename_i e' negated'
    rw [normal, normal, tested.injEq] at hn
    rw [words, words] at hw
    rw [hn.2, ih (q := e') hp hq (List.append_inj' hw rfl).1 hn.1]
  | joined l j r ihl ihr =>
    have same := ctorIdx_eq hw hn rfl
    cases q <;> cases same
    rename_i l' j' r'
    have length : (Word.joint j :: r.words).length = (Word.joint j' :: r'.words).length := by
      have := length_right_le hp.2.2 hw hn
      have := length_right_le hq.2.2 hw.symm hn.symm
      simp only [List.length_cons]
      omega
    obtain ⟨left, right⟩ := List.append_inj' hw length
    rw [List.cons.injEq, Word.joint.injEq] at right
    obtain ⟨rfl, right⟩ := right
    have size : r.normal.size = r'.normal.size := by
      rw [size_normal, size_normal, Phrase.size, right, Phrase.size]
    obtain ⟨nl, nr⟩ := attach_inj hn size
    rw [ihl hp.1 hq.1 left nl, ihr hp.2.1 hq.2.1 right nr]
  | bracketed h b e ihh ihe =>
    cases group : (Phrase.bracketed h b e).isGroup with
    | true =>
      obtain ⟨e', eq⟩ := exists_of_isGroup group
      rw [bracketed.injEq] at eq
      obtain ⟨rfl, rfl, rfl⟩ := eq
      obtain ⟨x, rfl, hx⟩ := exists_group_of_words hw.symm
      simp only [normal, enclose_empty_paren, isSingle_normal] at hn
      have inner : e.normal = x.normal := by
        cases he : e.isSingle <;> cases hx' : x.isSingle <;>
          simp only [he, hx', Bool.false_eq_true, if_true, if_false] at hn
        · rw [bracketed.injEq] at hn
          exact hn.2.2
        · exact absurd hn.symm (normal_ne_group hx he)
        · exact absurd hn (normal_ne_group hx.symm hx')
        · exact hn
      rw [ihe hp.2 hq.2 hx.symm inner]
    | false =>
      have same := ctorIdx_eq hw hn group
      cases q <;> cases same
      rename_i h' b' e'
      rw [normal_bracketed group, normal_bracketed ((isGroup_congr hw).symm.trans group),
        bracketed.injEq] at hn
      have length : h.words.length = h'.words.length :=
        Nat.le_antisymm (length_head_le hw.symm) (length_head_le hw)
      obtain ⟨head, rest⟩ := List.append_inj hw length
      rw [List.cons.injEq] at rest
      rw [ihh hp.1 hq.1 head hn.1, hn.2.1, ihe hp.2 hq.2 (List.append_inj' rest.2 rfl).1 hn.2.2]

/-- Whether two phrases are the same up to parentheses and the grouping of chains. -/
def Same (p q : Phrase) : Prop := p.normal = q.normal

end Phrase

/-- Whether the words can be read, and only as the phrase says. -/
def ReadsAs (ws : List Word) (p : Phrase) : Prop :=
  (∃ q, IsReading ws q) ∧ ∀ q, IsReading ws q → q.Same p

theorem readsAs_iff {ws : List Word} {p : Phrase} :
    ReadsAs ws p ↔ ∃ q, IsReading ws q ∧ q.Same p := by
  constructor
  · rintro ⟨⟨q, reading⟩, all⟩
    exact ⟨q, reading, all q reading⟩
  · rintro ⟨q, reading, same⟩
    exact ⟨⟨q, reading⟩, fun q' reading' => reading'.unique reading ▸ same⟩

theorem readsAs_congr {p q : Phrase} (h : p.Same q) (ws : List Word) :
    ReadsAs ws p ↔ ReadsAs ws q := by
  have both (r : Phrase) : r.Same p ↔ r.Same q := by rw [Phrase.Same, Phrase.Same, h]
  simp only [ReadsAs, both]

/-- The words of a phrase say what the phrase says exactly if it fits. -/
theorem readsAs_words_iff (p : Phrase) : ReadsAs p.words p ↔ p.Fits := by
  rw [readsAs_iff, ← p.chained_isGrouped_iff]
  constructor
  · rintro ⟨q, reading, same⟩
    have eq : q = p.chained :=
      Phrase.eq_of_normal reading.grouped.isChained p.chained_isChained
        (reading.words.trans p.words_chained.symm) (same.trans p.normal_chained.symm)
    exact eq ▸ reading.grouped
  · intro grouped
    exact ⟨p.chained, ⟨grouped, p.words_chained⟩, p.normal_chained⟩

end SemanticLayer.Sql
