import SemanticLayer.Proofs.Collections.Entries
import SemanticLayer.Proofs.Formula.Reading

/-!
# References of formulas

What a formula names stands in its tokens, one after another.

* `Quotes`: where references stand in tokens;
* `mem_usedSlugs`: the slugs of a formula are those of its references in scope;
* `usedSlugs_names`: they are at most as many as it has characters, and none is a formula itself;
* `usedSlugs_unquoted`: none has a double quote in it.
-/

namespace SemanticLayer.Formula

open Grammar

namespace Phrase

mutual

def refs : Phrase → List TaxonRef
  | .integer _ => []
  | .float _ => []
  | .bool _ => []
  | .singleQuoted _ => []
  | .doubleQuoted _ => []
  | .taxon r => [r]
  | .call _ args => refsOf args
  | .paren p => p.refs
  | .binary _ l r => l.refs ++ r.refs
  | .not p => p.refs
  | .isNull p _ => p.refs

def refsOf : List Phrase → List TaxonRef
  | [] => []
  | p :: ps => p.refs ++ refsOf ps

end

@[simp] theorem refs_ofDigits (negative : Bool) (s : String) : (ofDigits negative s).refs = [] := by
  unfold ofDigits Tree.ofDigits
  dsimp only
  rw [apply_ite Tree.phrase, apply_ite refs]
  exact ite_self _

@[simp] theorem refs_ofDecimal (negative : Bool) (s : String) :
    (ofDecimal negative s).refs = [] := rfl

end Phrase

namespace Tree

mutual

theorem refs_phrase : (t : Tree) → t.phrase.refs = t.taxonRefs
  | .integer .. => rfl
  | .float .. => rfl
  | .bool .. => rfl
  | .singleQuoted .. => rfl
  | .doubleQuoted .. => rfl
  | .taxon .. => rfl
  | .call _ args _ => refsOf_phrases args
  | .paren t _ => refs_phrase t
  | .binary _ l r _ => congrArg₂ (· ++ ·) (refs_phrase l) (refs_phrase r)
  | .not t _ => refs_phrase t
  | .isNull t _ _ => refs_phrase t

theorem refsOf_phrases : (ts : List Tree) → Phrase.refsOf (phrases ts) = taxonRefsOf ts
  | [] => rfl
  | t :: ts => congrArg₂ (· ++ ·) (refs_phrase t) (refsOf_phrases ts)

end

end Tree

/-- References as they stand in tokens, with others around them. -/
inductive Quotes : List TaxonRef → List Token → Prop
  | nil : Quotes [] []
  | skip {refs : List TaxonRef} {ts : List Token} (t : Token) (h : Quotes refs ts) :
      Quotes refs (t :: ts)
  | taxon {refs : List TaxonRef} {ts : List Token} (dataSource? : Option String) (first : String)
      (parts : List String) (optional : Bool) (h : Quotes refs ts) :
      Quotes (⟨dataSource?, ":".intercalate (first :: parts), optional⟩ :: refs)
        (taxonTokens dataSource? first parts optional ++ ts)

namespace Quotes

variable {refs refs' : List TaxonRef} {ts us : List Token}

theorem none : (ts : List Token) → Quotes [] ts
  | [] => .nil
  | t :: ts => .skip t (none ts)

theorem append (h : Quotes refs ts) (h' : Quotes refs' us) : Quotes (refs ++ refs') (ts ++ us) := by
  induction h with
  | nil => exact h'
  | skip t _ ih => exact .skip t ih
  | taxon dataSource? first parts optional _ ih =>
    rw [List.append_assoc]
    exact .taxon dataSource? first parts optional ih

theorem length_le (h : Quotes refs ts) : refs.length ≤ ts.length := by
  induction h with
  | nil => exact Nat.le_refl 0
  | skip _ _ ih => exact Nat.le_succ_of_le ih
  | taxon => 
    simp [taxonTokens]
    omega

/-- What a reference starts with is one of the tokens. -/
theorem words (h : Quotes refs ts) {r : TaxonRef} (hr : r ∈ refs) :
    ∃ s rest, .word s ∈ ts ∧ r.slug.toList = s.toList ++ rest := by
  induction h with
  | nil => cases hr
  | skip t _ ih =>
    obtain ⟨s, rest, hs, same⟩ := ih hr
    exact ⟨s, rest, List.mem_cons_of_mem _ hs, same⟩
  | taxon dataSource? first parts optional _ ih =>
    rcases List.mem_cons.1 hr with rfl | hr
    · cases dataSource? with
      | some ns =>
        refine ⟨ns, '|' :: (":".intercalate (first :: parts)).toList, by simp [taxonTokens], ?_⟩
        simp [TaxonRef.slug, Slug.inDataSource]
      | none =>
        obtain ⟨rest, same⟩ : ∃ rest,
            (":".intercalate (first :: parts)).toList = first.toList ++ rest := by
          cases parts with
          | nil => exact ⟨[], by simp⟩
          | cons part parts =>
            exact ⟨':' :: (":".intercalate (part :: parts)).toList, by simp⟩
        exact ⟨first, rest, by simp [taxonTokens], same⟩
    · obtain ⟨s, rest, hs, same⟩ := ih hr
      exact ⟨s, rest, List.mem_append_right _ hs, same⟩

theorem not_mem_intercalate {c : Char} (colon : c ≠ ':') (first : String) (parts : List String)
    (h : ∀ part ∈ first :: parts, c ∉ part.toList) :
    c ∉ (":".intercalate (first :: parts)).toList := by
  induction parts generalizing first with
  | nil => simpa using h
  | cons part parts ih =>
    have rest := ih part fun q hq => h q (List.mem_cons_of_mem _ hq)
    have start := h first (List.mem_cons_self ..)
    rw [String.toList_intercalate, List.map_cons] at rest ⊢
    simpa [List.intercalate_cons_cons, start, colon] using rest

/-- A character that is no separator is in a reference only if it is in one of the tokens. -/
theorem not_mem_slug (h : Quotes refs ts) {c : Char} (colon : c ≠ ':') (bar : c ≠ '|')
    (words : ∀ w, .word w ∈ ts → c ∉ w.toList) {r : TaxonRef} (hr : r ∈ refs) :
    c ∉ r.slug.toList := by
  induction h with
  | nil => cases hr
  | skip t _ ih => exact ih (fun w hw => words w (List.mem_cons_of_mem _ hw)) hr
  | taxon dataSource? first parts optional _ ih =>
    rcases List.mem_cons.1 hr with rfl | hr
    · have name : c ∉ (":".intercalate (first :: parts)).toList := by
        refine not_mem_intercalate colon first parts fun part hp => words part ?_
        rcases List.mem_cons.1 hp with rfl | hp
        · simp [taxonTokens]
        · simp [taxonTokens, partTokens, hp]
      cases dataSource? with
      | none => exact name
      | some ns =>
        have source : c ∉ ns.toList := words ns (by simp [taxonTokens])
        simpa [TaxonRef.slug, Slug.inDataSource, source, bar] using name
    · exact ih (fun w hw => words w (List.mem_append_right _ hw)) hr

/-- Tokens after the last reference. -/
theorem before (h : Quotes refs ts) (us : List Token) : Quotes refs (ts ++ us) :=
  List.append_nil refs ▸ h.append (none us)

theorem alone (dataSource? : Option String) (first : String) (parts : List String)
    (optional : Bool) :
    Quotes [⟨dataSource?, ":".intercalate (first :: parts), optional⟩]
      (taxonTokens dataSource? first parts optional) :=
  List.append_nil (taxonTokens ..) ▸ nil.taxon dataSource? first parts optional

theorem number {p : Phrase} (h : Number ts p) : Quotes p.refs ts := by
  cases h <;> simp only [Phrase.refs_ofDigits, Phrase.refs_ofDecimal] <;> exact none _

theorem last {p : Phrase} (h : Quotes p.refs ts) : Quotes (Phrase.refsOf [p]) ts := by
  rwa [Phrase.refsOf, Phrase.refsOf, List.append_nil]

end Quotes

namespace Grammar

mutual

theorem atom_quotes {ts : List Token} {p : Phrase} : Atom ts p → Quotes p.refs ts
  | .callEmpty _ => .none _
  | .call _ h => (((arguments_quotes h).before [.closeParen]).skip .openParen).skip _
  | .taxon dataSource? first parts optional => .alone dataSource? first parts optional
  | .truth _ => .none _
  | .paren h => ((expression_quotes h).before [.closeParen]).skip .openParen
  | .singleQuoted _ => .none _
  | .doubleQuoted _ => .none _
  | .number h => .number h

theorem arguments_quotes {ts : List Token} {ps : List Phrase} :
    Arguments ts ps → Quotes (Phrase.refsOf ps) ts
  | .last h => (expression_quotes h).last
  | .more h further => (expression_quotes h).append ((arguments_quotes further).skip .comma)

theorem operand_quotes {ts : List Token} {p : Phrase} : Operand ts p → Quotes p.refs ts
  | .atom h => atom_quotes h
  | .not h => (operand_quotes h).skip .not

theorem product_quotes {ts : List Token} {p : Phrase} : Product ts p → Quotes p.refs ts
  | .operand h => operand_quotes h
  | .operation left _ right => (product_quotes left).append ((operand_quotes right).skip _)

theorem sum_quotes {ts : List Token} {p : Phrase} : Sum ts p → Quotes p.refs ts
  | .product h => product_quotes h
  | .operation left _ right => (sum_quotes left).append ((product_quotes right).skip _)

theorem expression_quotes {ts : List Token} {p : Phrase} : Expression ts p → Quotes p.refs ts
  | .sum h => sum_quotes h
  | .operation left _ right => (expression_quotes left).append ((sum_quotes right).skip _)
  | .isNull h => (expression_quotes h).before _
  | .isNotNull h => (expression_quotes h).before _

end

end Grammar

/-! ## The slugs of a text -/

theorem UsedSlugs.mem_all {u : UsedSlugs} {s : String} :
    s ∈ u.all ↔ s ∈ u.required ∨ s ∈ u.optional := SortedSet.mem_cup

variable {text : String} {dataSources? : Option NameSet} {used : UsedSlugs} {slug : String}

theorem exists_usedSlugs_iff :
    (∃ used, usedSlugs text dataSources? = .ok used) ↔ ∃ t, parse text = .ok t := by
  unfold usedSlugs
  constructor
  · rintro ⟨_, h⟩
    obtain ⟨t, read, _⟩ := Result.bind_eq_ok.1 h
    exact ⟨t, read⟩
  · rintro ⟨t, read⟩
    exact ⟨_, by rw [read]; rfl⟩

theorem mem_foldl_add {refs : List TaxonRef} {u : UsedSlugs} {s : String} :
    (s ∈ (refs.foldl (fun u r => u.add r.slug r.optional) u).required ↔
      (∃ r ∈ refs, r.optional = false ∧ r.slug = s) ∨ s ∈ u.required) ∧
    (s ∈ (refs.foldl (fun u r => u.add r.slug r.optional) u).optional ↔
      (∃ r ∈ refs, r.optional = true ∧ r.slug = s) ∨ s ∈ u.optional) := by
  induction refs generalizing u with
  | nil => simp
  | cons r refs ih =>
    rw [List.foldl_cons, ih.1, ih.2, List.exists_mem_cons_iff, List.exists_mem_cons_iff]
    unfold UsedSlugs.add
    cases r.optional with
    | false =>
      simp only [Bool.false_eq_true, if_false, SortedSet.mem_insert, eq_comm (a := s)]
      grind
    | true =>
      simp only [if_true, SortedSet.mem_insert, eq_comm (a := s)]
      grind

/-- The slugs of a formula are those of its references in scope, each by whether it is optional. -/
theorem mem_usedSlugs (h : usedSlugs text dataSources? = .ok used) :
    ∃ t, parse text = .ok t ∧ ∀ s,
      (s ∈ used.required ↔ ∃ r ∈ t.taxonRefs, isInScope dataSources? r.slug = true ∧
        r.optional = false ∧ r.slug = s) ∧
      (s ∈ used.optional ↔ ∃ r ∈ t.taxonRefs, isInScope dataSources? r.slug = true ∧
        r.optional = true ∧ r.slug = s) := by
  obtain ⟨t, read, same⟩ := Result.bind_eq_ok.1 h
  cases same
  refine ⟨t, read, fun s => ⟨mem_foldl_add.1.trans ?_, mem_foldl_add.2.trans ?_⟩⟩
  all_goals
    rw [or_iff_left (nomatch ·)]
    simp only [List.mem_filter, and_assoc]

/-- What is in scope of some data sources is so without the restriction. -/
theorem usedSlugs_mono (h : usedSlugs text dataSources? = .ok used) :
    ∃ v, usedSlugs text none = .ok v ∧ (∀ s ∈ used.required, s ∈ v.required) ∧
      ∀ s ∈ used.optional, s ∈ v.optional := by
  obtain ⟨t, read, mem⟩ := mem_usedSlugs h
  obtain ⟨v, hv⟩ : ∃ v, usedSlugs text none = .ok v := exists_usedSlugs_iff.2 ⟨t, read⟩
  obtain ⟨t', read', mem'⟩ := mem_usedSlugs hv
  cases read.symm.trans read'
  refine ⟨v, hv, fun s hs => ?_, fun s hs => ?_⟩
  · obtain ⟨r, hr, _, named⟩ := (mem s).1.1 hs
    exact (mem' s).1.2 ⟨r, hr, rfl, named⟩
  · obtain ⟨r, hr, _, named⟩ := (mem s).2.1 hs
    exact (mem' s).2.2 ⟨r, hr, rfl, named⟩

/-- The slugs of a formula are those of references that stand in its tokens. -/
theorem exists_quotes (h : usedSlugs text dataSources? = .ok used) :
    ∃ refs ts, Splits text.toList ts ∧ Quotes refs ts ∧
      ∀ s ∈ used.all, ∃ r ∈ refs, r.slug = s := by
  obtain ⟨t, read, mem⟩ := mem_usedSlugs h
  obtain ⟨ts, splits, expr⟩ := (Tree.read_eq_ok_iff text _).1 ⟨t, parse_eq_ok.1 read, rfl⟩
  have quotes := expression_quotes expr
  rw [Tree.refs_phrase] at quotes
  refine ⟨t.taxonRefs, ts, splits, quotes, fun s hs => ?_⟩
  obtain ⟨r, hr, _, _, same⟩ | ⟨r, hr, _, _, same⟩ :=
    (UsedSlugs.mem_all.1 hs).imp (mem s).1.1 (mem s).2.1
  all_goals exact ⟨r, hr, same⟩

/-- A formula names at most as many slugs as it has characters, and none that is a formula. -/
theorem usedSlugs_names (h : usedSlugs text dataSources? = .ok used) :
    ∃ names : List String, names.length ≤ text.length ∧
      ∀ s ∈ used.all, s ∈ names ∧ Slug.isFormula s = false := by
  obtain ⟨refs, ts, splits, quotes, named⟩ := exists_quotes h
  refine ⟨refs.map TaxonRef.slug, ?_, fun s hs => ?_⟩
  · rw [List.length_map, ← String.length_toList]
    exact quotes.length_le.trans splits.length_le
  · obtain ⟨r, hr, rfl⟩ := named s hs
    refine ⟨List.mem_map_of_mem hr, ?_⟩
    obtain ⟨word, rest, hword, starts⟩ := quotes.words hr
    obtain ⟨some, letters⟩ := splits.word_of_mem hword
    obtain ⟨c, cs, first⟩ := List.exists_cons_of_ne_nil some
    rw [first] at letters
    rw [Slug.isFormula, starts, first, List.cons_append, List.head?_cons]
    have letter := letters c (List.mem_cons_self ..)
    rw [beq_eq_false_iff_ne]
    rintro ⟨⟩
    cases letter

/-- No formula names a slug with a double quote in it. -/
theorem usedSlugs_unquoted (h : usedSlugs text dataSources? = .ok used) :
    ∀ s ∈ used.all, '"' ∉ s.toList := by
  obtain ⟨refs, ts, splits, quotes, named⟩ := exists_quotes h
  have words (w : String) (hw : .word w ∈ ts) : '"' ∉ w.toList := fun quote =>
    absurd ((splits.word_of_mem hw).2 _ quote) (by decide)
  intro s hs
  obtain ⟨r, hr, rfl⟩ := named s hs
  exact quotes.not_mem_slug (by decide) (by decide) words hr

end SemanticLayer.Formula
