import SemanticLayer.Model.Augmentation
import SemanticLayer.Proofs.Collections.Entries

/-!
# Adding attributes

Attributes stand under names and are looked up by their taxons.  An attribute that is added stands
under its taxon's name, in place of what stood there.

* `Model.hasTaxon_iff`, `Model.attribute?_congr`: look-ups by the entries of a model;
* `Model.get?_addMissing`: what one addition does to the entries;
* `Model.get?_addAllMissing`: what a run of additions does where each taxon keeps an attribute;
* `Model.of_get?_addAllMissing`: what holds of the entries after any run of additions.
-/

namespace SemanticLayer

namespace Model

/-- Whether a model is another one with other attributes. -/
def SameBut (m m' : Model) : Prop := ∃ attributes, m' = { m with attributes }

theorem SameBut.refl (m : Model) : m.SameBut m := ⟨m.attributes, rfl⟩

theorem SameBut.trans {a b c : Model} (h : a.SameBut b) (h' : b.SameBut c) : a.SameBut c := by
  obtain ⟨_, rfl⟩ := h
  obtain ⟨attributes, rfl⟩ := h'
  exact ⟨attributes, rfl⟩

theorem SameBut.company {m m' : Model} (h : m.SameBut m') : m'.company = m.company := by
  obtain ⟨_, rfl⟩ := h
  rfl

theorem SameBut.project? {m m' : Model} (h : m.SameBut m') : m'.project? = m.project? := by
  obtain ⟨_, rfl⟩ := h
  rfl

theorem SameBut.ownSlug {m m' : Model} (h : m.SameBut m') : m'.ownSlug = m.ownSlug := by
  obtain ⟨_, rfl⟩ := h
  rfl

theorem sameBut_addMissing (m : Model) (taxon formula : String) :
    m.SameBut (m.addMissing taxon formula) := by
  unfold addMissing
  split
  · exact .refl m
  · exact ⟨_, rfl⟩

/-- Adds attributes for those of some taxons that are missing, one after the other. -/
def addAllMissing (m : Model) (attributes : List (String × String)) : Model :=
  attributes.foldl (fun m a => m.addMissing a.1 a.2) m

theorem addAllMissing_cons (m : Model) (a : String × String) (as : List (String × String)) :
    m.addAllMissing (a :: as) = (m.addMissing a.1 a.2).addAllMissing as := rfl

theorem addAllMissing_append (m : Model) (as bs : List (String × String)) :
    m.addAllMissing (as ++ bs) = (m.addAllMissing as).addAllMissing bs := List.foldl_append

theorem sameBut_addAllMissing (m : Model) (as : List (String × String)) :
    m.SameBut (m.addAllMissing as) := by
  induction as generalizing m with
  | nil => exact .refl m
  | cons a as ih => exact (m.sameBut_addMissing a.1 a.2).trans (ih _)

/-! ## Entries -/

theorem hasTaxon_iff {m : Model} {taxon : String} :
    m.hasTaxon taxon = true ↔ ∃ name a, m.attributes.get? name = some a ∧ a.taxon = taxon := by
  unfold hasTaxon attribute?
  rw [List.find?_isSome]
  constructor
  · rintro ⟨a, ha, same⟩
    obtain ⟨name, entry⟩ := SortedMap.mem_values.1 ha
    exact ⟨name, a, SortedMap.get?_eq_some_iff.2 entry, of_decide_eq_true same⟩
  · rintro ⟨name, a, entry, same⟩
    exact ⟨a, SortedMap.mem_values.2 ⟨name, SortedMap.get?_eq_some_iff.1 entry⟩,
      decide_eq_true same⟩

/-- A look-up depends on the entries for its taxon only. -/
theorem attribute?_congr {m m' : Model} {taxon : String}
    (h : ∀ name a, a.taxon = taxon →
      (m.attributes.get? name = some a ↔ m'.attributes.get? name = some a)) :
    m.attribute? taxon = m'.attribute? taxon := by
  have entries : m.attributes.filter (fun _ a => decide (a.taxon = taxon)) =
      m'.attributes.filter fun _ a => decide (a.taxon = taxon) := by
    refine SortedMap.ext fun name a => ?_
    rw [SortedMap.get?_filter, SortedMap.get?_filter, decide_eq_true_iff]
    exact and_congr_left fun same => h name a same
  have first (m : Model) : m.attribute? taxon =
      (m.attributes.filter fun _ a => decide (a.taxon = taxon)).toList.head?.map (·.2) := by
    unfold attribute? SortedMap.values SortedMap.filter
    rw [List.find?_map, List.head?_filter]
    rfl
  rw [first, first, entries]

theorem addMissing_of_hasTaxon {m : Model} {taxon : String} (h : m.hasTaxon taxon = true)
    (formula : String) : m.addMissing taxon formula = m := if_pos h

/-- An attribute that is added takes the place of what stood under its taxon's name. -/
theorem get?_addMissing {m : Model} {taxon : String} (h : m.hasTaxon taxon = false)
    {formula name : String} {a : ModelAttribute} :
    (m.addMissing taxon formula).attributes.get? name = some a ↔
      name = taxon ∧ a = .of taxon formula ∨ name ≠ taxon ∧ m.attributes.get? name = some a := by
  have others (found : m.attributes.get? name = some a) : a.taxon ≠ taxon := by
    intro same
    rw [hasTaxon_iff.2 ⟨name, a, found, same⟩] at h
    cases h
  unfold addMissing
  rw [h, if_neg Bool.false_ne_true]
  unfold addAttribute
  dsimp only
  rw [SortedMap.get?_insert_eq_some_iff, SortedMap.get?_filter, decide_eq_true_iff]
  refine or_congr_right (and_congr_right fun _ => and_iff_left_of_imp others)

/-- The taxons of some attributes that the model lacks. -/
def missing (m : Model) (as : List (String × String)) : List String :=
  (as.map (·.1)).filter fun taxon => !m.hasTaxon taxon

/-- The model without the attributes that stand under some names. -/
def without (m : Model) (names : List String) : Model :=
  { m with attributes := m.attributes.filter fun name _ => !names.contains name }

theorem mem_missing {m : Model} {as : List (String × String)} {taxon : String} :
    taxon ∈ m.missing as ↔ taxon ∈ as.map (·.1) ∧ m.hasTaxon taxon = false := by
  unfold missing
  rw [List.mem_filter, Bool.not_eq_true']

theorem get?_without {m : Model} {names : List String} {name : String} {a : ModelAttribute} :
    (m.without names).attributes.get? name = some a ↔
      m.attributes.get? name = some a ∧ name ∉ names := by
  unfold without
  rw [SortedMap.get?_filter]
  simp

theorem hasTaxon_without_iff {m : Model} {names : List String} {taxon : String} :
    (m.without names).hasTaxon taxon = true ↔
      ∃ name a, (m.attributes.get? name = some a ∧ name ∉ names) ∧ a.taxon = taxon := by
  simp only [hasTaxon_iff, get?_without]

/-! ## What a run of additions does

The presence of each taxon is tested after the additions before it.  An addition can take away the
last attribute of another taxon, and then the later tests come out differently. -/

/-- Whether each taxon has an attribute that stands under no missing taxon's name. -/
def KeepsTaxons (m : Model) (as : List (String × String)) : Prop :=
  ∀ taxon, m.hasTaxon taxon = true → (m.without (m.missing as)).hasTaxon taxon = true

section
variable {m : Model} {t : String × String} {as : List (String × String)} {taxon name : String}
  {a : ModelAttribute}

theorem mem_missing_cons :
    taxon ∈ m.missing (t :: as) ↔
      taxon = t.1 ∧ m.hasTaxon t.1 = false ∨ taxon ∈ m.missing as := by
  rw [mem_missing, mem_missing, List.map_cons, List.mem_cons, or_and_right]
  refine or_congr_left (and_congr_right ?_)
  rintro rfl
  rfl

theorem KeepsTaxons.hasTaxon_addMissing (keeps : m.KeepsTaxons (t :: as)) :
    (m.addMissing t.1 t.2).hasTaxon taxon = true ↔ taxon = t.1 ∨ m.hasTaxon taxon = true := by
  by_cases has : m.hasTaxon t.1 = true
  · rw [addMissing_of_hasTaxon has]
    constructor
    · exact .inr
    · rintro (rfl | h)
      · exact has
      · exact h
  · have lacks := Bool.eq_false_iff.2 has
    rw [hasTaxon_iff]
    simp only [get?_addMissing lacks]
    constructor
    · rintro ⟨name, a, ⟨_, rfl⟩ | ⟨_, found⟩, rfl⟩
      · exact .inl rfl
      · exact .inr (hasTaxon_iff.2 ⟨name, a, found, rfl⟩)
    · rintro (rfl | h)
      · exact ⟨t.1, .of t.1 t.2, .inl ⟨rfl, rfl⟩, rfl⟩
      · obtain ⟨name, a, ⟨found, apart⟩, same⟩ := hasTaxon_without_iff.1 (keeps taxon h)
        rw [mem_missing_cons, not_or, not_and] at apart
        exact ⟨name, a, .inr ⟨fun same => apart.1 same lacks, found⟩, same⟩

theorem KeepsTaxons.mem_missing_addMissing (keeps : m.KeepsTaxons (t :: as))
    (new : t.1 ∉ as.map (·.1)) :
    taxon ∈ (m.addMissing t.1 t.2).missing as ↔ taxon ∈ m.missing as := by
  rw [mem_missing, mem_missing]
  refine and_congr_right fun listed => ?_
  have other : taxon ≠ t.1 := ne_of_mem_of_not_mem listed new
  rw [Bool.eq_false_iff, Bool.eq_false_iff, ne_eq, ne_eq, keeps.hasTaxon_addMissing,
    or_iff_right other]

theorem KeepsTaxons.next (keeps : m.KeepsTaxons (t :: as)) (new : t.1 ∉ as.map (·.1)) :
    (m.addMissing t.1 t.2).KeepsTaxons as := by
  intro taxon h
  rw [hasTaxon_without_iff]
  simp only [keeps.mem_missing_addMissing new]
  have early (old : m.hasTaxon taxon = true) :
      ∃ name a, (m.attributes.get? name = some a ∧ name ∉ m.missing (t :: as)) ∧
        a.taxon = taxon := hasTaxon_without_iff.1 (keeps taxon old)
  by_cases has : m.hasTaxon t.1 = true
  · rw [addMissing_of_hasTaxon has] at h ⊢
    obtain ⟨name, a, ⟨found, apart⟩, same⟩ := early h
    rw [mem_missing_cons, not_or] at apart
    exact ⟨name, a, ⟨found, apart.2⟩, same⟩
  · have lacks := Bool.eq_false_iff.2 has
    rcases keeps.hasTaxon_addMissing.1 h with rfl | old
    · refine ⟨t.1, .of t.1 t.2, ⟨(get?_addMissing lacks).2 (.inl ⟨rfl, rfl⟩), ?_⟩, rfl⟩
      exact fun listed => new (mem_missing.1 listed).1
    · obtain ⟨name, a, ⟨found, apart⟩, same⟩ := early old
      rw [mem_missing_cons, not_or, not_and] at apart
      refine ⟨name, a, ⟨(get?_addMissing lacks).2 (.inr ⟨?_, found⟩), apart.2⟩, same⟩
      exact fun same => apart.1 same lacks

/-- Where each taxon keeps an attribute, those under the names of missing taxons are replaced and
all others stay. -/
theorem get?_addAllMissing (distinct : (as.map (·.1)).Nodup) (keeps : m.KeepsTaxons as) :
    (m.addAllMissing as).attributes.get? name = some a ↔
      m.attributes.get? name = some a ∧ name ∉ m.missing as ∨
        name ∈ m.missing as ∧ ∃ formula, (name, formula) ∈ as ∧ a = .of name formula := by
  induction as generalizing m with
  | nil => simp [addAllMissing, missing]
  | cons t as ih =>
    rw [List.map_cons, List.nodup_cons] at distinct
    obtain ⟨new, distinct⟩ := distinct
    rw [addAllMissing_cons, ih distinct (keeps.next new), keeps.mem_missing_addMissing new,
      mem_missing_cons]
    have later (listed : name ∈ m.missing as) : name ≠ t.1 :=
      ne_of_mem_of_not_mem (mem_missing.1 listed).1 new
    have formulas (other : name ≠ t.1) (formula : String) :
        (name, formula) ∈ t :: as ↔ (name, formula) ∈ as := by
      rw [List.mem_cons, or_iff_right fun same => other (congrArg Prod.fst same)]
    by_cases has : m.hasTaxon t.1 = true
    · rw [addMissing_of_hasTaxon has]
      grind
    · have lacks := Bool.eq_false_iff.2 has
      rw [get?_addMissing lacks]
      grind

/-- Whatever the additions take away, no entry under a missing taxon's name outlasts them. -/
theorem of_get?_addAllMissing (distinct : (as.map (·.1)).Nodup)
    (h : (m.addAllMissing as).attributes.get? name = some a) :
    m.attributes.get? name = some a ∧ name ∉ m.missing as ∨
      ∃ formula, (name, formula) ∈ as ∧ a = .of name formula := by
  induction as generalizing m with
  | nil => exact .inl ⟨h, List.not_mem_nil⟩
  | cons t as ih =>
    rw [List.map_cons, List.nodup_cons] at distinct
    obtain ⟨new, distinct⟩ := distinct
    rw [addAllMissing_cons] at h
    rcases ih distinct h with ⟨found, apart⟩ | ⟨formula, listed, rfl⟩
    · by_cases has : m.hasTaxon t.1 = true
      · rw [addMissing_of_hasTaxon has] at found apart
        refine .inl ⟨found, fun listed => ?_⟩
        rcases mem_missing_cons.1 listed with ⟨_, lacks⟩ | listed
        · rw [has] at lacks
          cases lacks
        · exact apart listed
      · have lacks := Bool.eq_false_iff.2 has
        rcases (get?_addMissing lacks).1 found with ⟨rfl, rfl⟩ | ⟨other, found⟩
        · exact .inr ⟨t.2, List.mem_cons_self .., rfl⟩
        · refine .inl ⟨found, fun listed => ?_⟩
          obtain ⟨listed, none⟩ :=
            mem_missing.1 ((mem_missing_cons.1 listed).resolve_left fun h => other h.1)
          refine apart (mem_missing.2 ⟨listed, Bool.eq_false_iff.2 fun some => ?_⟩)
          -- the step added no attribute for a taxon other than its own
          obtain ⟨name', b, entry, rfl⟩ := hasTaxon_iff.1 some
          rcases (get?_addMissing lacks).1 entry with ⟨_, rfl⟩ | ⟨_, entry⟩
          · exact other rfl
          · rw [hasTaxon_iff.2 ⟨name', b, entry, rfl⟩] at none
            cases none
    · exact .inr ⟨formula, List.mem_cons_of_mem _ listed, rfl⟩

theorem hasTaxon_of_addAllMissing (distinct : (as.map (·.1)).Nodup)
    (h : (m.addAllMissing as).hasTaxon taxon = true) :
    m.hasTaxon taxon = true ∨ taxon ∈ as.map (·.1) := by
  obtain ⟨name, a, found, rfl⟩ := hasTaxon_iff.1 h
  rcases of_get?_addAllMissing distinct found with ⟨found, _⟩ | ⟨formula, listed, rfl⟩
  · exact .inl (hasTaxon_iff.2 ⟨name, a, found, rfl⟩)
  · exact .inr (List.mem_map_of_mem listed)

theorem KeepsTaxons.hasTaxon_addAllMissing (keeps : m.KeepsTaxons as)
    (distinct : (as.map (·.1)).Nodup) :
    (m.addAllMissing as).hasTaxon taxon = true ↔
      m.hasTaxon taxon = true ∨ taxon ∈ as.map (·.1) := by
  refine ⟨hasTaxon_of_addAllMissing distinct, fun h => ?_⟩
  by_cases old : m.hasTaxon taxon = true
  · obtain ⟨name, a, entry, same⟩ := hasTaxon_without_iff.1 (keeps taxon old)
    exact hasTaxon_iff.2 ⟨name, a, (get?_addAllMissing distinct keeps).2 (.inl entry), same⟩
  · have listed := h.resolve_left old
    obtain ⟨t, entry, rfl⟩ := List.mem_map.1 listed
    have added : (m.addAllMissing as).attributes.get? t.1 = some (.of t.1 t.2) :=
      (get?_addAllMissing distinct keeps).2
        (.inr ⟨mem_missing.2 ⟨listed, Bool.eq_false_iff.2 old⟩, t.2, entry, rfl⟩)
    exact hasTaxon_iff.2 ⟨t.1, .of t.1 t.2, added, rfl⟩

/-- A taxon that is there is looked up among the attributes that stay. -/
theorem KeepsTaxons.attribute?_addAllMissing (keeps : m.KeepsTaxons as)
    (distinct : (as.map (·.1)).Nodup) (h : m.hasTaxon taxon = true) :
    (m.addAllMissing as).attribute? taxon = (m.without (m.missing as)).attribute? taxon := by
  refine attribute?_congr fun name a same => ?_
  rw [get?_addAllMissing distinct keeps, get?_without]
  refine or_iff_left ?_
  rintro ⟨listed, formula, _, rfl⟩
  have same : name = taxon := same
  rw [← same, (mem_missing.1 listed).2] at h
  cases h

theorem addAllMissing_of_hasTaxon (h : ∀ taxon ∈ as.map (·.1), m.hasTaxon taxon = true) :
    m.addAllMissing as = m := by
  induction as with
  | nil => rfl
  | cons t as ih =>
    rw [List.map_cons, List.forall_mem_cons] at h
    rw [addAllMissing_cons, addMissing_of_hasTaxon h.1, ih h.2]

/-- Where some of the additions are left out, each taxon keeps the same attributes or more. -/
theorem KeepsTaxons.mono {bs : List (String × String)} (keeps : m.KeepsTaxons bs)
    (sub : ∀ taxon ∈ as.map (·.1), taxon ∈ bs.map (·.1)) : m.KeepsTaxons as := by
  intro taxon h
  obtain ⟨name, a, ⟨found, apart⟩, same⟩ := hasTaxon_without_iff.1 (keeps taxon h)
  refine hasTaxon_without_iff.2 ⟨name, a, ⟨found, fun listed => apart ?_⟩, same⟩
  obtain ⟨listed, lacks⟩ := mem_missing.1 listed
  exact mem_missing.2 ⟨sub name listed, lacks⟩

end

end Model

end SemanticLayer
