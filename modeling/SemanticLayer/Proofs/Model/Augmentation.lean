import SemanticLayer.Proofs.Model.Additions

/-!
# What augmentation keeps

* `Model.augmented_eq`: augmentation adds a list of attributes, each where its taxon is missing;
* `Model.sameBut_augmented`: it changes nothing but the attributes;
* `Model.augmented_onlyAdds_iff`: it only adds, and does so once, exactly if no look-up needs an
  attribute that stands under the name of a missing taxon;
* `Model.IsNamed.sparesNames`: so it is where attributes stand under their taxons' names.
-/

namespace SemanticLayer

namespace Model

/-! ## The attributes that are offered -/

/-- A constant as a taxon with its formula; a text with a quote cannot be one. -/
def constant? (taxon value : String) : Option (String × String) :=
  if value.toList.contains '\x27' then none else some (taxon, "'" ++ value ++ "'")

/-- The data source as a constant, if there is one only. -/
def sourceConstant? (m : Model) : Option (String × String) :=
  if m.dataSources.length = 1 then constant? "data_source" m.dataSource else none

/-- Where the model's rows come from, as taxons with their formulas. -/
def scopeAttributes (m : Model) : List (String × String) :=
  m.sourceConstant?.toList ++
    ((constant? "company_id" m.company).toList ++
      (m.project?.bind (constant? "project_id")).toList)

/-- The times that are derived from one time, as taxons with their formulas. -/
def derivedAttributes (m : Model) (time : String) : List (String × String) :=
  derivedTimes.map fun t => (m.ownSlug t.1, t.2 ++ "(" ++ time ++ ")")

/-- The times of a model that has hours, or has days, or has neither. -/
def timeAttributes (m : Model) : Option TimeGranularity → List (String × String)
  | none => []
  | some .day => m.derivedAttributes (m.ownSlug "date")
  | some .hour =>
    let hour := m.ownSlug "date_hour"
    (m.ownSlug "date", "to_date(" ++ hour ++ ", 'YYYY-MM-DD')") ::
      (m.ownSlug "hour_of_day", "hour_of_day(" ++ hour ++ ")") :: m.derivedAttributes hour

/-- All that augmentation adds where it is missing. -/
def offered (m : Model) : List (String × String) :=
  m.scopeAttributes ++ m.timeAttributes m.granularity?

theorem SameBut.scopeAttributes {m m' : Model} (h : m.SameBut m') :
    m'.scopeAttributes = m.scopeAttributes := by
  obtain ⟨_, rfl⟩ := h
  rfl

theorem SameBut.timeAttributes {m m' : Model} (h : m.SameBut m') :
    m'.timeAttributes = m.timeAttributes := by
  obtain ⟨_, rfl⟩ := h
  rfl

theorem addConstant_eq (m : Model) (taxon value : String) :
    m.addConstant taxon value = m.addAllMissing (constant? taxon value).toList := by
  unfold addConstant constant?
  split <;> rfl

theorem withScopeAttributes_eq (m : Model) :
    m.withScopeAttributes = m.addAllMissing m.scopeAttributes := by
  have source : (if m.dataSources.length = 1 then m.addConstant "data_source" m.dataSource else m) =
      m.addAllMissing m.sourceConstant?.toList := by
    unfold sourceConstant?
    split
    · exact m.addConstant_eq _ _
    · rfl
  have first := m.sameBut_addAllMissing m.sourceConstant?.toList
  have second := first.trans (sameBut_addAllMissing _ (constant? "company_id" m.company).toList)
  unfold withScopeAttributes
  dsimp only
  rw [source, addConstant_eq, first.company, second.project?, Model.scopeAttributes,
    addAllMissing_append, addAllMissing_append]
  cases m.project? with
  | none => rfl
  | some project => exact addConstant_eq _ _ _

theorem withDerivedTimes_eq (m : Model) (time : String) :
    m.withDerivedTimes time = m.addAllMissing (m.derivedAttributes time) := by
  unfold withDerivedTimes derivedAttributes
  have each (m' : Model) (same : m.SameBut m') (ts : List (String × String)) :
      ts.foldl (fun m t => m.addMissing (m.ownSlug t.1) (t.2 ++ "(" ++ time ++ ")")) m' =
        m'.addAllMissing (ts.map fun t => (m.ownSlug t.1, t.2 ++ "(" ++ time ++ ")")) := by
    induction ts generalizing m' with
    | nil => rfl
    | cons t ts ih =>
      rw [List.foldl_cons, List.map_cons, addAllMissing_cons, same.ownSlug]
      exact ih _ (same.trans (sameBut_addMissing _ _ _))
  exact each m (.refl m) derivedTimes

theorem withTimes_eq (m : Model) :
    m.withTimes = m.addAllMissing (m.timeAttributes m.granularity?) := by
  unfold withTimes
  cases m.granularity? with
  | none => rfl
  | some granularity =>
    cases granularity with
    | day => exact m.withDerivedTimes_eq _
    | hour =>
      dsimp only
      rw [withDerivedTimes_eq, Model.timeAttributes, addAllMissing_cons, addAllMissing_cons]
      have same := (m.sameBut_addMissing (m.ownSlug "date")
        ("to_date(" ++ m.ownSlug "date_hour" ++ ", 'YYYY-MM-DD')")).trans
          (sameBut_addMissing _ (m.ownSlug "hour_of_day")
            ("hour_of_day(" ++ m.ownSlug "date_hour" ++ ")"))
      unfold derivedAttributes
      rw [same.ownSlug]

/-- Augmentation adds the constants and then the times, by the times that the model has then. -/
theorem augmented_eq (m : Model) :
    m.augmented = m.addAllMissing
      (m.scopeAttributes ++ m.timeAttributes (m.addAllMissing m.scopeAttributes).granularity?) := by
  unfold augmented
  rw [withScopeAttributes_eq, withTimes_eq, addAllMissing_append,
    (m.sameBut_addAllMissing m.scopeAttributes).timeAttributes]

/-- Augmentation adds attributes, and changes nothing else. -/
theorem sameBut_augmented (m : Model) : m.SameBut m.augmented := by
  rw [augmented_eq]
  exact m.sameBut_addAllMissing _

/-! ## The names that are offered -/

/-- The local names of the times that are derived in a model with hours or days. -/
def timeNames : Option TimeGranularity → List String
  | none => []
  | some .day => derivedTimes.map (·.1)
  | some .hour => "date" :: "hour_of_day" :: derivedTimes.map (·.1)

theorem map_fst_timeAttributes (m : Model) (g? : Option TimeGranularity) :
    (m.timeAttributes g?).map (·.1) = (timeNames g?).map m.ownSlug := by
  cases g? with
  | none => rfl
  | some g => cases g <;> rfl

theorem sublist_scopeAttributes (m : Model) :
    (m.scopeAttributes.map (·.1)).Sublist ["data_source", "company_id", "project_id"] := by
  have one (taxon value : String) : ((constant? taxon value).toList.map (·.1)).Sublist [taxon] := by
    unfold constant?
    split
    · exact List.nil_sublist _
    · exact List.Sublist.refl _
  have source : (m.sourceConstant?.toList.map (·.1)).Sublist ["data_source"] := by
    unfold sourceConstant?
    split
    · exact one _ _
    · exact List.nil_sublist _
  have project : ((m.project?.bind (constant? "project_id")).toList.map (·.1)).Sublist
      ["project_id"] := by
    cases m.project? with
    | none => exact List.nil_sublist _
    | some project => exact one _ _
  unfold Model.scopeAttributes
  rw [List.map_append, List.map_append]
  exact source.append ((one "company_id" m.company).append project)

theorem ownSlug_injective (m : Model) : Function.Injective m.ownSlug := by
  intro a b h
  have chars := congrArg String.toList h
  unfold ownSlug Slug.inDataSource at chars
  simp only [String.toList_append] at chars
  exact String.toList_inj.1 (List.append_cancel_left chars)

/-- A slug of a data source has a bar, and no constant's name has one. -/
theorem ownSlug_notMem_scopeAttributes (m : Model) (name : String) :
    m.ownSlug name ∉ m.scopeAttributes.map (·.1) := by
  intro h
  have bar : '|' ∈ (m.ownSlug name).toList := by
    unfold ownSlug Slug.inDataSource
    simp
  have plain : ∀ s ∈ ["data_source", "company_id", "project_id"], '|' ∉ s.toList := by decide
  exact plain _ (m.sublist_scopeAttributes.subset h) bar

theorem ownSlug_mem_timeAttributes {m : Model} {name : String} {g? : Option TimeGranularity} :
    m.ownSlug name ∈ (m.timeAttributes g?).map (·.1) ↔ name ∈ timeNames g? := by
  rw [map_fst_timeAttributes, List.mem_map_of_injective m.ownSlug_injective]

theorem distinct_scopeAttributes (m : Model) : (m.scopeAttributes.map (·.1)).Nodup :=
  m.sublist_scopeAttributes.nodup (by decide)

theorem distinct_timeAttributes (m : Model) (g? : Option TimeGranularity) :
    ((m.timeAttributes g?).map (·.1)).Nodup := by
  have names : (timeNames g?).Nodup := by
    cases g? with
    | none => decide
    | some g => cases g <;> decide
  rw [map_fst_timeAttributes]
  exact names.map m.ownSlug_injective

theorem distinct_offered (m : Model) : (m.offered.map (·.1)).Nodup := by
  unfold offered
  rw [List.map_append, List.nodup_append']
  refine ⟨m.distinct_scopeAttributes, m.distinct_timeAttributes _, ?_⟩
  intro taxon constant time
  rw [map_fst_timeAttributes] at time
  obtain ⟨name, _, rfl⟩ := List.mem_map.1 time
  exact m.ownSlug_notMem_scopeAttributes name constant

theorem ownSlug_mem_offered {m : Model} {name : String} :
    m.ownSlug name ∈ m.offered.map (·.1) ↔ name ∈ timeNames m.granularity? := by
  unfold offered
  rw [List.map_append, List.mem_append, ownSlug_mem_timeAttributes]
  exact or_iff_right (m.ownSlug_notMem_scopeAttributes name)

theorem hours_notMem_timeNames (g? : Option TimeGranularity) : "date_hour" ∉ timeNames g? := by
  cases g? with
  | none => decide
  | some g => cases g <;> decide

/-- Days are derived from hours only. -/
theorem days_mem_timeNames_iff {g? : Option TimeGranularity} :
    "date" ∈ timeNames g? ↔ g? = some .hour := by
  cases g? with
  | none => decide
  | some g => cases g <;> decide

theorem granularity?_eq_hour_iff {m : Model} :
    m.granularity? = some .hour ↔ m.hasTaxon (m.ownSlug "date_hour") = true := by
  unfold granularity?
  by_cases hours : m.hasTaxon (m.ownSlug "date_hour") = true
  · simp [hours]
  · rw [if_neg hours]
    split <;> simp [hours]

/-- Models with the same hours, and with the same days where they have no hours. -/
theorem granularity?_congr {m m' : Model} (same : m.SameBut m')
    (hour : m'.hasTaxon (m.ownSlug "date_hour") = m.hasTaxon (m.ownSlug "date_hour"))
    (day : m.hasTaxon (m.ownSlug "date_hour") = false →
      m'.hasTaxon (m.ownSlug "date") = m.hasTaxon (m.ownSlug "date")) :
    m'.granularity? = m.granularity? := by
  unfold granularity?
  rw [same.ownSlug, hour]
  by_cases hours : m.hasTaxon (m.ownSlug "date_hour") = true
  · rw [if_pos hours, if_pos hours]
  · rw [if_neg hours, if_neg hours, day (Bool.eq_false_iff.2 hours)]

/-! ## Augmentation only adds -/

/-- Whether each taxon keeps its attribute, all new attributes are for taxons that were missing, and
the times are as fine as before. -/
structure OnlyAdds (m m' : Model) : Prop where
  kept : ∀ taxon a, m.attribute? taxon = some a → m'.attribute? taxon = some a
  added : ∀ name a, m'.attributes.get? name = some a →
    m.attributes.get? name = some a ∨ m.hasTaxon a.taxon = false
  granularity : m'.granularity? = m.granularity?

/-- Whether all look-ups come out the same without the attributes that stand under the names of the
missing taxons. -/
def SparesNames (m : Model) : Prop :=
  ∀ taxon, (m.without (m.missing m.offered)).attribute? taxon = m.attribute? taxon

theorem exists_get?_of_attribute? {m : Model} {taxon : String} {a : ModelAttribute}
    (h : m.attribute? taxon = some a) :
    ∃ name, m.attributes.get? name = some a ∧ a.taxon = taxon := by
  obtain ⟨name, entry⟩ := SortedMap.mem_values.1 (List.mem_of_find?_eq_some h)
  have same : decide (a.taxon = taxon) = true :=
    List.find?_some (p := fun b : ModelAttribute => decide (b.taxon = taxon)) h
  exact ⟨name, SortedMap.get?_eq_some_iff.2 entry, of_decide_eq_true same⟩

theorem hasTaxon_of_attribute? {m : Model} {taxon : String} {a : ModelAttribute}
    (h : m.attribute? taxon = some a) : m.hasTaxon taxon = true := by
  unfold hasTaxon
  rw [h]
  rfl

theorem OnlyAdds.hasTaxon {m m' : Model} (h : m.OnlyAdds m') {taxon : String}
    (has : m.hasTaxon taxon = true) : m'.hasTaxon taxon = true := by
  obtain ⟨a, found⟩ := Option.isSome_iff_exists.1 has
  exact hasTaxon_of_attribute? (h.kept taxon a found)

theorem SparesNames.keepsTaxons {m : Model} (h : m.SparesNames) : m.KeepsTaxons m.offered := by
  intro taxon has
  unfold hasTaxon at has ⊢
  rwa [h taxon]

/-- Constants do not tell how fine the times are, unless they take the place of a time. -/
theorem augmented_eq_of_hasTaxon {m : Model}
    (hour : (m.addAllMissing m.scopeAttributes).hasTaxon (m.ownSlug "date_hour") =
      m.hasTaxon (m.ownSlug "date_hour"))
    (day : m.hasTaxon (m.ownSlug "date_hour") = false →
      (m.addAllMissing m.scopeAttributes).hasTaxon (m.ownSlug "date") =
        m.hasTaxon (m.ownSlug "date")) :
    m.augmented = m.addAllMissing m.offered := by
  rw [augmented_eq, granularity?_congr (m.sameBut_addAllMissing _) hour day]
  rfl

theorem KeepsTaxons.augmented_eq {m : Model} (h : m.KeepsTaxons m.offered) :
    m.augmented = m.addAllMissing m.offered := by
  have keeps : m.KeepsTaxons m.scopeAttributes := by
    refine h.mono fun taxon listed => ?_
    unfold offered
    rw [List.map_append]
    exact List.mem_append_left _ listed
  have own (name : String) : (m.addAllMissing m.scopeAttributes).hasTaxon (m.ownSlug name) =
      m.hasTaxon (m.ownSlug name) := by
    rw [Bool.eq_iff_iff, keeps.hasTaxon_addAllMissing m.distinct_scopeAttributes]
    exact or_iff_left (m.ownSlug_notMem_scopeAttributes name)
  exact augmented_eq_of_hasTaxon (own _) fun _ => own _

/-- No step takes a time away that is there in the end. -/
theorem OnlyAdds.augmented_eq {m : Model} (h : m.OnlyAdds m.augmented) :
    m.augmented = m.addAllMissing m.offered := by
  have same := m.sameBut_addAllMissing m.scopeAttributes
  have old {name : String}
      (has : (m.addAllMissing m.scopeAttributes).hasTaxon (m.ownSlug name) = true) :
      m.hasTaxon (m.ownSlug name) = true :=
    (hasTaxon_of_addAllMissing m.distinct_scopeAttributes has).resolve_right
      (m.ownSlug_notMem_scopeAttributes name)
  have stays {name : String} (has : m.hasTaxon (m.ownSlug name) = true) :
      (m.addAllMissing m.scopeAttributes).hasTaxon (m.ownSlug name) = true ∨
        name ∈ timeNames (m.addAllMissing m.scopeAttributes).granularity? := by
    have kept := h.hasTaxon has
    rw [Model.augmented_eq, addAllMissing_append] at kept
    rw [← ownSlug_mem_timeAttributes]
    exact hasTaxon_of_addAllMissing (m.distinct_timeAttributes _) kept
  refine augmented_eq_of_hasTaxon ?_ fun none => ?_
  · rw [Bool.eq_iff_iff]
    exact ⟨old, fun has => (stays has).resolve_right (hours_notMem_timeNames _)⟩
  · rw [Bool.eq_iff_iff]
    refine ⟨old, fun has => (stays has).resolve_right fun derived => ?_⟩
    have hours := granularity?_eq_hour_iff.1 (days_mem_timeNames_iff.1 derived)
    rw [same.ownSlug] at hours
    rw [old hours] at none
    cases none

theorem OnlyAdds.keepsTaxons {m : Model} (h : m.OnlyAdds m.augmented) :
    m.KeepsTaxons m.offered := by
  intro taxon has
  obtain ⟨a, found⟩ := Option.isSome_iff_exists.1 has
  obtain ⟨name, entry, rfl⟩ := exists_get?_of_attribute? (h.kept taxon a found)
  have old : m.attributes.get? name = some a := by
    refine (h.added name a entry).resolve_right fun lacks => ?_
    rw [has] at lacks
    cases lacks
  refine hasTaxon_without_iff.2 ⟨name, a, ⟨old, fun listed => ?_⟩, rfl⟩
  rw [h.augmented_eq] at entry
  rcases of_get?_addAllMissing m.distinct_offered entry with ⟨_, apart⟩ | ⟨formula, _, rfl⟩
  · exact apart listed
  · have lacks : m.hasTaxon (ModelAttribute.of name formula).taxon = false :=
      (mem_missing.1 listed).2
    rw [has] at lacks
    cases lacks

theorem SparesNames.onlyAdds {m : Model} (h : m.SparesNames) : m.OnlyAdds m.augmented := by
  have keeps := h.keepsTaxons
  have own (name : String) (new : name ∉ timeNames m.granularity?) :
      m.augmented.hasTaxon (m.ownSlug name) = m.hasTaxon (m.ownSlug name) := by
    rw [keeps.augmented_eq, Bool.eq_iff_iff, keeps.hasTaxon_addAllMissing m.distinct_offered,
      ownSlug_mem_offered]
    exact or_iff_left new
  refine ⟨fun taxon a found => ?_, fun name a entry => ?_, ?_⟩
  · rw [keeps.augmented_eq,
      keeps.attribute?_addAllMissing m.distinct_offered (hasTaxon_of_attribute? found), h taxon]
    exact found
  · rw [keeps.augmented_eq, get?_addAllMissing m.distinct_offered keeps] at entry
    rcases entry with ⟨found, _⟩ | ⟨listed, formula, _, rfl⟩
    · exact .inl found
    · exact .inr (mem_missing.1 listed).2
  · refine granularity?_congr m.sameBut_augmented (own _ (hours_notMem_timeNames _)) ?_
    intro none
    refine own _ fun derived => ?_
    rw [granularity?_eq_hour_iff.1 (days_mem_timeNames_iff.1 derived)] at none
    cases none

theorem augmented_eq_self {m : Model} (h : ∀ taxon ∈ m.offered.map (·.1), m.hasTaxon taxon = true) :
    m.augmented = m := by
  unfold offered at h
  rw [List.map_append, List.forall_mem_append] at h
  rw [augmented_eq, addAllMissing_append, addAllMissing_of_hasTaxon h.1,
    addAllMissing_of_hasTaxon h.2]

theorem SparesNames.augmented_augmented {m : Model} (h : m.SparesNames) :
    m.augmented.augmented = m.augmented := by
  have same := m.sameBut_augmented
  have offered : m.augmented.offered = m.offered := by
    unfold Model.offered
    rw [same.scopeAttributes, same.timeAttributes, h.onlyAdds.granularity]
  refine augmented_eq_self fun taxon listed => ?_
  rw [offered] at listed
  rw [h.keepsTaxons.augmented_eq]
  exact (h.keepsTaxons.hasTaxon_addAllMissing m.distinct_offered).2 (.inr listed)

/-- Augmentation keeps the attribute of each taxon, adds attributes for missing taxons only, leaves
the times as fine as they are and has no more to add a second time, exactly if no look-up needs an
attribute that stands under the name of a missing taxon. -/
theorem augmented_onlyAdds_iff (m : Model) :
    (m.OnlyAdds m.augmented ∧ m.augmented.augmented = m.augmented) ↔ m.SparesNames := by
  constructor
  · rintro ⟨h, _⟩ taxon
    by_cases has : m.hasTaxon taxon = true
    · obtain ⟨a, found⟩ := Option.isSome_iff_exists.1 has
      rw [← h.keepsTaxons.attribute?_addAllMissing m.distinct_offered has, ← h.augmented_eq,
        h.kept taxon a found, found]
    · have old : m.attribute? taxon = none := Option.not_isSome_iff_eq_none.1 has
      rw [old]
      refine Option.not_isSome_iff_eq_none.1 fun has' => has ?_
      obtain ⟨name, a, ⟨found, _⟩, same⟩ := hasTaxon_without_iff.1 has'
      exact hasTaxon_iff.2 ⟨name, a, found, same⟩
  · intro h
    exact ⟨h.onlyAdds, h.augmented_augmented⟩

/-- The spend of an advertisement, kept under the name of the company. -/
theorem augmented_not_onlyAdds_spend :
    let m : Model :=
      { name := "costs", attributes := .ofList [("company_id", .of "ads|spend" "\"spend\"")],
        joins := [], dataSources := ["ads"], type? := none, visibility := .available,
        company := "acme", project? := none, table := ["costs"], physicalSource? := none }
    m.validate.toOption = some () ∧ m.hasTaxon "ads|spend" = true ∧ ¬ m.OnlyAdds m.augmented := by
  intro m
  refine ⟨by decide +kernel, by decide +kernel, fun h => ?_⟩
  have gone : m.augmented.hasTaxon "ads|spend" = false := by decide +kernel
  rw [h.hasTaxon (by decide +kernel)] at gone
  cases gone

/-- Whether each attribute stands under its taxon's name. -/
def IsNamed (m : Model) : Prop := ∀ name a, m.attributes.get? name = some a → a.taxon = name

/-- An attribute under the name of a missing taxon would be one for that taxon. -/
theorem IsNamed.sparesNames {m : Model} (h : m.IsNamed) : m.SparesNames := by
  intro taxon
  refine attribute?_congr fun name a _ => ?_
  rw [get?_without]
  refine and_iff_left_of_imp fun found listed => ?_
  have has := hasTaxon_iff.2 ⟨name, a, found, h name a found⟩
  rw [(mem_missing.1 listed).2] at has
  cases has

theorem IsNamed.addAttribute {m : Model} (h : m.IsNamed) (a : ModelAttribute) :
    (m.addAttribute a).IsNamed := by
  intro name b found
  unfold Model.addAttribute at found
  dsimp only at found
  rw [SortedMap.get?_insert_eq_some_iff, SortedMap.get?_filter] at found
  rcases found with ⟨rfl, rfl⟩ | ⟨_, found, _⟩
  · rfl
  · exact h name b found

end Model

end SemanticLayer
