import SemanticLayer.Proofs.Json.Records
import SemanticLayer.Taxonomy.Codec

/-!
# Taxons from their JSON

Aggregations and taxons are read back from their JSON value and from its text as they are.  An
aggregation is checked again when it is read, so it must be one that can be declared.
-/

namespace SemanticLayer

open Decode

theorem TaxonType.ofJson_toJson (t : TaxonType) : TaxonType.ofJson t.toJson = .ok t := by
  cases t <;> rfl

theorem ValidationType.ofJson_name (t : ValidationType) :
    ValidationType.ofJson (.str t.name) = .ok t := by
  cases t <;> rfl

theorem Formula.Phase.ofJson_name (p : Formula.Phase) :
    Formula.Phase.ofJson (.str p.name) = .ok p := by
  cases p <;> rfl

theorem AggregationType.ofJson_name (t : AggregationType) :
    AggregationType.ofJson (.str t.name) = .ok t := by
  cases t <;> rfl

theorem SortOrder.ofJson_toJson (o : SortOrder) : SortOrder.ofJson o.toJson = .ok o := by
  cases o <;> rfl

/-! ## Aggregations -/

theorem SortDimension.ofJson_toJson (s : SortDimension) :
    SortDimension.ofJson s.toJson = .ok s := by
  obtain ⟨taxon, order?⟩ := s
  unfold SortDimension.ofJson SortDimension.toJson
  refine Result.bind_eq_ok.2 ⟨_, record_ofFields _ _, ?_⟩
  cases order? with
  | none =>
    refine Result.bind_eq_ok.2 ⟨none, getNullable_ofList_of_notMem (by simp), ?_⟩
    exact Result.bind_eq_ok.2 ⟨some taxon, get?_ofList (j := .str taxon) (by simp) (by simp) rfl, rfl⟩
  | some o =>
    refine Result.bind_eq_ok.2 ⟨some o, getNullable_ofList (f := SortOrder.toJson) (by simp)
      (by simp [Json.ofOption]) (fun o _ => o.ofJson_toJson) (by rintro (_ | _) <;> nofun), ?_⟩
    exact Result.bind_eq_ok.2 ⟨some taxon, get?_ofList (j := .str taxon) (by simp) (by simp) rfl, rfl⟩

theorem SortDimension.comesBack_toJson (s : SortDimension) : Json.ComesBack 1 s.toJson := by
  obtain ⟨taxon, order?⟩ := s
  refine Json.comesBack_ofFields (n := 0) ?_
  rcases order? with _ | _ | _ <;> simp [SortOrder.toJson]

namespace AggregationParams

theorem ofJson_toJson (p : AggregationParams) : ofJson p.toJson = .ok p := by
  cases p with
  | sortDimensions sort =>
    have distinct : ([("sort_dimensions", Json.arr (sort.map SortDimension.toJson))].map
      (·.1)).Nodup := by simp
    rw [toJson, Json.ofFields_eq, ofJson,
      get?_ofList distinct (j := .arr (sort.map SortDimension.toJson)) (by simp)
        (list_map fun s _ => s.ofJson_toJson)]
    rfl
  | fields names =>
    have distinct : ([("fields", Json.ofStrings names)].map (·.1)).Nodup := by simp
    rw [toJson, Json.ofFields_eq, ofJson, get?_ofList_of_notMem (by simp),
      getD_ofList distinct (by simp) (list_ofStrings names)]
    rfl

theorem toJson_ne_null (p : AggregationParams) : p.toJson ≠ .null := by
  cases p <;> nofun

theorem comesBack_toJson (p : AggregationParams) : Json.ComesBack 3 p.toJson := by
  cases p with
  | sortDimensions sort =>
    refine Json.comesBack_ofFields (List.forall_mem_singleton.2 (Json.comesBack_arr ?_))
    intro j hj
    obtain ⟨s, -, rfl⟩ := List.mem_map.1 hj
    exact s.comesBack_toJson
  | fields names =>
    refine Json.comesBack_ofFields (List.forall_mem_singleton.2 ?_)
    exact Json.comesBack_ofStrings 1 names

end AggregationParams

namespace Aggregation

/-- An aggregation that a declaration gives is given by its own type and parameters. -/
theorem declare_params {type : AggregationType} {params? : Option AggregationParams}
    {a : Aggregation} (h : declare type params? = .ok a) : declare a.type a.params? = .ok a := by
  have counted {names : List String} (h : countedFields names = .ok a) :
      declare a.type a.params? = .ok a := by
    have read := h
    unfold countedFields at read
    split at read
    · cases read
    · cases read
      exact h
  unfold declare at h
  split at h <;> first | exact counted h | (cases h; rfl) | cases h

/-- An aggregation that a declaration gives. -/
def IsDeclared (a : Aggregation) : Prop := ∃ type params?, declare type params? = .ok a

theorem ofJson_toJson {a : Aggregation} (h : a.IsDeclared) : ofJson a.toJson = .ok a := by
  obtain ⟨_, _, declared⟩ := h
  have again := declare_params declared
  unfold ofJson toJson
  refine Result.bind_eq_ok.2 ⟨_, record_ofFields _ _, ?_⟩
  cases params : a.params? with
  | none =>
    refine Result.bind_eq_ok.2 ⟨none, getNullable_ofList_of_notMem (by simp), ?_⟩
    refine Result.bind_eq_ok.2 ⟨some a.type, get?_ofList (by simp) (by simp) a.type.ofJson_name, ?_⟩
    rw [params] at again
    refine Result.bind_eq_ok.2 ⟨a.type, rfl, ?_⟩
    rw [again]
    rfl
  | some p =>
    refine Result.bind_eq_ok.2 ⟨some p, getNullable_ofList (f := AggregationParams.toJson) (by simp)
      (by simp [Json.ofOption]) (fun p _ => p.ofJson_toJson) AggregationParams.toJson_ne_null, ?_⟩
    refine Result.bind_eq_ok.2 ⟨some a.type, get?_ofList (by simp) (by simp) a.type.ofJson_name, ?_⟩
    rw [params] at again
    refine Result.bind_eq_ok.2 ⟨a.type, rfl, ?_⟩
    rw [again]
    rfl

theorem comesBack_toJson (a : Aggregation) : Json.ComesBack 4 a.toJson := by
  refine Json.comesBack_ofFields (n := 3) ?_
  cases a.params? with
  | none => simp
  | some p => simp [p.comesBack_toJson]

theorem toJson_ne_null (a : Aggregation) : a.toJson ≠ .null := Json.ofFields_ne_null _

end Aggregation

theorem FormulaFacts.ofJson_toJson {f : FormulaFacts} (h : ∀ a ∈ f.aggregation?, a.IsDeclared) :
    FormulaFacts.ofJson f.toJson = .ok f := by
  unfold FormulaFacts.ofJson FormulaFacts.toJson
  refine Result.bind_eq_ok.2 ⟨_, record_ofFields _ _, ?_⟩
  refine Result.bind_eq_ok.2 ⟨f.aggregation?, getNullable_ofList (f := Aggregation.toJson)
    (by simp) (by simp) (fun a ha => Aggregation.ofJson_toJson (h a ha))
    Aggregation.toJson_ne_null, ?_⟩
  refine Result.bind_eq_ok.2 ⟨f.canCompare, getD_ofList (j := .bool f.canCompare) (by simp)
    (by simp) rfl, ?_⟩
  refine Result.bind_eq_ok.2 ⟨f.optionalRawTaxons, getD_ofList (by simp) (by simp)
    (list_ofStrings _), ?_⟩
  refine Result.bind_eq_ok.2 ⟨f.phase, getD_ofList (by simp) (by simp) f.phase.ofJson_name, ?_⟩
  refine Result.bind_eq_ok.2 ⟨f.requiredRawTaxons, getD_ofList (by simp) (by simp)
    (list_ofStrings _), ?_⟩
  refine Result.bind_eq_ok.2 ⟨f.usedDataSources, getD_ofList (by simp) (by simp)
    (list_map (f := Json.ofOption .str) fun _ _ =>
      nullable_ofOption (fun _ _ => rfl) Json.str_ne_null), ?_⟩
  refine Result.bind_eq_ok.2 ⟨f.usedTaxons, getD_ofList (by simp) (by simp) (list_ofStrings _), ?_⟩
  rfl

theorem FormulaFacts.toJson_ne_null (f : FormulaFacts) : f.toJson ≠ .null := Json.ofFields_ne_null _

theorem FormulaFacts.comesBack_toJson (f : FormulaFacts) : Json.ComesBack 5 f.toJson := by
  have sources : Json.ComesBack 4 (.arr (f.usedDataSources.map (Json.ofOption .str))) := by
    refine Json.comesBack_arr (List.forall_mem_map.2 ?_)
    exact fun _ _ => Json.comesBack_ofOption fun s _ => Json.comesBack_str 3 s
  have aggregation : Json.ComesBack 4 (Json.ofOption Aggregation.toJson f.aggregation?) :=
    Json.comesBack_ofOption fun a _ => a.comesBack_toJson
  exact Json.comesBack_ofFields (n := 4) (by simp [sources, aggregation])

/-! ## Taxons -/

theorem Taxon.ofJson_toJson {t : Taxon} (declared : ∀ a ∈ t.aggregation?, a.IsDeclared)
    (known : ∀ f ∈ t.facts?, ∀ a ∈ f.aggregation?, a.IsDeclared) :
    Taxon.ofJson t.toJson = .ok t := by
  have definition : TaxonDefinition.of t.calculation? t.aggregation? = .ok t.definition := by
    unfold Taxon.calculation? Taxon.aggregation?
    cases t.definition <;> rfl
  unfold Taxon.ofJson Taxon.toJson
  refine Result.bind_eq_ok.2 ⟨_, record_ofFields _ _, ?_⟩
  refine Result.bind_eq_ok.2 ⟨t.acronym?, getNullable_ofList (f := .str) (by simp) (by simp)
    (fun _ _ => rfl) Json.str_ne_null, ?_⟩
  refine Result.bind_eq_ok.2 ⟨t.aggregation?, getNullable_ofList (f := Aggregation.toJson) (by simp)
    (by simp) (fun a ha => Aggregation.ofJson_toJson (declared a ha))
    Aggregation.toJson_ne_null, ?_⟩
  refine Result.bind_eq_ok.2 ⟨t.calculation?, getNullable_ofList (f := .str) (by simp) (by simp)
    (fun _ _ => rfl) Json.str_ne_null, ?_⟩
  refine Result.bind_eq_ok.2 ⟨t.company, getD_ofList (j := .str t.company) (by simp) (by simp)
    rfl, ?_⟩
  refine Result.bind_eq_ok.2 ⟨t.comparisonOrigin?, getNullable_ofList (f := .str) (by simp)
    (by simp) (fun _ _ => rfl) Json.str_ne_null, ?_⟩
  refine Result.bind_eq_ok.2 ⟨t.dataSource?, getNullable_ofList (f := .str) (by simp)
    (by simp) (fun _ _ => rfl) Json.str_ne_null, ?_⟩
  refine Result.bind_eq_ok.2 ⟨some t.displayName, getNullable_ofList (f := .str) (by simp)
    (by simp [Json.ofOption]) (fun _ _ => rfl) Json.str_ne_null, ?_⟩
  refine Result.bind_eq_ok.2 ⟨some t.slug, get?_ofList (j := .str t.slug) (by simp) (by simp)
    rfl, ?_⟩
  refine Result.bind_eq_ok.2 ⟨t.type, getD_ofList (by simp) (by simp) t.type.ofJson_toJson, ?_⟩
  refine Result.bind_eq_ok.2 ⟨t.facts?, getNullable_ofList (f := FormulaFacts.toJson) (by simp)
    (by simp) (fun f hf => FormulaFacts.ofJson_toJson (known f hf))
    FormulaFacts.toJson_ne_null, ?_⟩
  refine Result.bind_eq_ok.2 ⟨some t.validation, getNullable_ofList (f := fun v => .str v.name)
    (by simp) (by simp [Json.ofOption]) (fun v _ => v.ofJson_name)
    fun v => Json.str_ne_null v.name, ?_⟩
  refine Result.bind_eq_ok.2 ⟨t.slug, rfl, ?_⟩
  rw [definition]
  rfl

theorem Taxon.comesBack_toJson (t : Taxon) : Json.ComesBack 6 t.toJson := by
  have text (o : Option String) : Json.ComesBack 5 (Json.ofOption .str o) :=
    Json.comesBack_ofOption fun s _ => Json.comesBack_str 5 s
  have type : Json.ComesBack 5 t.type.toJson := Json.comesBack_str 5 t.type.name
  have aggregation : Json.ComesBack 5 (Json.ofOption Aggregation.toJson t.aggregation?) :=
    Json.comesBack_ofOption fun a _ => a.comesBack_toJson.mono (by decide)
  have facts : Json.ComesBack 5 (Json.ofOption FormulaFacts.toJson t.facts?) :=
    Json.comesBack_ofOption fun f _ => f.comesBack_toJson
  exact Json.comesBack_ofFields (n := 5) (by simp [text, type, aggregation, facts])

end SemanticLayer
