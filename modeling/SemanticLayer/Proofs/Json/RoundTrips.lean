import SemanticLayer.Override.Mapping
import SemanticLayer.Proofs.Filter.Codec
import SemanticLayer.Proofs.Taxonomy.Codec

/-!
# The data model from its JSON

Filters, aggregations, taxons and override mappings are read back from their JSON as they are.
This holds of the text too, except that the text of a filter may be nested too deep or hold
doubles that are not read as they were written.
-/

namespace SemanticLayer

open Decode

namespace OverrideMapping

theorem list_pairs (pairs : List (Option String × Option String)) :
    list (pair (nullable string) (nullable string))
      (.arr (pairs.map fun (v, w) => .arr [Json.ofOption .str v, Json.ofOption .str w])) =
      .ok pairs := by
  refine list_map ?_
  rintro ⟨v, w⟩ -
  refine Result.bind_eq_ok.2 ⟨v, nullable_ofOption (fun _ _ => rfl) Json.str_ne_null, ?_⟩
  exact Result.bind_eq_ok.2 ⟨w, nullable_ofOption (fun _ _ => rfl) Json.str_ne_null, rfl⟩

theorem ofJson_toJson {m : OverrideMapping} (h : m.fault? = none) : ofJson m.toJson = .ok m := by
  have kept : m.checked = .ok m := by
    rw [OverrideMapping.checked, h]
  unfold ofJson toJson
  refine Result.bind_eq_ok.2 ⟨_, record_ofFields _ _, ?_⟩
  refine Result.bind_eq_ok.2 ⟨m.company, getD_ofList (j := .str m.company) (by simp) (by simp)
    rfl, ?_⟩
  refine Result.bind_eq_ok.2 ⟨m.pairs, getD_ofList (by simp) (by simp) (list_pairs _), ?_⟩
  refine Result.bind_eq_ok.2 ⟨some m.name, getNullable_ofList (f := .str) (by simp)
    (by simp [Json.ofOption]) (fun _ _ => rfl) Json.str_ne_null, ?_⟩
  refine Result.bind_eq_ok.2 ⟨some m.slug, get?_ofList (j := .str m.slug) (by simp) (by simp)
    rfl, ?_⟩
  refine Result.bind_eq_ok.2 ⟨m.slug, rfl, ?_⟩
  change Decode.checked Error.message m.checked = _
  rw [kept]
  rfl

theorem comesBack_pairs (pairs : List (Option String × Option String)) :
    Json.ComesBack 2 (.arr (pairs.map fun (v, w) =>
      .arr [Json.ofOption .str v, Json.ofOption .str w])) := by
  have side (o : Option String) : Json.ComesBack 0 (Json.ofOption .str o) :=
    Json.comesBack_ofOption fun s _ => Json.comesBack_str 0 s
  refine Json.comesBack_arr (List.forall_mem_map.2 ?_)
  rintro ⟨v, w⟩ -
  exact Json.comesBack_arr (by simp [side])

theorem comesBack_toJson (m : OverrideMapping) : Json.ComesBack 3 m.toJson :=
  Json.comesBack_ofFields (n := 2) (by simp [comesBack_pairs])

end OverrideMapping

namespace Decode

variable {α : Type}

/-- What is written is read back as it is, from the value and from its text. -/
def ReadsBack (d : Decoder α) (write : α → Json) (a : α) : Prop :=
  d (write a) = .ok a ∧ ofText d (write a).write = .ok a

theorem readsBack_of_comesBack {d : Decoder α} {write : α → Json} {a : α}
    (value : d (write a) = .ok a) (h : Json.ComesBack Json.maxDepth (write a)) :
    ReadsBack d write a := ⟨value, (ofText_write h).trans value⟩

end Decode

/-- Whether all aggregations of a taxon, its own and that of its derived facts, are ones that a
declaration gives. -/
def Taxon.IsDeclared (t : Taxon) : Prop :=
  (∀ a ∈ t.aggregation?, a.IsDeclared) ∧ ∀ f ∈ t.facts?, ∀ a ∈ f.aggregation?, a.IsDeclared

/-- Filters with finite numbers are read back from their JSON value.  Their text gives them back
exactly if it is not nested too deep and each number is read as it was written.  All other values
of the data model that pass their checks are read back from both. -/
theorem readsBack_dataModel :
    (∀ c : FilterClause, (∀ x ∈ c.floats, x.isFinite = true) →
      FilterClause.ofJson c.toJson = .ok c ∧
        (ReadsBack FilterClause.ofJson FilterClause.toJson c ↔
          c.toJson.depth ≤ Json.maxDepth ∧ ∀ x ∈ c.floats, Json.rereadReal? x = some x)) ∧
    (∀ type params? a, Aggregation.declare type params? = .ok a →
      ReadsBack Aggregation.ofJson Aggregation.toJson a) ∧
    (∀ t : Taxon, t.IsDeclared → ReadsBack Taxon.ofJson Taxon.toJson t) ∧
    ∀ m : OverrideMapping, m.fault? = none →
      ReadsBack OverrideMapping.ofJson OverrideMapping.toJson m := by
  refine ⟨?_, ?_, ?_, ?_⟩
  · intro c finite
    have value : FilterClause.ofJson c.toJson = .ok c := c.ofJson_toJson
    refine ⟨value, ?_⟩
    rw [← FilterClause.ofText_write_eq_self_iff finite]
    exact and_iff_right value
  · intro type params? a declared
    have value : Aggregation.ofJson a.toJson = .ok a :=
      Aggregation.ofJson_toJson ⟨type, params?, declared⟩
    exact readsBack_of_comesBack value (a.comesBack_toJson.mono (by decide))
  · intro t declared
    have value : Taxon.ofJson t.toJson = .ok t := Taxon.ofJson_toJson declared.1 declared.2
    exact readsBack_of_comesBack value (t.comesBack_toJson.mono (by decide))
  · intro m valid
    have value : OverrideMapping.ofJson m.toJson = .ok m := OverrideMapping.ofJson_toJson valid
    exact readsBack_of_comesBack value (m.comesBack_toJson.mono (by decide))

/-- A filter in two groups, an aggregation, a taxon and a mapping that are read back. -/
theorem readsBack_nested :
    ReadsBack FilterClause.ofJson FilterClause.toJson
      (.nested (.value "spend" .gt (some (.float ⟨0x3fb999999999999a⟩))) 2) ∧
    ReadsBack Aggregation.ofJson Aggregation.toJson (.countDistinct ["user", "day"]) ∧
    ReadsBack Taxon.ofJson Taxon.toJson (.ofFormula "cpm" "spend / impressions" .metric "c1") ∧
    ReadsBack OverrideMapping.ofJson OverrideMapping.toJson
      ⟨"countries", "Countries", [(some "UK", some "GB"), (none, some "?")], "c1"⟩ := by
  refine ⟨?_, ?_, ?_, ?_⟩
  · refine ((readsBack_dataModel.1 _ ?_).2).2 ⟨?_, ?_⟩
    · decide +kernel
    · rw [FilterClause.depth_nested]
      decide +kernel
    · decide +kernel
  · exact readsBack_dataModel.2.1 .countDistinct (some (.fields ["user", "day"])) _ rfl
  · exact readsBack_dataModel.2.2.1 _ ⟨nofun, nofun⟩
  · exact readsBack_dataModel.2.2.2 _ (by decide +kernel)

/-- A filter whose text is read as one with the next larger double. -/
def FilterClause.unstable : FilterClause :=
  .value "spend" .gt (some (.float ⟨0x403f3eca06faea82⟩))

/-- Not read back: a filter with the number 31.245270191439438, whose text is read as the next
larger double; a filter in 64 groups; and a taxon with an aggregation that no declaration gives. -/
theorem not_readsBack :
    (∀ x ∈ FilterClause.unstable.floats, x.isFinite = true) ∧
    ¬ReadsBack FilterClause.ofJson FilterClause.toJson .unstable ∧
    ¬ReadsBack FilterClause.ofJson FilterClause.toJson (.nested (.taxons "spend" "budget" .gt) 64) ∧
    ¬ReadsBack Taxon.ofJson Taxon.toJson
      { Taxon.ofFormula "users" "" .metric "c1" with definition := .raw (.countDistinct [" "]) } := by
  refine ⟨?_, ?_, ?_, ?_⟩
  · decide +kernel
  · intro back
    have same := (FilterClause.ofText_write_eq_self_iff (by decide +kernel)).1 back.2
    revert same
    decide +kernel
  · intro back
    have same := (FilterClause.ofText_write_eq_self_iff (by decide +kernel)).1 back.2
    rw [FilterClause.depth_nested] at same
    revert same
    decide +kernel
  · rintro ⟨value, -⟩
    revert value
    decide +kernel

end SemanticLayer
