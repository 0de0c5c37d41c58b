import Mathlib.Data.List.Induction
import SemanticLayer.Blend.MetricRows
import SemanticLayer.Proofs.Blend.Scoping
import SemanticLayer.Proofs.Result

/-!
# Columns of formulas

Formulas that are computed beside the columns of some rows, of each label the first one.

* `BlendPlan.labels_distinctFormulas`: no label is lost, and none is there twice;
* `Dataframe.mem_formulaItems`: a label that is a column already stays that column;
* `OverrideTables.join_eq_ok`: one join for each mapping used;
* `Dataframe.names_withFormulas`: rows with formulas offer their columns and all labels.
-/

namespace SemanticLayer

open Sql (Expr Query SelectItem)
open Formula (PreFormula)

namespace BlendPlan

/-- What is known of some formulas: the labels seen, and the formulas kept, the last one first. -/
def distinctState (fs : List PreFormula) : List String × List PreFormula :=
  fs.foldl (fun (seen, kept) f =>
    if f.label ∈ seen then (seen, kept) else (f.label :: seen, f :: kept)) ([], [])

theorem distinctState_append (fs : List PreFormula) (f : PreFormula) :
    distinctState (fs ++ [f]) =
      if f.label ∈ (distinctState fs).1 then distinctState fs
      else (f.label :: (distinctState fs).1, f :: (distinctState fs).2) := by
  unfold distinctState
  rw [List.foldl_append, List.foldl_cons, List.foldl_nil]

theorem distinctState_seen (fs : List PreFormula) :
    (distinctState fs).1 = (distinctState fs).2.map (·.label) ∧
      ∀ label, label ∈ (distinctState fs).1 ↔ label ∈ fs.map (·.label) := by
  induction fs using List.reverseRecOn with
  | nil => exact ⟨rfl, fun _ => Iff.rfl⟩
  | append_singleton fs f ih =>
    obtain ⟨labels, seen⟩ := ih
    rw [distinctState_append]
    split
    · rename_i h
      refine ⟨labels, fun label => ?_⟩
      rw [seen, List.map_append, List.mem_append, List.map_singleton, List.mem_singleton]
      refine (or_iff_left_of_imp ?_).symm
      rintro rfl
      exact (seen _).1 h
    · constructor
      · rw [List.map_cons, labels]
      · intro label
        rw [List.mem_cons, seen, List.map_append, List.mem_append, List.map_singleton,
          List.mem_singleton]
        exact or_comm

/-- A formula counts unless one before it has its label. -/
theorem distinctFormulas_append (fs : List PreFormula) (f : PreFormula) :
    distinctFormulas (fs ++ [f]) =
      if f.label ∈ fs.map (·.label) then distinctFormulas fs else distinctFormulas fs ++ [f] := by
  change (distinctState _).2.reverse = _
  rw [distinctState_append]
  simp only [(distinctState_seen fs).2]
  split
  · rfl
  · exact List.reverse_cons ..

/-- The formulas that count have each label once. -/
theorem labels_distinctFormulas (fs : List PreFormula) :
    ((distinctFormulas fs).map (·.label)).Nodup ∧
      ∀ label, label ∈ (distinctFormulas fs).map (·.label) ↔ label ∈ fs.map (·.label) := by
  induction fs using List.reverseRecOn with
  | nil => exact ⟨List.nodup_nil, fun _ => Iff.rfl⟩
  | append_singleton fs f ih =>
    obtain ⟨nodup, same⟩ := ih
    rw [distinctFormulas_append]
    split
    · rename_i h
      refine ⟨nodup, fun label => ?_⟩
      rw [same, List.map_append, List.mem_append, List.map_singleton, List.mem_singleton]
      refine (or_iff_left_of_imp ?_).symm
      rintro rfl
      exact h
    · rename_i h
      rw [List.map_append, List.map_singleton]
      constructor
      · refine List.nodup_append.2 ⟨nodup, List.nodup_singleton _, ?_⟩
        rintro l hl _ hf rfl
        exact h ((same _).1 (List.mem_singleton.1 hf ▸ hl))
      · intro label
        rw [List.map_append, List.mem_append, List.mem_append, same, List.map_singleton]

end BlendPlan

namespace Dataframe

open BlendPlan (distinctFormulas)

/-- The columns of some names, with formulas under the names that are left. -/
def formulaItems (names : List String) (fs : List PreFormula) : SortedMap String SelectItem :=
  fs.foldl (fun is f => is.insertIfNew f.label (f.formula.named f.label))
    (.ofList (names.map fun name => (name, .ofColumn name)))

theorem formulaItems_append (names : List String) (fs : List PreFormula) (f : PreFormula) :
    formulaItems names (fs ++ [f]) =
      (formulaItems names fs).insertIfNew f.label (f.formula.named f.label) := by
  unfold formulaItems
  rw [List.foldl_append, List.foldl_cons, List.foldl_nil]

theorem mem_keys_formulaItems {names : List String} {fs : List PreFormula} {name : String} :
    name ∈ (formulaItems names fs).keys ↔ name ∈ names ∨ name ∈ fs.map (·.label) := by
  induction fs using List.reverseRecOn with
  | nil =>
    unfold formulaItems
    rw [List.foldl_nil, SortedMap.mem_keys_ofList, List.map_map]
    simp
  | append_singleton fs f ih =>
    rw [formulaItems_append, SortedMap.mem_keys_insertIfNew, ih, List.map_append, List.mem_append,
      List.map_singleton, List.mem_singleton, or_comm (a := name = f.label), or_assoc]

/-- Each name keeps its column; a formula counts if its label is no name. -/
theorem mem_formulaItems {names : List String} {fs : List PreFormula} {name : String}
    {i : SelectItem} :
    (name, i) ∈ (formulaItems names fs).toList ↔
      (name ∈ names ∧ i = .ofColumn name) ∨
        ∃ f ∈ distinctFormulas fs, f.label ∉ names ∧ name = f.label ∧ i = f.formula.named name := by
  induction fs using List.reverseRecOn with
  | nil =>
    have columns : (name, i) ∈ (formulaItems names []).toList ↔
        name ∈ names ∧ i = .ofColumn name := by
      rw [← SortedMap.get?_eq_some_iff]
      constructor
      · intro h
        obtain ⟨n, hn, e⟩ := List.mem_map.1 (SortedMap.mem_of_get?_ofList h)
        cases e
        exact ⟨hn, rfl⟩
      · rintro ⟨hn, rfl⟩
        have key : name ∈ (formulaItems names []).keys := mem_keys_formulaItems.2 (.inl hn)
        obtain ⟨j, hj⟩ := SortedMap.mem_keys.1 key
        obtain ⟨n, _, e⟩ := List.mem_map.1 (SortedMap.mem_of_mem_ofList hj)
        cases e
        exact SortedMap.get?_eq_some_iff.2 hj
    rw [columns]
    exact (or_iff_left fun ⟨_, hf, _⟩ => by cases hf).symm
  | append_singleton fs f ih =>
    rw [formulaItems_append, SortedMap.mem_toList_insertIfNew, ih, mem_keys_formulaItems,
      BlendPlan.distinctFormulas_append]
    split
    · rename_i seen
      exact or_iff_left fun h => h.1 (.inr seen)
    · rename_i new
      rw [or_assoc]
      refine or_congr_right ?_
      constructor
      · rintro (⟨g, hg, h⟩ | ⟨h, rfl, rfl⟩)
        · exact ⟨g, List.mem_append_left _ hg, h⟩
        · exact ⟨f, List.mem_append_right _ (List.mem_singleton_self _), fun hn => h (.inl hn),
            rfl, rfl⟩
      · rintro ⟨g, hg, hn, rfl, rfl⟩
        rcases List.mem_append.1 hg with hg | hg
        · exact .inl ⟨g, hg, hn, rfl, rfl⟩
        · cases List.mem_singleton.1 hg
          exact .inr ⟨fun h => h.elim hn new, rfl, rfl⟩

theorem outputNames_formulaItems (names : List String) (fs : List PreFormula) :
    (formulaItems names fs).values.filterMap SelectItem.outputName? =
      (formulaItems names fs).keys := by
  refine outputNames_values ?_
  intro name i hi
  rcases mem_formulaItems.1 hi with ⟨_, rfl⟩ | ⟨f, _, _, rfl, rfl⟩
  · rfl
  · rfl

end Dataframe

namespace OverrideTables

/-- The join of one use of a mapping. -/
def useJoin (u : OverrideKey × Expr) : Sql.Join where
  kind := if u.1.keepsMissing then .left else .inner
  table := (Sql.TableRef.named (OverrideKey.tableName u.1.mapping)).withAlias u.1.identifier
  condition :=
    let mapped := Expr.tableCol u.1.identifier OverrideUses.valueColumn
    (mapped.eq u.2).or ((Expr.isNull mapped false).and (.isNull u.2 false))

/-- Whether a common table is that of a use. -/
def Serves (tables : OverrideTables) (u : OverrideKey × Expr) (t : Sql.CommonTable) : Prop :=
  t.name = OverrideKey.tableName u.1.mapping ∧ tables.get? u.1.mapping = some t.query

variable {tables : OverrideTables}

theorem foldlM_joinUse_eq_ok {uses : List (OverrideKey × Expr)} {q q' : Query}
    (h : uses.foldlM (fun q (key, value) => tables.joinUse q key value) q = .ok q') :
    ∃ ts, List.Forall₂ tables.Serves uses ts ∧
      q' = { q with joins := q.joins ++ uses.map useJoin, tables := q.tables ++ ts } := by
  induction uses generalizing q with
  | nil =>
    cases h
    refine ⟨[], .nil, ?_⟩
    rw [List.map_nil, List.append_nil, List.append_nil]
    cases q'
    rfl
  | cons u uses ih =>
    obtain ⟨key, value⟩ := u
    rw [List.foldlM_cons] at h
    obtain ⟨p, hp, h⟩ := Result.bind_eq_ok.1 h
    obtain ⟨ts, serves, rfl⟩ := ih h
    change tables.joinUse q key value = .ok p at hp
    unfold joinUse at hp
    split at hp
    · cases hp
    · rename_i body found
      cases hp
      refine ⟨⟨OverrideKey.tableName key.mapping, body⟩ :: ts, .cons ⟨rfl, found⟩ serves, ?_⟩
      simp only [Query.withTable, Query.join, List.append_assoc, List.map_cons]
      rfl

/-- Each use adds its join and its table. -/
theorem join_eq_ok {uses : OverrideUses} {q q' : Query} (h : tables.join q uses.toList = .ok q') :
    ∃ ts, List.Forall₂ tables.Serves uses.toList ts ∧
      q' = { q with joins := q.joins ++ uses.toList.map useJoin, tables := q.tables ++ ts } := by
  unfold join at h
  rw [SortedMap.toList_ofList uses.increasing] at h
  exact foldlM_joinUse_eq_ok h

end OverrideTables

namespace Dataframe

section
variable {df df' : Dataframe} {fs : List PreFormula} {tables : OverrideTables}
  {overrides : OverrideUses}

/-- The query that computes formulas, with the tables of the mappings it joins. -/
def formulaQuery (df : Dataframe) (fs : List PreFormula) (uses : OverrideUses)
    (ts : List Sql.CommonTable) : Query :=
  { (Query.ofItems (formulaItems df.names fs).values).fromTable (df.table "dimension_source") with
    joins := uses.toList.map OverrideTables.useJoin
    tables := ts }

theorem withFormulas_eq_ok (h : df.withFormulas fs tables overrides = .ok df') :
    (fs = [] ∧ df' = df) ∨ (fs ≠ [] ∧ ∃ ts, List.Forall₂ tables.Serves overrides.toList ts ∧
      df' = df.derive (df.formulaQuery fs overrides ts) df.columns) := by
  unfold withFormulas at h
  split at h
  · rename_i none
    cases h
    exact .inl ⟨List.isEmpty_iff.1 none, rfl⟩
  · rename_i some
    obtain ⟨q, hq, h⟩ := Result.bind_eq_ok.1 h
    cases h
    obtain ⟨ts, serves, rfl⟩ := OverrideTables.join_eq_ok hq
    exact .inr ⟨fun none => some (List.isEmpty_iff.2 none), ts, serves, rfl⟩

theorem columns_withFormulas (h : df.withFormulas fs tables overrides = .ok df') :
    df'.columns = df.columns := by
  rcases withFormulas_eq_ok h with ⟨_, rfl⟩ | ⟨_, _, _, rfl⟩
  · rfl
  · rfl

/-- Formulas come beside the columns there are, each name once. -/
theorem names_withFormulas (h : df.withFormulas fs tables overrides = .ok df') (hfs : fs ≠ []) :
    df'.names.Nodup ∧ ∀ name, name ∈ df'.names ↔ name ∈ df.names ∨ name ∈ fs.map (·.label) := by
  rcases withFormulas_eq_ok h with ⟨none, _⟩ | ⟨_, ts, _, rfl⟩
  · exact absurd none hfs
  · have keys : (df.formulaQuery fs overrides ts).outputNames.Perm (formulaItems df.names fs).keys :=
      (Query.outputNames_ofItems rfl rfl).trans (.of_eq (outputNames_formulaItems ..))
    exact ⟨keys.nodup_iff.2 (SortedMap.keys_nodup _), fun name =>
      keys.mem_iff.trans mem_keys_formulaItems⟩

end

end Dataframe

end SemanticLayer
