import SemanticLayer.Filter.Clause
import SemanticLayer.Proofs.Json.Records

/-!
# Filters from their JSON

A filter is read back from its JSON value as it is.  From the text of that value it comes back
with each double as the text gives it, unless its groups are nested too deep.
-/

namespace SemanticLayer

open Decode

/-! ## Values -/

namespace FilterValue

/-- A value with a double as it is read from its text. -/
def reread? : FilterValue → Option FilterValue
  | .float x => (Json.rereadReal? x).map .float
  | v => some v

/-- The double of a value, if it is one. -/
def floats : FilterValue → List Double
  | .float x => [x]
  | _ => []

theorem ofJson_toJson (v : FilterValue) : ofJson v.toJson = .ok v := by
  cases v with
  | int n =>
    rw [toJson, ofJson, if_pos ⟨n.minValue_le_toInt, n.toInt_le⟩, Int64.ofInt_toInt]
  | _ => rfl

theorem toJson_ne_null (v : FilterValue) : v.toJson ≠ .null := by
  cases v <;> nofun

theorem isProper_toJson {v : FilterValue} (h : ∀ x ∈ v.floats, x.isFinite = true) :
    v.toJson.IsProper := by
  cases v with
  | int n =>
    have low := n.le_toInt
    have high := n.toInt_lt
    constructor
    · exact low
    · exact Int.lt_trans high (by decide)
  | float x => exact h x (List.mem_singleton_self x)
  | _ => trivial

theorem reread?_toJson (v : FilterValue) : v.toJson.reread? = v.reread?.map toJson := by
  cases v with
  | float x =>
    change (Json.rereadReal? x).map .real = ((Json.rereadReal? x).map FilterValue.float).map toJson
    rw [Option.map_map]
    rfl
  | _ => rfl

theorem reread?_eq_self_iff {v : FilterValue} :
    v.reread? = some v ↔ ∀ x ∈ v.floats, Json.rereadReal? x = some x := by
  cases v with
  | float x => simp [reread?, floats]
  | _ => simp [reread?, floats]

end FilterValue

theorem FilterOperator.ofJson_symbol (o : FilterOperator) :
    FilterOperator.ofJson (.str o.symbol) = .ok o := by
  cases o <;> rfl

/-! ## Filters -/

namespace FilterClause

mutual

/-- The doubles a filter compares with. -/
def floats : FilterClause → List Double
  | .group _ cs _ => floatsOfAll cs
  | .value _ _ v? => v?.toList.flatMap FilterValue.floats
  | .taxons _ _ _ => []
  | .among _ _ vs => vs.flatMap FilterValue.floats

def floatsOfAll : List FilterClause → List Double
  | [] => []
  | c :: cs => c.floats ++ floatsOfAll cs

end

mutual

/-- A filter with each double as it is read from its text. -/
def reread? : FilterClause → Option FilterClause
  | .group any cs negate => (rereadAll? cs).map fun ds => .group any ds negate
  | .value t o none => some (.value t o none)
  | .value t o (some v) => v.reread?.map fun w => .value t o (some w)
  | .taxons t r o => some (.taxons t r o)
  | .among t negated vs => (vs.mapM FilterValue.reread?).map fun ws => .among t negated ws

def rereadAll? : List FilterClause → Option (List FilterClause)
  | [] => some []
  | c :: cs => do return (← c.reread?) :: (← rereadAll? cs)

end

/-- The filters of a group, given as an array. -/
def clauseList : Decoder (List FilterClause)
  | .arr items => ofJsonEach items
  | _ => .error .malformed

theorem groupClauses_eq (fields : List (String × Json)) :
    groupClauses fields = Fields.get? fields "clauses" clauseList := by
  induction fields with
  | nil => rw [groupClauses]; rfl
  | cons f fields ih =>
    obtain ⟨name, j⟩ := f
    unfold groupClauses
    rw [Fields.get?, List.find?_cons]
    by_cases h : name = "clauses"
    · simp only [h, if_true, decide_true]
      cases j <;> rfl
    · simp only [h, if_false, decide_false]
      exact ih

/-- Filters that hold no others are read by their own fields. -/
theorem ofJson_ofFields (kind : String) {fs : List (String × Json)}
    (distinct : (fs.map (·.1)).Nodup) (tag : ("type", .str kind) ∈ fs) (other : kind ≠ "group") :
    ofJson (.ofFields fs) = ofFields kind (SortedMap.ofList fs).toList := by
  rw [Json.ofFields_eq, ofJson, get?_ofList (d := string) distinct tag rfl]
  simp only [present, bind, Except.bind]

theorem ofJson_value (t : String) (o : FilterOperator) (v? : Option FilterValue) :
    ofJson (toJson (.value t o v?)) = .ok (.value t o v?) := by
  rw [toJson, ofJson_ofFields "taxon_value" (by simp) (by simp) (by decide), ofFields]
  refine Result.bind_eq_ok.2 ⟨some o, get?_ofList (by simp) (by simp) o.ofJson_symbol, ?_⟩
  refine Result.bind_eq_ok.2 ⟨o, rfl, ?_⟩
  refine Result.bind_eq_ok.2 ⟨v?, getNullable_ofList (f := FilterValue.toJson) (by simp) (by simp)
    (fun v _ => v.ofJson_toJson) FilterValue.toJson_ne_null, ?_⟩
  exact Result.bind_eq_ok.2 ⟨some t, get?_ofList (j := .str t) (by simp) (by simp) rfl, rfl⟩

theorem ofJson_taxons (t r : String) (o : FilterOperator) :
    ofJson (toJson (.taxons t r o)) = .ok (.taxons t r o) := by
  rw [toJson, ofJson_ofFields "taxon_taxon" (by simp) (by simp) (by decide), ofFields]
  refine Result.bind_eq_ok.2 ⟨some o, get?_ofList (by simp) (by simp) o.ofJson_symbol, ?_⟩
  refine Result.bind_eq_ok.2 ⟨o, rfl, ?_⟩
  refine Result.bind_eq_ok.2 ⟨some r, get?_ofList (j := .str r) (by simp) (by simp) rfl, ?_⟩
  refine Result.bind_eq_ok.2 ⟨r, rfl, ?_⟩
  exact Result.bind_eq_ok.2 ⟨some t, get?_ofList (j := .str t) (by simp) (by simp) rfl, rfl⟩

theorem negatedOfJson_name (negated : Bool) :
    negatedOfJson (.str (if negated then "NOT_IN" else "IN")) = .ok negated := by
  cases negated <;> rfl

theorem anyOfJson_name (any : Bool) : anyOfJson (.str (if any then "OR" else "AND")) = .ok any := by
  cases any <;> rfl

theorem ofJson_among (t : String) (negated : Bool) (vs : List FilterValue) :
    ofJson (toJson (.among t negated vs)) = .ok (.among t negated vs) := by
  have values : list FilterValue.ofJson (.arr (vs.map FilterValue.toJson)) = .ok vs :=
    list_map fun v _ => v.ofJson_toJson
  rw [toJson, ofJson_ofFields "taxon_array" (by simp) (by simp) (by decide), ofFields]
  refine Result.bind_eq_ok.2
    ⟨some negated, get?_ofList (by simp) (by simp) (negatedOfJson_name negated), ?_⟩
  refine Result.bind_eq_ok.2 ⟨negated, rfl, ?_⟩
  refine Result.bind_eq_ok.2 ⟨some vs, get?_ofList (by simp) (by simp) values, ?_⟩
  refine Result.bind_eq_ok.2 ⟨vs, rfl, ?_⟩
  exact Result.bind_eq_ok.2 ⟨some t, get?_ofList (j := .str t) (by simp) (by simp) rfl, rfl⟩

theorem ofJson_group (any : Bool) {cs : List FilterClause} (negate : Bool)
    (each : ofJsonEach (toJsonEach cs) = .ok cs) :
    ofJson (toJson (.group any cs negate)) = .ok (.group any cs negate) := by
  have clauses : clauseList (.arr (toJsonEach cs)) = .ok cs := each
  rw [toJson, Json.ofFields_eq, ofJson, groupClauses_eq]
  refine Result.bind_eq_ok.2
    ⟨some "group", get?_ofList (j := .str "group") (by simp) (by simp) rfl, ?_⟩
  refine Result.bind_eq_ok.2 ⟨"group", rfl, ?_⟩
  refine Result.bind_eq_ok.2 ⟨some any, get?_ofList (by simp) (by simp) (anyOfJson_name any), ?_⟩
  refine Result.bind_eq_ok.2 ⟨any, rfl, ?_⟩
  refine Result.bind_eq_ok.2 ⟨some cs, get?_ofList (by simp) (by simp) clauses, ?_⟩
  refine Result.bind_eq_ok.2 ⟨cs, rfl, ?_⟩
  exact Result.bind_eq_ok.2
    ⟨negate, getD_ofList (j := .bool negate) (by simp) (by simp) rfl, rfl⟩

mutual

/-- A filter is read back from its JSON value. -/
theorem ofJson_toJson (c : FilterClause) : ofJson c.toJson = .ok c := by
  match c with
  | .group any cs negate => exact ofJson_group any negate (ofJsonEach_toJsonEach cs)
  | .value t o v? => exact ofJson_value t o v?
  | .taxons t r o => exact ofJson_taxons t r o
  | .among t negated vs => exact ofJson_among t negated vs

theorem ofJsonEach_toJsonEach (cs : List FilterClause) : ofJsonEach (toJsonEach cs) = .ok cs := by
  match cs with
  | [] => rw [toJsonEach, ofJsonEach]; rfl
  | c :: cs =>
    rw [toJsonEach, ofJsonEach, ofJson_toJson c, ofJsonEach_toJsonEach cs]
    rfl

end

/-! ## Texts -/

mutual

theorem isProper_toJson (c : FilterClause) (h : ∀ x ∈ c.floats, x.isFinite = true) :
    c.toJson.IsProper := by
  match c with
  | .group any cs negate =>
    have each := areProper_toJsonEach cs h
    rw [toJson]
    refine Json.isProper_ofFields ?_
    simp [Json.IsProper, each]
  | .value t o v? =>
    rw [toJson]
    refine Json.isProper_ofFields ?_
    cases v? with
    | none => simp [Json.IsProper, Json.ofOption]
    | some v =>
      have value : v.toJson.IsProper :=
        FilterValue.isProper_toJson fun x hx => h x (by simpa [floats] using hx)
      simp [Json.IsProper, Json.ofOption, value]
  | .taxons t r o =>
    rw [toJson]
    exact Json.isProper_ofFields (by simp [Json.IsProper])
  | .among t negated vs =>
    have values : Json.AreProper (vs.map FilterValue.toJson) := by
      refine Json.areProper_iff.2 (List.forall_mem_map.2 fun v hv => ?_)
      refine FilterValue.isProper_toJson fun x hx => h x ?_
      exact List.mem_flatMap.2 ⟨v, hv, hx⟩
    rw [toJson]
    refine Json.isProper_ofFields ?_
    simp [Json.IsProper, values]

theorem areProper_toJsonEach (cs : List FilterClause)
    (h : ∀ x ∈ floatsOfAll cs, x.isFinite = true) : Json.AreProper (toJsonEach cs) := by
  match cs with
  | [] => exact trivial
  | c :: cs =>
    obtain ⟨first, later⟩ := List.forall_mem_append.1 h
    exact ⟨isProper_toJson c first, areProper_toJsonEach cs later⟩

end

theorem rereadItems?_values (vs : List FilterValue) :
    Json.rereadItems? (vs.map FilterValue.toJson) =
      (vs.mapM FilterValue.reread?).map fun ws => ws.map FilterValue.toJson := by
  induction vs with
  | nil => rfl
  | cons v vs ih =>
    rw [List.map_cons, Json.rereadItems?, ih, v.reread?_toJson, List.mapM_cons]
    cases v.reread? <;> cases vs.mapM FilterValue.reread? <;> rfl

mutual

theorem reread?_toJson (c : FilterClause) : c.toJson.reread? = c.reread?.map toJson := by
  match c with
  | .group any cs negate =>
    rw [toJson, Json.reread?_ofFields (by simp), reread?]
    simp only [Json.rereadFields?, Json.reread?, rereadItems?_toJsonEach cs]
    cases rereadAll? cs <;> simp [toJson]
  | .value t o none =>
    rw [toJson, Json.reread?_ofFields (by simp), reread?]
    simp [Json.rereadFields?, Json.reread?, Json.ofOption, toJson]
  | .value t o (some v) =>
    rw [toJson, Json.reread?_ofFields (by simp), reread?]
    simp only [Json.rereadFields?, Json.reread?, Json.ofOption, v.reread?_toJson]
    cases v.reread? <;> simp [toJson, Json.ofOption]
  | .taxons t r o =>
    rw [toJson, Json.reread?_ofFields (by simp), reread?]
    simp [Json.rereadFields?, Json.reread?, toJson]
  | .among t negated vs =>
    rw [toJson, Json.reread?_ofFields (by simp), reread?]
    simp only [Json.rereadFields?, Json.reread?, rereadItems?_values vs]
    cases vs.mapM FilterValue.reread? <;> simp [toJson]

theorem rereadItems?_toJsonEach (cs : List FilterClause) :
    Json.rereadItems? (toJsonEach cs) = (rereadAll? cs).map toJsonEach := by
  match cs with
  | [] => rfl
  | c :: cs =>
    rw [toJsonEach, Json.rereadItems?, reread?_toJson c, rereadItems?_toJsonEach cs, rereadAll?]
    cases c.reread? <;> cases rereadAll? cs <;> simp [toJsonEach]

end

theorem mapM_reread?_eq_self_iff {vs : List FilterValue} :
    vs.mapM FilterValue.reread? = some vs ↔
      ∀ x ∈ vs.flatMap FilterValue.floats, Json.rereadReal? x = some x := by
  induction vs with
  | nil => simp
  | cons v vs ih =>
    rw [List.flatMap_cons, List.forall_mem_append, ← ih, ← v.reread?_eq_self_iff, List.mapM_cons]
    cases v.reread? <;> cases vs.mapM FilterValue.reread? <;> simp

mutual

theorem reread?_eq_self_iff (c : FilterClause) :
    c.reread? = some c ↔ ∀ x ∈ c.floats, Json.rereadReal? x = some x := by
  match c with
  | .group any cs negate =>
    rw [reread?, floats, ← rereadAll?_eq_self_iff cs]
    cases rereadAll? cs <;> simp
  | .value t o none => simp [reread?, floats]
  | .value t o (some v) =>
    rw [reread?, floats]
    simp [← v.reread?_eq_self_iff]
  | .taxons t r o => simp [reread?, floats]
  | .among t negated vs =>
    rw [reread?, floats, ← mapM_reread?_eq_self_iff]
    cases vs.mapM FilterValue.reread? <;> simp

theorem rereadAll?_eq_self_iff (cs : List FilterClause) :
    rereadAll? cs = some cs ↔ ∀ x ∈ floatsOfAll cs, Json.rereadReal? x = some x := by
  match cs with
  | [] => simp [rereadAll?, floatsOfAll]
  | c :: cs =>
    rw [rereadAll?, floatsOfAll, List.forall_mem_append, ← reread?_eq_self_iff c,
      ← rereadAll?_eq_self_iff cs]
    cases c.reread? <;> cases rereadAll? cs <;> simp

end

/-- A filter inside so many groups. -/
def nested (c : FilterClause) : Nat → FilterClause
  | 0 => c
  | n + 1 => .and [c.nested n]

/-- Each group opens an object and an array. -/
theorem depth_nested (c : FilterClause) (n : Nat) :
    (c.nested n).toJson.depth = c.toJson.depth + 2 * n := by
  induction n with
  | zero => rfl
  | succ n ih =>
    rw [nested, FilterClause.and, toJson, Json.depth_ofFields (by simp)]
    simp only [Json.depthOfFields, Json.depth, toJsonEach, Json.depthOfItems, ih]
    omega

/-- From its text a filter comes back with its doubles read again, unless it is too deep. -/
theorem ofText_write {c : FilterClause} (finite : ∀ x ∈ c.floats, x.isFinite = true) :
    ofText ofJson c.toJson.write =
      if c.toJson.depth ≤ Json.maxDepth then c.reread?.elim (.error .malformed) .ok
      else .error .malformed := by
  rw [ofText, Json.parse?_write (isProper_toJson c finite), reread?_toJson]
  by_cases fits : c.toJson.depth ≤ Json.maxDepth
  · rw [if_pos fits, if_pos fits]
    cases c.reread? with
    | none => rfl
    | some d => exact ofJson_toJson d
  · rw [if_neg fits, if_neg fits]

theorem ofText_write_eq_self_iff {c : FilterClause} (finite : ∀ x ∈ c.floats, x.isFinite = true) :
    ofText ofJson c.toJson.write = .ok c ↔
      c.toJson.depth ≤ Json.maxDepth ∧ ∀ x ∈ c.floats, Json.rereadReal? x = some x := by
  rw [ofText_write finite, ← reread?_eq_self_iff]
  cases c.reread? with
  | none => simp
  | some d =>
    by_cases fits : c.toJson.depth ≤ Json.maxDepth <;> simp [fits]

end FilterClause

end SemanticLayer
