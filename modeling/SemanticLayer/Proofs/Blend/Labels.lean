import Mathlib.Data.List.Nodup
import SemanticLayer.Proofs.Blend.FormulaColumns
import SemanticLayer.Proofs.Formula.Labels
import SemanticLayer.Proofs.Formula.Numbering

/-!
# Labels of a plan

A plan puts the columns of all formulas together, and from then on a column is known by its label
alone: of formulas with one label a stage computes the first.

* `BlendPlan.LabelsIdentify`: what a plan labels alike is the same;
* `plan_shares`: a plan is what its taxons add, one after the other, each under its own slug;
* `plan_labelsIdentify_iff`: the labels of a plan identify its formulas exactly if those columns do
  agree whose names differ and whose labels fall together.
-/

namespace SemanticLayer

open Formula (PreFormula SourceTemplate AreLabels AreApart columnLabel)

/-- The templates of one data source. -/
def SourceTemplates.inSource (ts : SourceTemplates) (dataSource : String) : List SourceTemplate :=
  (ts.get? dataSource).getD []

theorem SourceTemplates.inSource_add (ts : SourceTemplates) (new : List SourceTemplate)
    (dataSource : String) :
    (ts.add new).inSource dataSource =
      ts.inSource dataSource ++ new.filter (·.dataSource = dataSource) := by
  induction new generalizing ts with
  | nil => exact (List.append_nil _).symm
  | cons t new ih =>
    refine (ih _).trans ?_
    unfold SourceTemplates.inSource SortedMap.alter
    rw [SortedMap.get?_insert, List.filter_cons]
    by_cases h : t.dataSource = dataSource
    · simp [h]
    · simp [h]

theorem SourceTemplates.inSource_add_append (ts : SourceTemplates) (new : List SourceTemplate)
    (dataSource : String) :
    (ts.add new).inSource dataSource =
      ts.inSource dataSource ++ (SourceTemplates.add .empty new).inSource dataSource := by
  rw [inSource_add, inSource_add .empty]
  rfl

namespace BlendPlan

/-- Whether two plans compute the same under a label. -/
structure AgreesWith (p q : BlendPlan) (label : String) : Prop where
  metric : ∀ f ∈ p.metricFormulas, ∀ g ∈ q.metricFormulas, f.label = label → g.label = label →
    f.formula = g.formula ∧ f.aggregation = g.aggregation
  dimension : ∀ f ∈ p.dimensionFormulas, ∀ g ∈ q.dimensionFormulas,
    f.label = label → g.label = label → f.formula = g.formula
  source : ∀ dataSource, ∀ t ∈ p.sourceTemplates.inSource dataSource,
    ∀ u ∈ q.sourceTemplates.inSource dataSource, t.label = label → u.label = label →
      t.template = u.template

/-- Whether formulas of a plan for one stage are the same if they have the same label, and so are
templates of one data source. -/
def LabelsIdentify (p : BlendPlan) : Prop := ∀ label, p.AgreesWith p label

/-- Whether no formula of a plan is lost where a stage takes each label once.  A column below the
dimensions that has the label already counts as the formula. -/
structure KeepsFormulas (p : BlendPlan) : Prop where
  metric : ∀ f ∈ p.metricFormulas, f ∈ distinctFormulas p.metricFormulas
  dimension : ∀ {fs : List PreFormula} {df df' : Dataframe} {tables : OverrideTables}
    {uses : OverrideUses}, fs ⊆ p.dimensionFormulas → df.withFormulas fs tables uses = .ok df' →
      ∀ f ∈ fs, f.label ∉ df.names → f.formula.named f.label ∈ df'.query.items

theorem mem_of_mem_distinctFormulas {fs : List PreFormula} {f : PreFormula}
    (h : f ∈ distinctFormulas fs) : f ∈ fs := by
  induction fs using List.reverseRecOn with
  | nil => cases h
  | append_singleton fs g ih =>
    rw [distinctFormulas_append] at h
    split at h
    · exact List.mem_append_left _ (ih h)
    · exact (List.mem_append.1 h).elim (fun h => List.mem_append_left _ (ih h))
        (List.mem_append_right _)

/-- Each label of some formulas is the label of one that counts. -/
theorem exists_mem_distinctFormulas {fs : List PreFormula} {f : PreFormula} (h : f ∈ fs) :
    ∃ g ∈ distinctFormulas fs, g ∈ fs ∧ g.label = f.label := by
  have label := ((labels_distinctFormulas fs).2 f.label).2 (List.mem_map_of_mem h)
  obtain ⟨g, hg, same⟩ := List.mem_map.1 label
  exact ⟨g, hg, mem_of_mem_distinctFormulas hg, same⟩

/-- If labels identify formulas, taking each label once loses none. -/
theorem LabelsIdentify.keepsFormulas {p : BlendPlan} (h : p.LabelsIdentify) :
    p.KeepsFormulas where
  metric := by
    intro f hf
    obtain ⟨g, hg, mem, same⟩ := exists_mem_distinctFormulas hf
    obtain ⟨formula, aggregation⟩ := (h f.label).metric f hf g mem rfl same
    have equal : f = g := by
      cases f
      cases g
      cases formula
      cases aggregation
      cases same
      rfl
    rwa [equal]
  dimension := by
    intro fs df df' tables uses hfs computed f hf new
    obtain ⟨g, hg, mem, same⟩ := exists_mem_distinctFormulas hf
    have formula := (h f.label).dimension f (hfs hf) g (hfs mem) rfl same
    rcases Dataframe.withFormulas_eq_ok computed with ⟨rfl, _⟩ | ⟨_, ts, _, rfl⟩
    · cases hf
    · have item : (f.label, f.formula.named f.label) ∈
          (Dataframe.formulaItems df.names fs).toList :=
        Dataframe.mem_formulaItems.2 (.inr ⟨g, hg, same ▸ new, same.symm, by rw [formula]⟩)
      exact (Sql.Query.items_ofItems_perm _).mem_iff.2 (SortedMap.mem_values.2 ⟨_, item⟩)

end BlendPlan

/-! ## Shares -/

/-- What one taxon adds to a plan, under the slug that its columns are called by. -/
structure Share where
  slug : String
  plan : BlendPlan

namespace Share

/-- Whether the columns of a share for one stage have labels of distinct columns of its formula. -/
structure IsLabelled (s : Share) : Prop where
  metric : AreLabels s.slug (fun _ => True) (s.plan.metricFormulas.map (·.label))
  dimension : AreLabels s.slug (fun _ => True) (s.plan.dimensionFormulas.map (·.label))
  source : ∀ dataSource,
    AreLabels s.slug (fun _ => True) ((s.plan.sourceTemplates.inSource dataSource).map (·.label))

end Share

namespace RequestTaxons

variable (ts : RequestTaxons)

/-- What a taxon of the answer adds. -/
def answerShare (t : Taxon) : Result Share :=
  (BlendPlan.addTaxon ts .empty t).map (Share.mk t.slug)

/-- What a dimension of the comparison adds. -/
def comparisonShare (slug : String) : Result Share :=
  let found := ((ts.taxons.get? (Slug.withoutQuotes slug)).map (·.slug)).getD slug
  (BlendPlan.addComparisonTaxon ts .empty slug).map (Share.mk (BlendPlan.comparisonLabel found))

/-- What each taxon adds to the plan of a request. -/
def shares : Result (List Share) := do
  let answer ← (← ts.computed).values.mapM ts.answerShare
  let compared ← ts.request.comparisonTaxons.mapM ts.comparisonShare
  return answer ++ compared

end RequestTaxons

namespace BlendPlan

/-- Whether a plan is another one with what some shares add. -/
structure IsSum (p : BlendPlan) (shares : List Share) (q : BlendPlan) : Prop where
  metric : q.metricFormulas = p.metricFormulas ++ shares.flatMap (·.plan.metricFormulas)
  dimension : q.dimensionFormulas = p.dimensionFormulas ++ shares.flatMap (·.plan.dimensionFormulas)
  source : ∀ dataSource, q.sourceTemplates.inSource dataSource =
    p.sourceTemplates.inSource dataSource ++
      shares.flatMap (·.plan.sourceTemplates.inSource dataSource)
  results : q.results = p.results ++ shares.flatMap (·.plan.results)

namespace IsSum

variable {p q r : BlendPlan} {shares more : List Share}

theorem nil : p.IsSum [] p :=
  ⟨(List.append_nil _).symm, (List.append_nil _).symm, fun _ => (List.append_nil _).symm,
    (List.append_nil _).symm⟩

theorem single {s : Share} (metric : q.metricFormulas = p.metricFormulas ++ s.plan.metricFormulas)
    (dimension : q.dimensionFormulas = p.dimensionFormulas ++ s.plan.dimensionFormulas)
    (source : ∀ dataSource, q.sourceTemplates.inSource dataSource =
      p.sourceTemplates.inSource dataSource ++ s.plan.sourceTemplates.inSource dataSource)
    (results : q.results = p.results ++ s.plan.results) : p.IsSum [s] q := by
  refine ⟨?_, ?_, fun dataSource => ?_, ?_⟩
  · rw [List.flatMap_singleton, metric]
  · rw [List.flatMap_singleton, dimension]
  · rw [List.flatMap_singleton, source]
  · rw [List.flatMap_singleton, results]

theorem append (h : p.IsSum shares q) (h' : q.IsSum more r) : p.IsSum (shares ++ more) r := by
  refine ⟨?_, ?_, fun dataSource => ?_, ?_⟩
  · rw [h'.metric, h.metric, List.flatMap_append, List.append_assoc]
  · rw [h'.dimension, h.dimension, List.flatMap_append, List.append_assoc]
  · rw [h'.source, h.source, List.flatMap_append, List.append_assoc]
  · rw [h'.results, h.results, List.flatMap_append, List.append_assoc]

/-- Each step of a fold adds the share of its member. -/
theorem foldlM {α : Type} {f : BlendPlan → α → Result BlendPlan} {g : α → Result Share}
    (step : ∀ p x q, f p x = .ok q → ∃ s, g x = .ok s ∧ s.IsLabelled ∧ p.IsSum [s] q)
    {xs : List α} (h : xs.foldlM f p = .ok q) :
    ∃ shares, xs.mapM g = .ok shares ∧ (∀ s ∈ shares, s.IsLabelled) ∧ p.IsSum shares q := by
  induction xs generalizing p with
  | nil =>
    cases h
    exact ⟨[], rfl, List.forall_mem_nil _, nil⟩
  | cons x xs ih =>
    rw [List.foldlM_cons] at h
    obtain ⟨m, hm, h⟩ := Result.bind_eq_ok.1 h
    obtain ⟨s, hs, labelled, first⟩ := step p x m hm
    obtain ⟨shares, hshares, each, rest⟩ := ih h
    refine ⟨s :: shares, ?_, List.forall_mem_cons.2 ⟨labelled, each⟩, first.append rest⟩
    rw [List.mapM_cons, hs, hshares]
    rfl

end IsSum

variable {ts : RequestTaxons} {plan plan' : BlendPlan}

theorem labels_render {taxons : TaxonMap} {t : Taxon} {label : String} {dataSources : NameSet}
    {o : Formula.Outcome} (h : render taxons t label dataSources false = .ok o) :
    o.IsLabelled label := by
  unfold render at h
  split at h
  · cases h
  · rename_i calculation _
    dsimp only at h
    generalize hc : Formula.Context.mk .. = ctx at h
    cases hr : Formula.renderTaxon ctx calculation with
    | error e =>
      rw [hr] at h
      cases h
    | ok o' =>
      rw [hr] at h
      cases h
      have labelled := Formula.labels_renderTaxon hr
      rw [← hc] at labelled
      exact labelled

/-- The share of a rendered formula; one of a comparison has no formulas to aggregate. -/
theorem Share.isLabelled_of_outcome {s : Share} {o : Formula.Outcome} (ho : o.IsLabelled s.slug)
    (metric : s.plan.metricFormulas = o.preFormulas ∨ s.plan.metricFormulas = [])
    (dimension : s.plan.dimensionFormulas = o.dimensionFormulas)
    (source : ∀ dataSource, s.plan.sourceTemplates.inSource dataSource =
      o.sourceTemplates.filter (·.dataSource = dataSource)) : s.IsLabelled where
  metric := by
    rcases metric with h | h
    · rw [h]
      exact ho.preFormulas
    · rw [h]
      exact .nil
  dimension := dimension ▸ ho.dimensionFormulas
  source := fun dataSource => by
    rw [source]
    exact ho.sourceTemplates.sublist (List.filter_sublist.map _)

theorem addTaxon_share {t : Taxon} (h : addTaxon ts plan t = .ok plan') :
    ∃ s, ts.answerShare t = .ok s ∧ s.IsLabelled ∧ plan.IsSum [s] plan' := by
  unfold RequestTaxons.answerShare
  unfold addTaxon at h ⊢
  split at h
  · obtain ⟨o, ho, h⟩ := Result.bind_eq_ok.1 h
    cases h
    unfold addComputed
    dsimp only
    rw [ho]
    refine ⟨_, rfl, ?_, ?_⟩
    · exact Share.isLabelled_of_outcome (labels_render ho) (.inl rfl) rfl
        (SourceTemplates.inSource_add .empty o.sourceTemplates)
    · exact .single rfl rfl (SourceTemplates.inSource_add_append _ _) rfl
  · cases h
    refine ⟨_, rfl, ⟨⟨[none], List.nodup_singleton _, fun _ _ => trivial, rfl⟩, .nil,
      fun _ => .nil⟩, ?_⟩
    exact .single rfl (List.append_nil _).symm (fun _ => (List.append_nil _).symm) rfl

theorem addComparisonTaxon_share {slug : String}
    (h : addComparisonTaxon ts plan slug = .ok plan') :
    ∃ s, ts.comparisonShare slug = .ok s ∧ s.IsLabelled ∧ plan.IsSum [s] plan' := by
  unfold RequestTaxons.comparisonShare
  unfold addComparisonTaxon at h ⊢
  split at h
  · cases h
  · rename_i t found
    rw [found]
    dsimp only
    split at h
    · rename_i computed
      obtain ⟨o, ho, h⟩ := Result.bind_eq_ok.1 h
      cases h
      rw [if_pos computed, ho]
      refine ⟨_, rfl, ?_, ?_⟩
      · exact Share.isLabelled_of_outcome (labels_render ho) (.inr rfl) rfl
          (SourceTemplates.inSource_add .empty o.sourceTemplates)
      · exact .single (List.append_nil _).symm rfl (SourceTemplates.inSource_add_append _ _)
          (List.append_nil _).symm
    · rename_i raw
      cases h
      rw [if_neg raw]
      exact ⟨_, rfl, ⟨.nil, .nil, fun _ => .nil⟩, .single (List.append_nil _).symm
        (List.append_nil _).symm (fun _ => (List.append_nil _).symm) (List.append_nil _).symm⟩

theorem addFilters_isSum {p : SourceRequest} (h : addFilters ts plan p = .ok plan') :
    plan.IsSum [] plan' := by
  obtain ⟨_, _, h⟩ := Result.bind_eq_ok.1 h
  obtain ⟨_, _, h⟩ := Result.bind_eq_ok.1 h
  cases h
  exact ⟨(List.append_nil _).symm, (List.append_nil _).symm, fun _ => (List.append_nil _).symm,
    (List.append_nil _).symm⟩

end BlendPlan

open BlendPlan

variable {ts : RequestTaxons} {plan : BlendPlan}

/-- A plan is what its taxons add, one after the other, each with the columns of its own formula. -/
theorem plan_shares (h : ts.plan = .ok plan) :
    ∃ shares, ts.shares = .ok shares ∧ (∀ s ∈ shares, s.IsLabelled) ∧
      BlendPlan.empty.IsSum shares plan := by
  unfold RequestTaxons.plan at h
  obtain ⟨taxons, ht, h⟩ := Result.bind_eq_ok.1 h
  obtain ⟨answered, ha, h⟩ := Result.bind_eq_ok.1 h
  obtain ⟨compared, hc, h⟩ := Result.bind_eq_ok.1 h
  obtain ⟨answer, hanswer, labelled, first⟩ :=
    IsSum.foldlM (f := addTaxon ts) (fun _ _ _ => addTaxon_share) ha
  obtain ⟨comparison, hcomparison, labelled', second⟩ :=
    IsSum.foldlM (f := addComparisonTaxon ts) (fun _ _ _ => addComparisonTaxon_share) hc
  have filtered : compared.IsSum [] plan :=
    Result.foldlM_invariant h (p := compared.IsSum []) .nil fun _ _ _ _ step before =>
      before.append (addFilters_isSum step)
  refine ⟨answer ++ comparison, ?_, List.forall_mem_append.2 ⟨labelled, labelled'⟩, ?_⟩
  · unfold RequestTaxons.shares
    rw [ht]
    dsimp only [bind, Except.bind]
    rw [hanswer]
    dsimp only
    rw [hcomparison]
    rfl
  · have sum := (first.append second).append filtered
    rwa [List.append_nil] at sum

/-- Whether what two shares compute under one of their columns is the same wherever the two labels
fall together, unless it is the same column of the same share. -/
def Share.SettlesClashes (s s' : Share) : Prop :=
  ∀ n n', (s, n) ≠ (s', n') → columnLabel s.slug n = columnLabel s'.slug n' →
    s.plan.AgreesWith s'.plan (columnLabel s.slug n)

/-- Entries of two shares with one label stand under different columns, or they are the same. -/
theorem Share.settled {s s' : Share} {α : Type} {e : Share → List α}
    {label : α → String} {r : α → α → Prop} (refl : ∀ a, r a a)
    (hs : AreLabels s.slug (fun _ => True) ((e s).map label))
    (hs' : AreLabels s'.slug (fun _ => True) ((e s').map label))
    (clash : ∀ n n', (s, n) ≠ (s', n') → columnLabel s.slug n = columnLabel s'.slug n' →
      ∀ a ∈ e s, ∀ b ∈ e s', label a = columnLabel s.slug n →
        label b = columnLabel s.slug n → r a b)
    {a b : α} (ha : a ∈ e s) (hb : b ∈ e s') (h : label a = label b) : r a b := by
  by_cases h' : s = s'
  · subst h'
    rcases hs.eq_or_clash ha hb h with rfl | ⟨n, m, different, hn, hm⟩
    · exact refl a
    · have labels : columnLabel s.slug n = columnLabel s.slug m := hn ▸ hm ▸ h
      have other : (s, n) ≠ (s, m) := fun equal => different (Prod.mk.inj equal).2
      exact clash n m other labels a ha b hb hn (hm.trans labels.symm)
  · obtain ⟨n, hn⟩ := hs.exists_label ha
    obtain ⟨m, hm⟩ := hs'.exists_label hb
    have labels : columnLabel s.slug n = columnLabel s'.slug m := hn ▸ hm ▸ h
    have other : (s, n) ≠ (s', m) := fun equal => h' (Prod.mk.inj equal).1
    exact clash n m other labels a ha b hb hn (hm.trans labels.symm)

/-- The sum of some shares has labels that identify its formulas exactly if the clashes among them
are settled. -/
theorem BlendPlan.IsSum.labelsIdentify_iff {shares : List Share}
    (sum : BlendPlan.empty.IsSum shares plan) (labelled : ∀ s ∈ shares, s.IsLabelled) :
    plan.LabelsIdentify ↔ ∀ s ∈ shares, ∀ s' ∈ shares, s.SettlesClashes s' := by
  have metric : plan.metricFormulas = shares.flatMap (·.plan.metricFormulas) := sum.metric
  have dimension : plan.dimensionFormulas = shares.flatMap (·.plan.dimensionFormulas) :=
    sum.dimension
  have source (dataSource : String) : plan.sourceTemplates.inSource dataSource =
      shares.flatMap (·.plan.sourceTemplates.inSource dataSource) := sum.source dataSource
  constructor
  · intro identify s hs s' hs' n n' _ _
    have agree := identify (columnLabel s.slug n)
    refine ⟨?_, ?_, ?_⟩
    · intro f hf g hg
      refine agree.metric f ?_ g ?_
      · exact metric ▸ List.mem_flatMap.2 ⟨s, hs, hf⟩
      · exact metric ▸ List.mem_flatMap.2 ⟨s', hs', hg⟩
    · intro f hf g hg
      refine agree.dimension f ?_ g ?_
      · exact dimension ▸ List.mem_flatMap.2 ⟨s, hs, hf⟩
      · exact dimension ▸ List.mem_flatMap.2 ⟨s', hs', hg⟩
    · intro dataSource t ht u hu
      refine agree.source dataSource t ?_ u ?_
      · exact source dataSource ▸ List.mem_flatMap.2 ⟨s, hs, ht⟩
      · exact source dataSource ▸ List.mem_flatMap.2 ⟨s', hs', hu⟩
  · intro settles label
    refine ⟨?_, ?_, ?_⟩
    · intro f hf g hg hfl hgl
      rw [metric] at hf hg
      obtain ⟨s, hs, hf⟩ := List.mem_flatMap.1 hf
      obtain ⟨s', hs', hg⟩ := List.mem_flatMap.1 hg
      exact Share.settled (e := (·.plan.metricFormulas))
        (r := fun f g => f.formula = g.formula ∧ f.aggregation = g.aggregation)
        (fun _ => ⟨rfl, rfl⟩) (labelled s hs).metric (labelled s' hs').metric
        (fun n n' e e' => (settles s hs s' hs' n n' e e').metric) hf hg
        (hfl.trans hgl.symm)
    · intro f hf g hg hfl hgl
      rw [dimension] at hf hg
      obtain ⟨s, hs, hf⟩ := List.mem_flatMap.1 hf
      obtain ⟨s', hs', hg⟩ := List.mem_flatMap.1 hg
      exact Share.settled (e := (·.plan.dimensionFormulas))
        (r := fun f g => f.formula = g.formula) (fun _ => rfl)
        (labelled s hs).dimension (labelled s' hs').dimension
        (fun n n' e e' => (settles s hs s' hs' n n' e e').dimension)
        hf hg (hfl.trans hgl.symm)
    · intro dataSource t ht u hu htl hul
      rw [source] at ht hu
      obtain ⟨s, hs, ht⟩ := List.mem_flatMap.1 ht
      obtain ⟨s', hs', hu⟩ := List.mem_flatMap.1 hu
      exact Share.settled (e := (·.plan.sourceTemplates.inSource dataSource))
        (r := fun t u => t.template = u.template) (fun _ => rfl)
        ((labelled s hs).source dataSource)
        ((labelled s' hs').source dataSource)
        (fun n n' e e' => (settles s hs s' hs' n n' e e').source dataSource) ht hu
        (htl.trans hul.symm)

/-- Shares under slugs that are apart have no clash. -/
theorem settlesClashes_of_areApart {shares : List Share}
    (apart : AreApart (shares.map (·.slug))) :
    ∀ s ∈ shares, ∀ s' ∈ shares, s.SettlesClashes s' := by
  intro s hs s' hs' n n' other clash
  obtain ⟨slug, number⟩ :=
    apart.label_inj (List.mem_map_of_mem hs) (List.mem_map_of_mem hs') clash
  have share : s = s' := List.inj_on_of_nodup_map apart.nodup hs hs' slug
  rw [share, number] at other
  exact absurd rfl other

/-- The labels of a plan identify its formulas exactly if the columns of its shares do agree whose
labels fall together though they are not the same column, and so they do if the slugs of the shares
are apart.  Then no formula is lost where a stage takes each label once. -/
theorem plan_labelsIdentify_iff (h : ts.plan = .ok plan) :
    ∃ shares, ts.shares = .ok shares ∧
      (plan.LabelsIdentify ↔ ∀ s ∈ shares, ∀ s' ∈ shares, s.SettlesClashes s') ∧
      (AreApart (shares.map (·.slug)) → plan.LabelsIdentify) ∧
      (plan.LabelsIdentify → plan.KeepsFormulas) := by
  obtain ⟨shares, hshares, labelled, sum⟩ := plan_shares h
  have identify := sum.labelsIdentify_iff labelled
  refine ⟨shares, hshares, identify, ?_, LabelsIdentify.keepsFormulas⟩
  exact fun apart => identify.2 (settlesClashes_of_areApart apart)

/-- Two raw metrics, and powers of them with eleven columns and with two. -/
def powerTaxons : TaxonMap :=
  let metric (slug : String) (definition : TaxonDefinition) : Taxon :=
    ⟨slug, slug, none, .metric, definition, .numeric, "shop", none, none, none⟩
  Taxon.mapOf [metric "a" (.raw .sum), metric "b" (.raw .sum),
    metric "m" (.computed "a*a*a*a*a*a*a*a*a*a*a"), metric "m1" (.computed "b*b")]

def powerRequest (taxons : List String) : BlendRequest :=
  .ofParts [{ SourceRequest.ofDataSource "ads" ⟨"shop", none, .available, none⟩ with taxons }] []

/-- The power with two columns alone clashes with nothing. -/
theorem plan_labelsIdentify_square :
    ∃ ts plan, RequestTaxons.load powerTaxons true (powerRequest ["a", "m1"]) = .ok ts ∧
      ts.plan = .ok plan ∧ plan.LabelsIdentify ∧ plan.KeepsFormulas := by
  have loaded : (RequestTaxons.load powerTaxons true (powerRequest ["a", "m1"])).toOption.any
      (fun ts => ts.plan.toOption.any (fun _ => true) &&
        ts.shares.toOption.any fun shares => shares.map (·.slug) = ["a", "m1"]) := by
    decide +kernel
  obtain ⟨ts, hts, found⟩ := Result.ok_of_any loaded
  obtain ⟨planned, named⟩ := Bool.and_eq_true_iff.1 found
  obtain ⟨plan, hplan, _⟩ := Result.ok_of_any planned
  obtain ⟨shares, hshares, slugs⟩ := Result.ok_of_any named
  obtain ⟨shares', hshares', _, apart, keeps⟩ := plan_labelsIdentify_iff hplan
  cases hshares.symm.trans hshares'
  have identify : plan.LabelsIdentify := by
    apply apart
    rw [of_decide_eq_true slugs]
    decide +kernel
  exact ⟨ts, plan, hts, hplan, identify, keeps identify⟩

/-- Column eleven of one power and column one of the other have one label, for different metrics. -/
theorem plan_powers_not_labelsIdentify :
    ∃ ts plan, RequestTaxons.load powerTaxons true (powerRequest ["m", "m1"]) = .ok ts ∧
      ts.plan = .ok plan ∧ ¬ plan.LabelsIdentify := by
  have loaded : (RequestTaxons.load powerTaxons true (powerRequest ["m", "m1"])).toOption.any
      (fun ts => ts.plan.toOption.any fun plan =>
        plan.metricFormulas.any fun f => plan.metricFormulas.any fun g =>
          f.label = g.label && f.formula.text .snowflake ≠ g.formula.text .snowflake) := by
    decide +kernel
  obtain ⟨ts, hts, planned⟩ := Result.ok_of_any loaded
  obtain ⟨plan, hplan, clash⟩ := Result.ok_of_any planned
  obtain ⟨f, hf, clash⟩ := List.any_eq_true.1 clash
  obtain ⟨g, hg, clash⟩ := List.any_eq_true.1 clash
  obtain ⟨same, different⟩ := Bool.and_eq_true_iff.1 clash
  refine ⟨ts, plan, hts, hplan, fun identify => ?_⟩
  have agree := (identify f.label).metric f hf g hg rfl (of_decide_eq_true same).symm
  exact of_decide_eq_true different (by rw [agree.1])

end SemanticLayer
