import SemanticLayer.Proofs.Taxonomy.Rounds

/-!
# Taxons under their slugs

A taxonomy lists its taxons by slug, and what is resolved from it stays listed that way, the taxons
made for formulas included.

* `TaxonMap.IsListed`: each taxon stands under its own slug;
* `Resolver.isListed_resolveRounds`: so do all taxons that rounds of resolution collect;
* `Resolver.Ensures`: what a session gives if it succeeds, and that it leaves its taxons listed;
* `Resolver.ensures_resolveRequest`, `isListed_completeFacts`: the taxons of a request are listed.
-/

namespace SemanticLayer

/-- Whether each taxon stands under its slug. -/
def TaxonMap.IsListed (ts : TaxonMap) : Prop := ∀ e ∈ ts.toList, e.2.slug = e.1

instance : DecidablePred TaxonMap.IsListed := fun ts =>
  inferInstanceAs (Decidable (∀ e ∈ ts.toList, e.2.slug = e.1))

namespace TaxonMap.IsListed

variable {ts us : TaxonMap}

theorem empty : IsListed .empty := fun _ he => nomatch he

theorem slug_eq (h : ts.IsListed) {slug : String} {t : Taxon} (ht : ts.get? slug = some t) :
    t.slug = slug := h _ (SortedMap.get?_eq_some_iff.1 ht)

theorem restrict (h : ts.IsListed) (slugs : NameSet) : (ts.restrict slugs).IsListed :=
  fun _ he => h _ (List.mem_of_mem_filter he)

theorem insertAll (h : ts.IsListed) {es : List (String × Taxon)}
    (hes : ∀ e ∈ es, e.2.slug = e.1) : IsListed (ts.insertAll es) := by
  rintro ⟨slug, t⟩ he
  exact (SortedMap.mem_toList_insertAll he).elim (hes _) (h _)

theorem merge (h : ts.IsListed) (h' : us.IsListed) : IsListed (ts.merge us) := h.insertAll h'

theorem insert (h : ts.IsListed) {slug : String} {t : Taxon} (ht : t.slug = slug) :
    IsListed (SortedMap.insert ts slug t) := by
  have single : ∀ e ∈ [(slug, t)], e.2.slug = e.1 := by
    rintro e he
    cases List.mem_singleton.1 he
    exact ht
  exact h.insertAll single

end TaxonMap.IsListed

/-- Whether the taxons that are used stand under their slugs. -/
structure UsedTaxons.AreListed (u : UsedTaxons) : Prop where
  required : u.required.IsListed
  optional : u.optional.IsListed

namespace UsedTaxons.AreListed

variable {u v : UsedTaxons}

theorem empty : AreListed .empty := ⟨.empty, .empty⟩

theorem merge (h : u.AreListed) (h' : v.AreListed) : (u.merge v).AreListed :=
  ⟨h.required.merge h'.required, h.optional.merge h'.optional⟩

theorem all (h : u.AreListed) : u.all.IsListed := h.optional.merge h.required

end UsedTaxons.AreListed

namespace Resolver

/-- Whether a resolver finds each taxon under its slug. -/
structure IsListed (r : Resolver) : Prop where
  taxons : r.taxons.IsListed
  temporary : r.temporary.IsListed

section
variable {r : Resolver} {ts : TaxonMap} {used : UsedTaxons} {dataSources? : Option NameSet}
  {withAggregations : Bool}

theorem isListed_load (h : r.IsListed) {slugs : NameSet} {all : Bool}
    (loaded : r.load slugs all = .ok ts) : ts.IsListed := by
  rw [(load_eq_ok.1 loaded).2]
  exact (h.taxons.restrict _).merge (h.temporary.restrict _)

theorem isListed_loadAggregationTaxons (h : r.IsListed) {us : TaxonMap} {all : Bool}
    (loaded : r.loadAggregationTaxons us all = .ok ts) : ts.IsListed := by
  unfold loadAggregationTaxons at loaded
  dsimp only at loaded
  split at loaded
  · cases loaded
    exact .empty
  · exact isListed_load h loaded

theorem isListed_loadRound (h : r.IsListed) {slugs : NameSet} {all : Bool}
    (loaded : r.loadRound withAggregations slugs all = .ok ts) : ts.IsListed := by
  unfold loadRound at loaded
  split at loaded
  · cases loaded
    exact .empty
  obtain ⟨own, hown, loaded⟩ := Result.bind_eq_ok.1 loaded
  split at loaded
  · obtain ⟨aggregations, haggregations, loaded⟩ := Result.bind_eq_ok.1 loaded
    cases loaded
    exact (isListed_loadAggregationTaxons h haggregations).merge (isListed_load h hown)
  · cases loaded
    exact isListed_load h hown

theorem isListed_resolveRounds (h : r.IsListed) {rounds : Nat} {start : UsedTaxons}
    {seen slugs : Formula.UsedSlugs} (listed : start.AreListed)
    (resolved : r.resolveRounds dataSources? withAggregations rounds start seen slugs = .ok used) :
    used.AreListed := by
  induction rounds generalizing start seen slugs with
  | zero =>
    cases resolved
    exact listed
  | succ rounds ih =>
    unfold resolveRounds at resolved
    split at resolved
    · cases resolved
      exact listed
    obtain ⟨required, hrequired, resolved⟩ := Result.bind_eq_ok.1 resolved
    obtain ⟨optional, hoptional, resolved⟩ := Result.bind_eq_ok.1 resolved
    obtain ⟨next, _, resolved⟩ := Result.bind_eq_ok.1 resolved
    exact ih (listed.merge ⟨isListed_loadRound h hrequired, isListed_loadRound h hoptional⟩)
      resolved

theorem isListed_resolveWith (h : r.IsListed) {slugs : NameSet}
    (resolved : r.resolveWith dataSources? withAggregations slugs = .ok used) : used.AreListed :=
  isListed_resolveRounds h .empty resolved

theorem isListed_completeFacts {useFallback : Bool} {us : TaxonMap} (h : ts.IsListed)
    (completed : r.completeFacts useFallback ts = .ok us) : us.IsListed := by
  obtain ⟨es, hes, rfl⟩ := Result.map_eq_ok.1 completed
  rintro ⟨slug, t⟩ ht
  obtain ⟨e, he, step⟩ := Result.mapM_ok_mem hes (SortedMap.mem_of_mem_ofList ht)
  obtain ⟨t', step, same⟩ := Result.map_eq_ok.1 step
  cases same
  dsimp only at step
  split at step
  · cases step
    exact h e he
  · obtain ⟨facts, _, step⟩ := Result.bind_eq_ok.1 step
    cases step
    exact h e he

end

/-! ## Sessions -/

section
variable {α β : Type} {r : Resolver}

theorem run_bind (x : Session α) (f : α → Session β) :
    (x >>= f).run r = match x.run r with
      | (.ok a, s) => (f a).run s
      | (.error e, s) => (.error e, s) := by
  change ExceptT.bindCont f (x.run r).1 (x.run r).2 = _
  unfold ExceptT.bindCont
  rcases x.run r with ⟨_ | _, _⟩ <;> rfl

theorem run_pure (a : α) : (pure a : Session α).run r = (.ok a, r) := rfl

theorem run_lift (y : Result α) : (liftM y : Session α).run r = (y, r) := by cases y <;> rfl

theorem run_get_bind (f : Resolver → Session β) : (get >>= f).run r = (f r).run r := by
  rw [run_bind]
  rfl

/-- What a session gives after a step that leaves its resolver as it is. -/
theorem run_lift_bind (y : Result α) (f : α → Session β) :
    ((liftM y >>= f).run r).1 = y >>= fun a => ((f a).run r).1 := by
  rw [run_bind, run_lift]
  cases y <;> rfl

end

/-- Whether a session leaves its taxons listed, and gives what is asked of it if it succeeds. -/
def Ensures {α : Type} (x : Session α) (p : α → Prop) : Prop :=
  ∀ r : Resolver, r.IsListed → (x.run r).2.IsListed ∧ ∀ a, (x.run r).1 = .ok a → p a

namespace Ensures

variable {α β : Type} {x : Session α} {f : α → Session β} {p : α → Prop} {q : β → Prop}

theorem pure {a : α} (h : p a) : Ensures (Pure.pure a : Session α) p := by
  intro r hr
  refine ⟨hr, ?_⟩
  rintro _ ⟨⟩
  exact h

theorem bind (hx : Ensures x p) (hf : ∀ a, p a → Ensures (f a) q) : Ensures (x >>= f) q := by
  intro r hr
  have step := hx r hr
  rw [run_bind]
  generalize x.run r = outcome at step
  obtain ⟨result, s⟩ := outcome
  cases result with
  | error e => exact ⟨step.1, fun _ h => nomatch h⟩
  | ok a => exact hf a (step.2 a rfl) s step.1

theorem lift {y : Result α} (h : ∀ a, y = .ok a → p a) : Ensures (liftM y : Session α) p :=
  fun _ hr => ⟨hr, h⟩

theorem get : Ensures (MonadState.get : Session Resolver) IsListed := by
  intro r hr
  refine ⟨hr, ?_⟩
  rintro _ ⟨⟩
  exact hr

theorem modify {g : Resolver → Resolver} (h : ∀ r : Resolver, r.IsListed → (g r).IsListed) :
    Ensures (modify g : Session Unit) fun _ => True :=
  fun r hr => ⟨h r hr, fun _ _ => trivial⟩

theorem mapM {f : β → Session α} (h : ∀ b, Ensures (f b) p) (bs : List β) :
    Ensures (bs.mapM f) fun as => ∀ a ∈ as, p a := by
  induction bs with
  | nil => exact pure fun _ ha => nomatch ha
  | cons b bs ih =>
    rw [List.mapM_cons]
    refine (h b).bind fun a ha => ih.bind fun as has => pure ?_
    exact List.forall_mem_cons.2 ⟨ha, has⟩

theorem foldlM {f : α → β → Session α} (h : ∀ a b, p a → Ensures (f a b) p) (bs : List β) {a : α}
    (ha : p a) : Ensures (bs.foldlM f a) p := by
  induction bs generalizing a with
  | nil => exact pure ha
  | cons b bs ih =>
    rw [List.foldlM_cons]
    exact (h a b ha).bind fun _ => ih

end Ensures

theorem ensures_addFormula (company slug : String) :
    Ensures (addFormula company slug) fun _ => True := by
  refine .bind (.lift fun _ _ => trivial) fun _ _ => .bind .get fun _ _ => ?_
  refine .bind (.lift fun _ _ => trivial) fun _ _ => .bind (.modify ?_) fun _ _ => .pure trivial
  exact fun r hr => ⟨hr.taxons, hr.temporary.insert rfl⟩

theorem ensures_completeFormula {ts : TaxonMap} (h : ts.IsListed) (slug : String) :
    Ensures (completeFormula ts slug) TaxonMap.IsListed := by
  unfold completeFormula
  cases found : ts.get? slug with
  | none => exact .pure h
  | some t =>
    have own : t.slug = slug := h.slug_eq found
    refine .bind .get fun _ _ => .bind (.lift fun _ _ => trivial) fun _ _ => ?_
    refine .bind (.modify ?_) fun _ _ => .pure (h.insert own)
    exact fun r hr => ⟨hr.taxons, hr.temporary.insert own⟩

/-- The taxons of a request stand under their slugs, those made for its formulas too. -/
theorem ensures_resolveRequest (company : String) (request : List String) :
    Ensures (resolveRequest company request) TaxonMap.IsListed := by
  unfold resolveRequest
  dsimp only
  refine .bind .get fun r hr => ?_
  refine .bind (.lift fun _ => isListed_resolveWith hr) fun found hfound => ?_
  split
  · exact .pure hfound.all
  refine .bind (.mapM (ensures_addFormula company) _) fun made _ => .bind .get fun r hr => ?_
  refine .bind (.lift fun _ => isListed_resolveWith hr) fun used hused => ?_
  refine .foldlM (fun _ slug h => ensures_completeFormula h slug) _ ?_
  refine (hfound.all.insertAll ?_).merge hused.all
  intro e he
  obtain ⟨_, _, rfl⟩ := List.mem_map.1 he
  rfl

end Resolver

end SemanticLayer
