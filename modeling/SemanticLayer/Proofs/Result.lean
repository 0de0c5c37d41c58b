import Mathlib.Data.List.Forall2
import SemanticLayer.Error

/-!
# Steps that may fail

A computation in steps has a result exactly when each step has one:

* `bind_eq_ok`, `map_eq_ok`: one step after another;
* `mapM_eq_ok`: the same step on each member of a list;
* `exists_bind_iff`, `exists_mapM_iff`, `exists_foldlM_iff`: whether there is a result at all;
* `foldlM_invariant`: what each step of a fold keeps holds at its end;
* `run_bind_eq_ok`: one step after another on a state.

Steps that agree where they are taken give the same result (`bind_congr`, `mapM_congr`,
`foldlM_congr₂`).  Where they may fail in different ways, only what they give is the same (`Agree`).
-/

namespace SemanticLayer.Result

variable {ε α β γ : Type}

theorem bind_eq_ok {x : Except ε α} {f : α → Except ε β} {b : β} :
    x >>= f = .ok b ↔ ∃ a, x = .ok a ∧ f a = .ok b := by
  cases x with
  | error e =>
    constructor
    · intro h
      cases h
    · rintro ⟨_, h, _⟩
      cases h
  | ok a =>
    constructor
    · intro h
      exact ⟨a, rfl, h⟩
    · rintro ⟨_, ha, h⟩
      cases ha
      exact h

theorem map_eq_ok {x : Except ε α} {f : α → β} {b : β} :
    x.map f = .ok b ↔ ∃ a, x = .ok a ∧ f a = b := by
  cases x with
  | error e =>
    constructor
    · intro h
      cases h
    · rintro ⟨_, h, _⟩
      cases h
  | ok a =>
    constructor
    · intro h
      exact ⟨a, rfl, Except.ok.inj h⟩
    · rintro ⟨_, ha, h⟩
      cases ha
      rw [← h]
      rfl

theorem map_eq_error {x : Except ε α} {f : α → β} {e : ε} :
    x.map f = .error e ↔ x = .error e := by
  cases x with
  | error e' => exact ⟨fun h => congrArg Except.error (Except.error.inj h), fun h => by rw [h]; rfl⟩
  | ok a => exact ⟨fun h => (by cases h), fun h => (by cases h)⟩

/-- Two steps have a result if the first has one and so has the second, whatever it is given. -/
theorem exists_bind_iff {x : Except ε α} {f : α → Except ε β} {q : Prop}
    (h : ∀ a, (∃ b, f a = .ok b) ↔ q) : (∃ b, (x >>= f) = .ok b) ↔ (∃ a, x = .ok a) ∧ q := by
  cases x with
  | error e =>
    constructor
    · rintro ⟨_, h⟩
      cases h
    · rintro ⟨⟨_, h⟩, _⟩
      cases h
  | ok a => exact (h a).trans (and_iff_right ⟨a, rfl⟩).symm

theorem exists_bind_ok {x : Except ε α} {f : α → β} :
    (∃ b, (x >>= fun a => .ok (f a)) = .ok b) ↔ ∃ a, x = .ok a :=
  (exists_bind_iff fun a => iff_of_true ⟨f a, rfl⟩ trivial).trans (and_iff_left trivial)

theorem exists_map_ok {x : Except ε α} {f : α → β} : (∃ b, x.map f = .ok b) ↔ ∃ a, x = .ok a := by
  cases x with
  | error e =>
    constructor
    · rintro ⟨_, h⟩
      cases h
    · rintro ⟨_, h⟩
      cases h
  | ok a => exact iff_of_true ⟨f a, rfl⟩ ⟨a, rfl⟩

theorem bind_congr {x : Except ε α} {f g : α → Except ε β} (h : ∀ a, x = .ok a → f a = g a) :
    x >>= f = x >>= g := by
  cases x with
  | error e => rfl
  | ok a => exact h a rfl

theorem map_bind (x : Except ε α) (f : α → Except ε β) (g : β → γ) :
    (x >>= f).map g = x >>= fun a => (f a).map g := by
  cases x <;> rfl

theorem mapM_eq_ok {f : α → Except ε β} {xs : List α} {ys : List β} :
    xs.mapM f = .ok ys ↔ List.Forall₂ (fun x y => f x = .ok y) xs ys := by
  induction xs generalizing ys with
  | nil =>
    rw [List.mapM_nil, List.forall₂_nil_left_iff]
    constructor
    · intro h
      exact (Except.ok.inj h).symm
    · rintro rfl
      rfl
  | cons x xs ih =>
    rw [List.mapM_cons, List.forall₂_cons_left_iff]
    simp only [bind_eq_ok]
    constructor
    · rintro ⟨y, hy, zs, hzs, h⟩
      exact ⟨y, zs, hy, ih.1 hzs, (Except.ok.inj h).symm⟩
    · rintro ⟨y, zs, hy, hzs, rfl⟩
      exact ⟨y, hy, zs, ih.2 hzs, rfl⟩

/-- A check of a result that comes out true had a result to check. -/
theorem ok_of_any {x : Except ε α} {f : α → Bool} (h : x.toOption.any f = true) :
    ∃ a, x = .ok a ∧ f a = true := by
  cases x with
  | error e => cases h
  | ok a => exact ⟨a, rfl, h⟩

/-- Each result of the steps comes from a member of the list. -/
theorem mapM_ok_mem {f : α → Except ε β} {xs : List α} {ys : List β} (h : xs.mapM f = .ok ys)
    {y : β} (hy : y ∈ ys) : ∃ x ∈ xs, f x = .ok y := by
  have each := mapM_eq_ok.1 h
  clear h
  induction each with
  | nil => cases hy
  | cons hxy _ ih =>
    rcases List.mem_cons.1 hy with rfl | hy
    · exact ⟨_, List.mem_cons_self .., hxy⟩
    · obtain ⟨x, hx, h⟩ := ih hy
      exact ⟨x, List.mem_cons_of_mem _ hx, h⟩

/-- Each member of the list has its result among those of the steps. -/
theorem mapM_mem_ok {f : α → Except ε β} {xs : List α} {ys : List β} (h : xs.mapM f = .ok ys)
    {x : α} (hx : x ∈ xs) : ∃ y ∈ ys, f x = .ok y := by
  have each := mapM_eq_ok.1 h
  clear h
  induction each with
  | nil => cases hx
  | cons hxy _ ih =>
    rcases List.mem_cons.1 hx with rfl | hx
    · exact ⟨_, List.mem_cons_self .., hxy⟩
    · obtain ⟨y, hy, h⟩ := ih hx
      exact ⟨y, List.mem_cons_of_mem _ hy, h⟩

theorem exists_mapM_iff {f : α → Except ε β} {xs : List α} :
    (∃ ys, xs.mapM f = .ok ys) ↔ ∀ x ∈ xs, ∃ y, f x = .ok y := by
  constructor
  · rintro ⟨ys, h⟩ x hx
    obtain ⟨y, _, hy⟩ := mapM_mem_ok h hx
    exact ⟨y, hy⟩
  · intro h
    induction xs with
    | nil => exact ⟨[], rfl⟩
    | cons x xs ih =>
      obtain ⟨hx, hxs⟩ := List.forall_mem_cons.1 h
      obtain ⟨y, hy⟩ := hx
      obtain ⟨ys, hys⟩ := ih hxs
      exact ⟨y :: ys, by rw [List.mapM_cons, hy, hys]; rfl⟩

/-- Steps fail with the first of them that does. -/
theorem mapM_eq_error {f : α → Except ε β} {xs : List α} {e : ε} :
    xs.mapM f = .error e ↔ ∃ before x after, xs = before ++ x :: after ∧
      (∀ y ∈ before, ∃ z, f y = .ok z) ∧ f x = .error e := by
  induction xs with
  | nil =>
    constructor
    · intro h
      cases h
    · rintro ⟨before, x, after, h, _⟩
      cases before <;> cases h
  | cons x xs ih =>
    rw [List.mapM_cons]
    cases hx : f x with
    | error e' =>
      constructor
      · rintro ⟨⟩
        exact ⟨[], x, xs, rfl, nofun, hx⟩
      · rintro ⟨_ | ⟨y, before⟩, z, after, h, fine, failed⟩
        · cases h
          cases hx.symm.trans failed
          rfl
        · cases h
          obtain ⟨_, h⟩ := fine _ (List.mem_cons_self ..)
          cases hx.symm.trans h
    | ok y =>
      have rest : (Except.ok y >>= fun y => xs.mapM f >>= fun ys => pure (y :: ys)) = .error e ↔
          xs.mapM f = .error e := by
        cases xs.mapM f <;> simp [bind, Except.bind, pure, Except.pure]
      rw [rest, ih]
      constructor
      · rintro ⟨before, z, after, rfl, fine, failed⟩
        exact ⟨x :: before, z, after, rfl, List.forall_mem_cons.2 ⟨⟨y, hx⟩, fine⟩, failed⟩
      · rintro ⟨_ | ⟨w, before⟩, z, after, h, fine, failed⟩
        · cases h
          cases hx.symm.trans failed
        · cases h
          exact ⟨before, z, after, rfl, (List.forall_mem_cons.1 fine).2, failed⟩

theorem mapM_congr {f g : α → Except ε β} {xs : List α} (h : ∀ x ∈ xs, f x = g x) :
    xs.mapM f = xs.mapM g := by
  induction xs with
  | nil => rfl
  | cons x xs ih =>
    rw [List.mapM_cons, List.mapM_cons, h x (List.mem_cons_self ..),
      ih fun y hy => h y (List.mem_cons_of_mem _ hy)]

theorem filterMapM_congr {f g : α → Except ε (Option β)} {xs : List α}
    (h : ∀ x ∈ xs, f x = g x) : xs.filterMapM f = xs.filterMapM g := by
  induction xs with
  | nil => rfl
  | cons x xs ih =>
    rw [List.filterMapM_cons, List.filterMapM_cons, h x (List.mem_cons_self ..),
      ih fun y hy => h y (List.mem_cons_of_mem _ hy)]

theorem filterMapM_ok_mem {f : α → Except ε (Option β)} {xs : List α} {ys : List β}
    (h : xs.filterMapM f = .ok ys) {y : β} (hy : y ∈ ys) : ∃ x ∈ xs, f x = .ok (some y) := by
  induction xs generalizing ys with
  | nil =>
    rw [List.filterMapM_nil] at h
    cases h
    cases hy
  | cons x xs ih =>
    rw [List.filterMapM_cons, bind_eq_ok] at h
    obtain ⟨z?, hz, h⟩ := h
    cases z? with
    | none =>
      obtain ⟨w, hw, e⟩ := ih h hy
      exact ⟨w, List.mem_cons_of_mem _ hw, e⟩
    | some z =>
      obtain ⟨zs, hzs, h⟩ := bind_eq_ok.1 h
      cases h
      rcases List.mem_cons.1 hy with rfl | hy
      · exact ⟨x, List.mem_cons_self .., hz⟩
      · obtain ⟨w, hw, e⟩ := ih hzs hy
        exact ⟨w, List.mem_cons_of_mem _ hw, e⟩

theorem filterMapM_mem_ok {f : α → Except ε (Option β)} {xs : List α} {ys : List β}
    (h : xs.filterMapM f = .ok ys) {x : α} (hx : x ∈ xs) :
    ∃ y?, f x = .ok y? ∧ ∀ y ∈ y?, y ∈ ys := by
  induction xs generalizing ys with
  | nil => cases hx
  | cons w xs ih =>
    rw [List.filterMapM_cons, bind_eq_ok] at h
    obtain ⟨z?, hz, h⟩ := h
    have kept : ∃ zs, xs.filterMapM f = .ok zs ∧ (∀ z ∈ z?, z ∈ ys) ∧ ∀ z ∈ zs, z ∈ ys := by
      cases z? with
      | none => exact ⟨ys, h, fun _ hz => (nomatch hz), fun _ hz => hz⟩
      | some z =>
        obtain ⟨zs, hzs, h⟩ := bind_eq_ok.1 h
        cases h
        refine ⟨zs, hzs, ?_, fun _ hz => List.mem_cons_of_mem _ hz⟩
        rintro _ ⟨⟩
        exact List.mem_cons_self ..
    obtain ⟨zs, hzs, first, rest⟩ := kept
    rcases List.mem_cons.1 hx with rfl | hx
    · exact ⟨z?, hz, first⟩
    · obtain ⟨y?, hy, among⟩ := ih hzs hx
      exact ⟨y?, hy, fun y hy => rest y (among y hy)⟩

/-- Steps that agree with a function, where they have a result, give its results. -/
theorem filterMapM_ok_eq {f : α → Except ε (Option β)} {g : α → Option β} {xs : List α}
    {ys : List β} (h : xs.filterMapM f = .ok ys)
    (hg : ∀ x ∈ xs, ∀ y?, f x = .ok y? → y? = g x) : ys = xs.filterMap g := by
  induction xs generalizing ys with
  | nil =>
    rw [List.filterMapM_nil] at h
    cases h
    rfl
  | cons x xs ih =>
    rw [List.filterMapM_cons, bind_eq_ok] at h
    obtain ⟨y?, hy, h⟩ := h
    have first := hg x (List.mem_cons_self ..) y? hy
    have rest (zs : List β) (hzs : xs.filterMapM f = .ok zs) : zs = xs.filterMap g :=
      ih hzs fun z hz => hg z (List.mem_cons_of_mem _ hz)
    rw [List.filterMap_cons, ← first]
    cases y? with
    | none => exact rest ys h
    | some y =>
      obtain ⟨zs, hzs, h⟩ := bind_eq_ok.1 h
      cases h
      rw [rest zs hzs]

/-- What holds at the start of a fold and is kept by each of its steps holds at its end. -/
theorem foldlM_invariant {p : β → Prop} {f : β → α → Except ε β} {xs : List α} {b c : β}
    (h : xs.foldlM f b = .ok c) (start : p b)
    (step : ∀ x ∈ xs, ∀ b c, f b x = .ok c → p b → p c) : p c := by
  induction xs generalizing b with
  | nil =>
    cases h
    exact start
  | cons x xs ih =>
    rw [List.foldlM_cons, bind_eq_ok] at h
    obtain ⟨d, hd, h⟩ := h
    refine ih h (step x (List.mem_cons_self ..) b d hd start) ?_
    intro y hy
    exact step y (List.mem_cons_of_mem _ hy)

/-- A fold whose steps do not depend on what came before them ends if they all do. -/
theorem exists_foldlM_iff {f : β → α → Except ε β} {g : α → Except ε γ} {xs : List α} {b : β}
    (step : ∀ b x, (∃ c, f b x = .ok c) ↔ ∃ c, g x = .ok c) :
    (∃ c, xs.foldlM f b = .ok c) ↔ ∀ x ∈ xs, ∃ c, g x = .ok c := by
  induction xs generalizing b with
  | nil => exact iff_of_true ⟨b, rfl⟩ (List.forall_mem_nil _)
  | cons x xs ih =>
    simp only [List.foldlM_cons, List.forall_mem_cons, bind_eq_ok]
    constructor
    · rintro ⟨c, d, hd, hc⟩
      exact ⟨(step b x).1 ⟨d, hd⟩, ih.1 ⟨c, hc⟩⟩
    · rintro ⟨hx, hxs⟩
      obtain ⟨d, hd⟩ := (step b x).2 hx
      obtain ⟨c, hc⟩ := ih.2 hxs
      exact ⟨c, d, hd, hc⟩

/-- A computation with a state in steps ends exactly where its last step does. -/
theorem run_bind_eq_ok {σ : Type} {x : StateT σ (Except ε) α} {f : α → StateT σ (Except ε) β}
    {s s' : σ} {b : β} :
    (x >>= f).run s = .ok (b, s') ↔ ∃ a t, x.run s = .ok (a, t) ∧ (f a).run t = .ok (b, s') := by
  rw [StateT.run_bind, bind_eq_ok]
  constructor
  · rintro ⟨⟨a, t⟩, ha, h⟩
    exact ⟨a, t, ha, h⟩
  · rintro ⟨a, t, ha, h⟩
    exact ⟨(a, t), ha, h⟩

/-! ## The same result -/

theorem mapM_congr₂ {f : α → Except ε γ} {g : β → Except ε γ} {xs : List α} {ys : List β}
    (h : List.Forall₂ (fun x y => f x = g y) xs ys) : xs.mapM f = ys.mapM g := by
  induction h with
  | nil => rfl
  | cons hxy _ ih => rw [List.mapM_cons, List.mapM_cons, hxy, ih]

theorem foldlM_congr₂ {f : γ → α → Except ε γ} {g : γ → β → Except ε γ} {xs : List α} {ys : List β}
    (h : List.Forall₂ (fun x y => ∀ c, f c x = g c y) xs ys) (c : γ) :
    xs.foldlM f c = ys.foldlM g c := by
  induction h generalizing c with
  | nil => rfl
  | cons hxy _ ih =>
    rw [List.foldlM_cons, List.foldlM_cons, hxy]
    exact bind_congr fun d _ => ih d

/-- Whether two computations have the same result, if any. -/
def Agree (x y : Except ε α) : Prop := x.toOption = y.toOption

namespace Agree

variable {x y : Except ε α}

theorem of_eq (h : x = y) : Agree x y := congrArg Except.toOption h

theorem iff : Agree x y ↔ ∀ a, x = .ok a ↔ y = .ok a := by
  have same (z : Except ε α) (a : α) : z.toOption = some a ↔ z = .ok a := by
    cases z <;> simp [Except.toOption]
  unfold Agree
  rw [Option.ext_iff]
  simp only [same]

theorem bind {f g : α → Except ε β} (h : Agree x y) (hfg : ∀ a, x = .ok a → Agree (f a) (g a)) :
    Agree (x >>= f) (y >>= g) := by
  cases x with
  | error e =>
    cases y with
    | error e' => rfl
    | ok b => cases h
  | ok a =>
    cases y with
    | error e => cases h
    | ok b =>
      cases Option.some.inj h
      exact hfg a rfl

theorem map (h : Agree x y) (f : α → β) : Agree (x.map f) (y.map f) := by
  cases x with
  | error e =>
    cases y with
    | error e' => rfl
    | ok b => cases h
  | ok a =>
    cases y with
    | error e => cases h
    | ok b =>
      cases Option.some.inj h
      rfl

theorem mapM {f : α → Except ε γ} {g : β → Except ε γ} {xs : List α} {ys : List β}
    (h : List.Forall₂ (fun x y => Agree (f x) (g y)) xs ys) : Agree (xs.mapM f) (ys.mapM g) := by
  induction h with
  | nil => rfl
  | cons hxy _ ih =>
    rw [List.mapM_cons, List.mapM_cons]
    exact hxy.bind fun a _ => ih.bind fun as _ => rfl

theorem filterMapM {f : α → Except ε (Option γ)} {g : β → Except ε (Option γ)} {xs : List α}
    {ys : List β} (h : List.Forall₂ (fun x y => Agree (f x) (g y)) xs ys) :
    Agree (xs.filterMapM f) (ys.filterMapM g) := by
  induction h with
  | nil => rfl
  | cons hxy _ ih =>
    rw [List.filterMapM_cons, List.filterMapM_cons]
    refine hxy.bind fun a? _ => ?_
    cases a? with
    | none => exact ih
    | some a => exact ih.bind fun as _ => rfl

end Agree

end SemanticLayer.Result
