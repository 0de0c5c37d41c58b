import Mathlib.Data.List.Permutation
import SemanticLayer.Formula.Typing

/-!
# Aggregations that several agree on

Several aggregations agree by their types, and what they agree on is the first that is set, with its
parameters.

* `Aggregation.Disagree`, `Aggregation.first`: when they do not agree, and what they agree on if
  they do (`common?_of_disagree`, `common?_of_agree`);
* `Aggregation.Unanimous`: those that are set are one and the same;
* `Aggregation.common?_append`: parts that are reduced by themselves;
* `Aggregation.type_common?_of_perm`, `Aggregation.common?_perm_iff`: other orders;
* `Formula.Node.aggregation_orderFree_iff`: orders and parts, and the operands of numeric operations.
-/

namespace SemanticLayer

namespace Aggregation

/-- Whether an aggregation is one of several and set. -/
def SetIn (as : List (Option Aggregation)) (a : Aggregation) : Prop :=
  some a ∈ as ∧ a.isSet = true

/-- Whether one is missing or two that are set differ in type. -/
def Disagree (as : List (Option Aggregation)) : Prop :=
  none ∈ as ∨ ∃ a b, SetIn as a ∧ SetIn as b ∧ a.type ≠ b.type

/-- Whether those that are set are one and the same, parameters included. -/
def Unanimous (as : List (Option Aggregation)) : Prop := ∀ a b, SetIn as a → SetIn as b → a = b

/-- The first that is set, if any is. -/
def first (as : List (Option Aggregation)) : Aggregation :=
  ((as.filterMap id).find? isSet).getD .notSet

variable {a b : Aggregation} {as bs : List (Option Aggregation)}

theorem Disagree.mono (h : Disagree as) (sub : ∀ x ∈ as, x ∈ bs) : Disagree bs := by
  rcases h with missing | ⟨a, b, ha, hb, differ⟩
  · exact .inl (sub _ missing)
  · exact .inr ⟨a, b, ⟨sub _ ha.1, ha.2⟩, ⟨sub _ hb.1, hb.2⟩, differ⟩

theorem unanimous_of_mem (h : ∀ x ∈ as, x = some a ∨ x = some .notSet) : Unanimous as := by
  have same {b : Aggregation} (hb : SetIn as b) : b = a := by
    rcases h _ hb.1 with found | unset
    · exact Option.some.inj found
    · cases Option.some.inj unset
      cases hb.2
  exact fun b c hb hc => (same hb).trans (same hc).symm

theorem type_eq_of_agree (h : ¬Disagree as) (ha : SetIn as a) (hb : SetIn as b) :
    a.type = b.type :=
  not_not.1 fun differ => h (.inr ⟨a, b, ha, hb, differ⟩)

/-! ## The first that is set -/

theorem first_cases (as : List (Option Aggregation)) :
    SetIn as (first as) ∨ first as = .notSet ∧ ∀ a, ¬SetIn as a := by
  have mem {a : Aggregation} : a ∈ as.filterMap id ↔ some a ∈ as := by
    rw [List.mem_filterMap]
    exact exists_eq_right
  unfold first
  cases found : (as.filterMap id).find? isSet with
  | some a => exact .inl ⟨mem.1 (List.mem_of_find?_eq_some found), List.find?_some found⟩
  | none =>
    exact .inr ⟨rfl, fun a h => List.find?_eq_none.1 found a (mem.2 h.1) h.2⟩

theorem setIn_first (h : SetIn as a) : SetIn as (first as) :=
  (first_cases as).resolve_right fun none => none.2 a h

theorem setIn_first_of_isSet (h : (first as).isSet = true) : SetIn as (first as) := by
  refine (first_cases as).resolve_right fun none => ?_
  rw [none.1] at h
  cases h

theorem first_append (as bs : List (Option Aggregation)) :
    first (as ++ bs) = if (first as).isSet then first as else first bs := by
  unfold first
  rw [List.filterMap_append, List.find?_append]
  cases found : (as.filterMap id).find? isSet with
  | some a =>
    have isSet : a.isSet = true := List.find?_some found
    rw [Option.some_or, Option.getD_some, if_pos isSet]
  | none => rfl

theorem first_singleton (a : Aggregation) : first [some a] = a := by
  cases a <;> rfl

/-! ## What several agree on -/

theorem mapM_eq_none (h : none ∈ as) : as.mapM id = none := by
  induction as with
  | nil => cases h
  | cons a? as ih =>
    rw [List.mapM_cons]
    cases a? with
    | none => rfl
    | some a => rw [ih ((List.mem_cons.1 h).resolve_left nofun)]; rfl

theorem mapM_eq_filterMap (h : none ∉ as) : as.mapM id = some (as.filterMap id) := by
  induction as with
  | nil => rfl
  | cons a? as ih =>
    rw [List.mapM_cons, ih fun missing => h (List.mem_cons_of_mem _ missing)]
    cases a? with
    | none => exact absurd (List.mem_cons_self ..) h
    | some a => rfl

theorem common?_of_present (present : none ∉ as) :
    common? .notSet as =
      if ((as.filterMap id).filter isSet).all fun b => b.type = (first as).type then
        some (first as)
      else none := by
  unfold common? first
  rw [mapM_eq_filterMap present, ← List.head?_filter]
  dsimp only
  cases (as.filterMap id).filter isSet with
  | nil => rfl
  | cons a rest =>
    rw [List.all_cons, List.head?_cons, Option.getD_some, decide_eq_true rfl, Bool.true_and]

theorem mem_filter_isSet : a ∈ (as.filterMap id).filter isSet ↔ SetIn as a := by
  rw [List.mem_filter, List.mem_filterMap]
  exact and_congr_left fun _ => exists_eq_right

theorem common?_of_disagree (h : Disagree as) : common? .notSet as = none := by
  by_cases missing : none ∈ as
  · unfold common?
    rw [mapM_eq_none missing]
  obtain ⟨a, b, ha, hb, differ⟩ := h.resolve_left missing
  rw [common?_of_present missing, if_neg]
  intro alike
  have same {c : Aggregation} (hc : SetIn as c) : c.type = (first as).type :=
    of_decide_eq_true (List.all_eq_true.1 alike c (mem_filter_isSet.2 hc))
  exact differ ((same ha).trans (same hb).symm)

theorem common?_of_agree (h : ¬Disagree as) : common? .notSet as = some (first as) := by
  rw [common?_of_present fun missing => h (.inl missing), if_pos]
  refine List.all_eq_true.2 fun a ha => decide_eq_true ?_
  have ha := mem_filter_isSet.1 ha
  exact type_eq_of_agree h ha (setIn_first ha)

theorem common?_eq_none_iff : common? .notSet as = none ↔ Disagree as := by
  refine ⟨fun none => ?_, common?_of_disagree⟩
  by_contra agree
  cases none.symm.trans (common?_of_agree agree)

theorem common?_eq_some_iff : common? .notSet as = some a ↔ ¬Disagree as ∧ a = first as := by
  constructor
  · intro found
    have agree : ¬Disagree as := fun h => by cases found.symm.trans (common?_of_disagree h)
    exact ⟨agree, Option.some.inj (found.symm.trans (common?_of_agree agree))⟩
  · rintro ⟨agree, rfl⟩
    exact common?_of_agree agree

theorem common?_singleton (a? : Option Aggregation) : common? .notSet [a?] = a? := by
  cases a? with
  | none => rfl
  | some a =>
    have agree : ¬Disagree [some a] := by
      rintro (missing | ⟨b, c, hb, hc, differ⟩)
      · cases List.mem_singleton.1 missing
      · cases List.mem_singleton.1 hb.1
        cases List.mem_singleton.1 hc.1
        exact differ rfl
    rw [common?_of_agree agree, first_singleton]

/-! ## Parts -/

/-- Each that is set is stood for by what its part agrees on. -/
theorem exists_setIn_common? {part : List (Option Aggregation)} {parts : List (Option Aggregation)}
    (among : common? .notSet part ∈ parts) (agree : ¬Disagree parts) (h : SetIn part a) :
    ∃ c, SetIn parts c ∧ c.type = a.type := by
  cases found : common? .notSet part with
  | none => exact absurd (.inl (found ▸ among)) agree
  | some c =>
    obtain ⟨agrees, rfl⟩ := common?_eq_some_iff.1 found
    have isFirst := setIn_first h
    exact ⟨_, ⟨found ▸ among, isFirst.2⟩, type_eq_of_agree agrees isFirst h⟩

/-- What a part agrees on is one of it, if it is set. -/
theorem setIn_of_common?_eq (found : common? .notSet as = some a) (isSet : a.isSet = true) :
    SetIn as a := by
  obtain ⟨_, rfl⟩ := common?_eq_some_iff.1 found
  exact setIn_first_of_isSet isSet

theorem disagree_parts_iff :
    Disagree [common? .notSet as, common? .notSet bs] ↔ Disagree (as ++ bs) := by
  constructor
  · have left {x : Option Aggregation} (hx : x ∈ as) : x ∈ as ++ bs := List.mem_append_left _ hx
    have right {x : Option Aggregation} (hx : x ∈ bs) : x ∈ as ++ bs := List.mem_append_right _ hx
    have within {c : Aggregation} (h : SetIn [common? .notSet as, common? .notSet bs] c) :
        SetIn (as ++ bs) c := by
      rcases List.mem_cons.1 h.1 with found | found
      · exact ⟨left (setIn_of_common?_eq found.symm h.2).1, h.2⟩
      · exact ⟨right (setIn_of_common?_eq (List.mem_singleton.1 found).symm h.2).1, h.2⟩
    rintro (missing | ⟨a, b, ha, hb, differ⟩)
    · rcases List.mem_cons.1 missing with missing | missing
      · exact (common?_eq_none_iff.1 missing.symm).mono fun _ => left
      · exact (common?_eq_none_iff.1 (List.mem_singleton.1 missing).symm).mono fun _ => right
    · exact .inr ⟨a, b, within ha, within hb, differ⟩
  · intro h
    by_contra agree
    have stands {c : Aggregation} (hc : SetIn (as ++ bs) c) :
        ∃ d, SetIn [common? .notSet as, common? .notSet bs] d ∧ d.type = c.type := by
      rcases List.mem_append.1 hc.1 with hc' | hc'
      · exact exists_setIn_common? (List.mem_cons_self ..) agree ⟨hc', hc.2⟩
      · exact exists_setIn_common? (List.mem_cons_of_mem _ (List.mem_singleton_self _)) agree
          ⟨hc', hc.2⟩
    rcases h with missing | ⟨a, b, ha, hb, differ⟩
    · refine agree (.inl ?_)
      rcases List.mem_append.1 missing with missing | missing
      · rw [common?_of_disagree (.inl missing)]
        exact List.mem_cons_self ..
      · have disagree : Disagree bs := .inl missing
        rw [common?_of_disagree disagree]
        exact List.mem_cons_of_mem _ (List.mem_singleton_self _)
    · obtain ⟨c, hc, sameA⟩ := stands ha
      obtain ⟨d, hd, sameB⟩ := stands hb
      exact differ (sameA.symm.trans ((type_eq_of_agree agree hc hd).trans sameB))

/-- Two parts that are reduced by themselves, in the order in which they stand, agree on what all of
them agree on. -/
theorem common?_append (as bs : List (Option Aggregation)) :
    common? .notSet [common? .notSet as, common? .notSet bs] = common? .notSet (as ++ bs) := by
  by_cases h : Disagree (as ++ bs)
  · rw [common?_of_disagree h, common?_of_disagree (disagree_parts_iff.2 h)]
  have agreeLeft : ¬Disagree as := fun d => h (d.mono fun _ => List.mem_append_left _)
  have agreeRight : ¬Disagree bs := fun d => h (d.mono fun _ => List.mem_append_right _)
  rw [common?_of_agree h, common?_of_agree (mt disagree_parts_iff.1 h), common?_of_agree agreeLeft,
    common?_of_agree agreeRight, first_append, ← List.singleton_append, first_append,
    first_singleton, first_singleton]

/-! ## Other orders -/

theorem disagree_congr (same : ∀ x, x ∈ as ↔ x ∈ bs) : Disagree as ↔ Disagree bs :=
  ⟨fun h => h.mono fun x => (same x).1, fun h => h.mono fun x => (same x).2⟩

/-- In another order those that agree agree on the same type. -/
theorem type_common?_of_perm (perm : as.Perm bs) :
    (common? .notSet bs).map type = (common? .notSet as).map type := by
  have same : ∀ x, x ∈ as ↔ x ∈ bs := fun _ => perm.mem_iff
  by_cases h : Disagree as
  · rw [common?_of_disagree h, common?_of_disagree ((disagree_congr same).1 h)]
  have agree : ¬Disagree bs := mt (disagree_congr same).2 h
  rw [common?_of_agree h, common?_of_agree agree, Option.map_some, Option.map_some]
  rcases first_cases as with some | ⟨none, unset⟩
  · have some' : SetIn bs (first as) := ⟨(same _).1 some.1, some.2⟩
    rw [type_eq_of_agree agree some' (setIn_first some')]
  · have unset' : first bs = .notSet :=
      ((first_cases bs).resolve_left fun h => unset _ ⟨(same _).2 h.1, h.2⟩).1
    rw [none, unset']

/-- In all other orders they agree on the same exactly if they do not agree at all, or those that are
set are one and the same. -/
theorem common?_perm_iff :
    (∀ bs, as.Perm bs → common? .notSet bs = common? .notSet as) ↔ Disagree as ∨ Unanimous as := by
  constructor
  · intro same
    by_cases h : Disagree as
    · exact .inl h
    -- With each of those that are set in front, it is what the others agree on.
    have infront {a : Aggregation} (ha : SetIn as a) : common? .notSet as = some a := by
      have perm := List.perm_cons_erase ha.1
      have agree : ¬Disagree (some a :: as.erase (some a)) :=
        mt (disagree_congr fun _ => perm.mem_iff).2 h
      rw [← same _ perm, common?_of_agree agree, ← List.singleton_append, first_append,
        first_singleton, if_pos ha.2]
    exact .inr fun a b ha hb => Option.some.inj ((infront ha).symm.trans (infront hb))
  · intro cases bs perm
    have same : ∀ x, x ∈ as ↔ x ∈ bs := fun _ => perm.mem_iff
    by_cases h : Disagree as
    · rw [common?_of_disagree h, common?_of_disagree ((disagree_congr same).1 h)]
    have unanimous : Unanimous as := cases.resolve_left h
    rw [common?_of_agree h, common?_of_agree (mt (disagree_congr same).2 h)]
    rcases first_cases as with some | ⟨none, unset⟩
    · have first' : SetIn bs (first bs) := setIn_first ⟨(same _).1 some.1, some.2⟩
      rw [unanimous _ _ ⟨(same _).2 first'.1, first'.2⟩ some]
    · rw [none, ((first_cases bs).resolve_left fun h => unset _ ⟨(same _).2 h.1, h.2⟩).1]

/-- So in whichever two parts they are reduced. -/
theorem common?_parts_iff :
    (∀ bs cs, as.Perm (bs ++ cs) →
      common? .notSet [common? .notSet bs, common? .notSet cs] = common? .notSet as) ↔
      Disagree as ∨ Unanimous as := by
  rw [← common?_perm_iff]
  constructor
  · intro same bs perm
    have parts := same bs [] (by rwa [List.append_nil])
    rwa [common?_append, List.append_nil] at parts
  · intro same bs cs perm
    rw [common?_append]
    exact same _ perm

theorem common?_pair_comm_iff {a? b? : Option Aggregation} :
    common? .notSet [a?, b?] = common? .notSet [b?, a?] ↔
      Disagree [a?, b?] ∨ Unanimous [a?, b?] := by
  rw [← common?_perm_iff]
  constructor
  · intro same cs perm
    rcases List.perm_pair.1 perm.symm with rfl | rfl
    · rfl
    · exact same.symm
  · intro same
    exact (same _ (List.Perm.swap ..)).symm

end Aggregation

namespace Formula.Node

open Aggregation (common? Disagree Unanimous)

theorem aggregation?_binary {op : Operator} (numeric : op.isNumeric = true) (ctx : Context)
    (l r : Node) (p : Location) :
    (binary op l r p).aggregation? ctx =
      common? .notSet [l.aggregation? ctx, r.aggregation? ctx] := by
  rw [aggregation?, if_pos numeric]

/-- Operands may be grouped as one likes. -/
theorem aggregation?_regroup {op op' : Operator} (numeric : op.isNumeric = true)
    (numeric' : op'.isNumeric = true) (ctx : Context) (a b c : Node) (p q r s : Location) :
    (binary op (binary op' a b p) c q).aggregation? ctx =
      (binary op' a (paren (binary op b c r) s) q).aggregation? ctx := by
  have left : (binary op (binary op' a b p) c q).aggregation? ctx =
      common? .notSet ([a.aggregation? ctx, b.aggregation? ctx] ++ [c.aggregation? ctx]) := by
    rw [aggregation?_binary numeric, aggregation?_binary numeric', ← Aggregation.common?_append,
      Aggregation.common?_singleton (c.aggregation? ctx)]
  have right : (binary op' a (paren (binary op b c r) s) q).aggregation? ctx =
      common? .notSet ([a.aggregation? ctx] ++ [b.aggregation? ctx, c.aggregation? ctx]) := by
    rw [aggregation?_binary numeric', aggregation?, aggregation?_binary numeric,
      ← Aggregation.common?_append, Aggregation.common?_singleton (a.aggregation? ctx)]
  rw [left, right]
  rfl

/-- What several agree on, and of which type, in which order and in which parts; and the same of
numeric operations. -/
theorem aggregation_orderFree_iff (as : List (Option Aggregation)) (ctx : Context) (a b c : Node)
    (p q r s : Location) :
    ((∀ bs, as.Perm bs → common? .notSet bs = common? .notSet as) ↔
      Disagree as ∨ Unanimous as) ∧
    ((∀ bs cs, as.Perm (bs ++ cs) →
      common? .notSet [common? .notSet bs, common? .notSet cs] = common? .notSet as) ↔
      Disagree as ∨ Unanimous as) ∧
    (∀ bs, as.Perm bs →
      (common? .notSet bs).map Aggregation.type = (common? .notSet as).map Aggregation.type) ∧
    (∀ bs cs, as = bs ++ cs →
      common? .notSet [common? .notSet bs, common? .notSet cs] = common? .notSet as) ∧
    ∀ op op' : Operator, op.isNumeric = true → op'.isNumeric = true →
      ((binary op a b p).aggregation? ctx = (binary op' b a q).aggregation? ctx ↔
        Disagree [a.aggregation? ctx, b.aggregation? ctx] ∨
          Unanimous [a.aggregation? ctx, b.aggregation? ctx]) ∧
      (binary op (binary op' a b p) c q).aggregation? ctx =
        (binary op' a (paren (binary op b c r) s) q).aggregation? ctx := by
  refine ⟨Aggregation.common?_perm_iff, Aggregation.common?_parts_iff,
    fun _ => Aggregation.type_common?_of_perm, ?parts, ?operations⟩
  case parts =>
    rintro bs cs rfl
    exact Aggregation.common?_append bs cs
  case operations =>
    intro op op' numeric numeric'
    refine ⟨?_, aggregation?_regroup numeric numeric' ctx a b c p q r s⟩
    rw [aggregation?_binary numeric, aggregation?_binary numeric']
    exact Aggregation.common?_pair_comm_iff

/-! ### Stocks of the last day and of the last hour -/

/-- A metric of which the last value by a taxon counts. -/
def stock (slug last : String) : Node :=
  let t : Taxon := ⟨slug, slug, none, .metric, .raw (.lastBy [⟨last, none⟩]), .integer, "shop", none,
    none, none⟩
  .taxon ⟨slug, none, some t, false⟩ ⟨0, 1, slug⟩

def stockContext : Context := ⟨.empty, none, false, .metric, "stocks", false, none⟩

theorem aggregation_orderFree_stocks :
    let byDay : Aggregation := .lastBy [⟨"day", none⟩]
    let held := stock "held" "day"
    let ordered := stock "ordered" "day"
    let place : Location := ⟨0, 1, ""⟩
    common? .notSet [some .notSet, some byDay] = some byDay ∧
    common? .notSet [common? .notSet [some .notSet], common? .notSet [some byDay]] = some byDay ∧
    (binary .add held ordered place).aggregation? stockContext =
      (binary .mul ordered held place).aggregation? stockContext ∧
    (binary .add (binary .mul held ordered place) held place).aggregation? stockContext =
      (binary .mul held (paren (binary .add ordered held place) place) place).aggregation?
        stockContext := by
  intro byDay held ordered place
  obtain ⟨orders, parts, types, split, operations⟩ :=
    aggregation_orderFree_iff [some byDay, some .notSet] stockContext held ordered held place place
      place place
  have unanimous : Unanimous [some byDay, some .notSet] :=
    Aggregation.unanimous_of_mem (a := byDay) (by decide)
  have unanimous' : Unanimous [some byDay, some byDay] :=
    Aggregation.unanimous_of_mem (a := byDay) (by decide)
  obtain ⟨comm, assoc⟩ := operations .add .mul rfl rfl
  exact ⟨orders.2 (.inr unanimous) _ (.swap ..), parts.2 (.inr unanimous) _ _ (.swap ..),
    comm.2 (.inr unanimous'), assoc⟩

/-- Of two operands that are last by different taxons the left one's wins. -/
theorem aggregation_not_comm :
    let held := stock "held" "day"
    let ordered := stock "ordered" "hour"
    let place : Location := ⟨0, 1, ""⟩
    common? .notSet [some (.lastBy [⟨"day", none⟩]), some (.lastBy [⟨"hour", none⟩])] ≠
      common? .notSet [some (.lastBy [⟨"hour", none⟩]), some (.lastBy [⟨"day", none⟩])] ∧
    (binary .add held ordered place).aggregation? stockContext =
      some (.lastBy [⟨"day", none⟩]) ∧
    (binary .add ordered held place).aggregation? stockContext =
      some (.lastBy [⟨"hour", none⟩]) := by
  decide

end Formula.Node

end SemanticLayer
