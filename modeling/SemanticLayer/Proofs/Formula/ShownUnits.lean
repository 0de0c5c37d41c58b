import SemanticLayer.Model.Definition
import SemanticLayer.Proofs.Formula.EvaluatedUnits
import SemanticLayer.Proofs.Formula.Printing
import SemanticLayer.Proofs.Formula.ValidCalls

/-!
# Time units that queries show

Some dialects write the unit of a time function without quotes, and nothing but the formula says
what a unit is.  So the units that a formula may pass are those that are words as they are written.

* `Formula.IsQuotable`: the texts that can stand in a formula;
* `Formula.Node.exists_difference`, `Formula.Node.exists_truncation`: for any of them some formula of
  the present moment passes it as a time unit;
* `ShowsWord`: how a unit has to be to be a word as it is written;
* `FormulasShowWords`, `AttributesShowWords`: whether all that passes given units shows words only;
* `showsWords_iff`: this is so exactly if the units are words as they are written.
-/

namespace SemanticLayer.Formula

open Grammar

/-- Whether a text can stand in a formula.  In a model only single quotes hold texts. -/
def IsQuotable : Setting → String → Prop
  | .taxon, s => '\x27' ∉ s.toList ∨ '"' ∉ s.toList
  | .model, s => '\x27' ∉ s.toList

/-- The tokens of calls of time functions on the present moment, but for the unit. -/
def callTokens : List Token :=
  [.word "date_diff", .word "date_trunc", .word "now", .openParen, .closeParen, .comma]

theorem callTokens_written : AllWritten callTokens := by
  have run : (Lexeme.lex 0 "date_diff date_trunc now ( ) ,".toList).toOption.any
      (fun ls => ls.map Lexeme.token = callTokens) = true := by decide +kernel
  obtain ⟨ls, lexed, same⟩ := Result.ok_of_any run
  exact ((Lexeme.lex_eq_ok_iff 0).1 ⟨ls, lexed, of_decide_eq_true same⟩).isWritten

/-- What is made of these tokens and a unit is read from some text. -/
theorem exists_read {p : Phrase} {unit : Token} {ts : List Token} (written : unit.IsWritten)
    (h : Atom ts p) (tokens : ∀ t ∈ ts, t ∈ unit :: callTokens) :
    ∃ text t, Tree.read text = .ok t ∧ t.phrase = p := by
  have all : AllWritten ts := fun t ht =>
    AllWritten.cons_iff.2 ⟨written, callTokens_written⟩ t (tokens t ht)
  exact ⟨Token.print ts, (Tree.read_eq_ok_iff _ p).2
    ⟨ts, Splits.printed all, .sum (.product (.operand (.atom h)))⟩⟩

attribute [local simp] Tree.phrase in
theorem Tree.exists_call {t : Tree} {name : String} {ps : List Phrase}
    (h : t.phrase = .call name ps) : ∃ args s, t = .call name args s ∧ args.map phrase = ps := by
  cases t <;> simp at h
  obtain ⟨rfl, rfl⟩ := h
  exact ⟨_, _, rfl, (phrases_eq _).symm⟩

theorem expression_of_atom {ts : List Token} {p : Phrase} (h : Atom ts p) : Expression ts p :=
  .sum (.product (.operand (.atom h)))

namespace Node

variable {text : String} {t : Tree} {setting : Setting}

/-! ## Arguments -/

/-- A token and what it says are read as a text, in whatever formula they stand. -/
def ReadsText (setting : Setting) (s : String) (token : Token) (p : Phrase) : Prop :=
  token.IsWritten ∧ Atom [token] p ∧ ∀ text t, t.phrase = p → ∃ place, ∀ ctx lookup,
    ctx.setting = setting → ofTree ctx text lookup t = .ok (.text s place)

attribute [local simp] ofTree ofTrees in
theorem readsText_singleQuoted {s : String} (h : '\x27' ∉ s.toList) :
    ReadsText setting s (.singleQuoted s) (.singleQuoted s) := by
  have written := Token.isWritten_quoted (.inr rfl) h
  rw [String.ofList_toList] at written
  refine ⟨written, .singleQuoted s, fun text t same => ?_⟩
  cases t <;> rw [Tree.phrase] at same <;> cases same
  rename_i span
  refine ⟨.at text span.start, fun ctx lookup _ => ?_⟩
  simp [pure, Except.pure]

theorem readsText_doubleQuoted {s : String} (h : '"' ∉ s.toList) :
    ReadsText .taxon s (.doubleQuoted s) (.doubleQuoted s) := by
  have written := Token.isWritten_quoted (.inl rfl) h
  rw [String.ofList_toList] at written
  refine ⟨written, .doubleQuoted s, fun text t same => ?_⟩
  cases t <;> rw [Tree.phrase] at same <;> cases same
  rename_i span
  refine ⟨.at text span.start, fun ctx lookup taxon => ?_⟩
  rw [ofTree, taxon]
  rfl

theorem exists_readsText {s : String} (h : IsQuotable setting s) :
    ∃ token p, ReadsText setting s token p := by
  cases setting with
  | taxon =>
    rcases h with h | h
    · exact ⟨_, _, readsText_singleQuoted h⟩
    · exact ⟨_, _, readsText_doubleQuoted h⟩
  | model => exact ⟨_, _, readsText_singleQuoted h⟩

theorem ofTree_now (text : String) (h : t.phrase = .call "now" []) :
    ∃ place, ∀ ctx lookup, ofTree ctx text lookup t = .ok (.call .now [] false place) := by
  have named : Function.ofName? "now" = some .now := by decide +kernel
  obtain ⟨args, s, rfl, same⟩ := Tree.exists_call h
  obtain rfl := List.map_eq_nil_iff.1 same
  refine ⟨.at text s.start, fun ctx lookup => ?_⟩
  rw [ofTree, named, ofTrees]
  rfl

/-! ## Calls -/

/-- A call is read from its arguments, whether it stands in a model or not. -/
theorem rootOfFormula_call {ctx : Context} {name : String} {f : Function} {args : List Tree}
    {ns : List Node} {s : Span} (read : Tree.read text = .ok (.call name args s))
    (named : Function.ofName? name = some f) (keeps : f.dropsMissing = false) (other : f ≠ .merge)
    (each : ∀ lookup, ofTrees ctx text lookup args = .ok ns) (model? : Option ModelScope) :
    rootOfFormula ctx model? text =
      .ok (.root (.call f ns false (.at text s.start)) (.at text s.start)) := by
  have parsed : parse text = .ok (.call name args s) := by
    rw [parse, read]
    rfl
  have whole (lookup) : ofTree ctx text lookup (.call name args s) =
      .ok (.call f ns false (.at text s.start)) := by
    rw [ofTree, named]
    dsimp only
    rw [each]
    simp [ofCall, keeps, other]
  unfold rootOfFormula ofFormula
  cases model? with
  | none =>
    change Except.map _ (ofCalculation ctx (referenceLimit - 2 + 1) false [] text) = _
    rw [ofCalculation, parsed]
    exact congrArg _ (whole _)
  | some m =>
    dsimp only
    rw [parsed]
    exact congrArg _ (whole _)

/-- Some formula is the time from now to now in a unit. -/
theorem exists_difference {unit : String} (h : IsQuotable setting unit) :
    ∃ text p₁ p₂ p₃ p₄, ∀ ctx model?, ctx.setting = setting → rootOfFormula ctx model? text =
      .ok (.root (.call .dateDiff [.text unit p₁, .call .now [] false p₂, .call .now [] false p₃]
        false p₄) p₄) := by
  obtain ⟨token, p, written, atom, readsUnit⟩ := exists_readsText h
  have now := expression_of_atom (.callEmpty "now")
  obtain ⟨text, t, read, same⟩ := exists_read written
    (.call "date_diff" (.more (expression_of_atom atom) (.more now (.last now))))
    (by simp [callTokens])
  obtain ⟨args, s, rfl, each⟩ := Tree.exists_call same
  obtain ⟨first, args, rfl, unitSame, each⟩ := List.map_eq_cons_iff.1 each
  obtain ⟨second, args, rfl, startSame, each⟩ := List.map_eq_cons_iff.1 each
  obtain ⟨third, args, rfl, stopSame, each⟩ := List.map_eq_cons_iff.1 each
  obtain rfl := List.map_eq_nil_iff.1 each
  obtain ⟨p₁, h₁⟩ := readsUnit text first unitSame
  obtain ⟨p₂, h₂⟩ := ofTree_now text startSame
  obtain ⟨p₃, h₃⟩ := ofTree_now text stopSame
  refine ⟨text, p₁, p₂, p₃, .at text s.start, fun ctx model? stands =>
    rootOfFormula_call read (by decide +kernel) rfl (by decide) (fun lookup => ?_) model?⟩
  simp only [ofTrees, h₁ ctx lookup stands, h₂, h₃]
  rfl

/-- Some formula truncates the present moment to a unit. -/
theorem exists_truncation {unit : String} (h : IsQuotable setting unit) :
    ∃ text p₁ p₂ p₃, ∀ ctx model?, ctx.setting = setting → rootOfFormula ctx model? text =
      .ok (.root (.call .dateTrunc [.call .now [] false p₁, .text unit p₂] false p₃) p₃) := by
  obtain ⟨token, p, written, atom, readsUnit⟩ := exists_readsText h
  obtain ⟨text, t, read, same⟩ := exists_read written
    (.call "date_trunc" (.more (expression_of_atom (.callEmpty "now"))
      (.last (expression_of_atom atom)))) (by simp [callTokens])
  obtain ⟨args, s, rfl, each⟩ := Tree.exists_call same
  obtain ⟨first, args, rfl, valueSame, each⟩ := List.map_eq_cons_iff.1 each
  obtain ⟨second, args, rfl, unitSame, each⟩ := List.map_eq_cons_iff.1 each
  obtain rfl := List.map_eq_nil_iff.1 each
  obtain ⟨p₁, h₁⟩ := ofTree_now text valueSame
  obtain ⟨p₂, h₂⟩ := readsUnit text second unitSame
  refine ⟨text, p₁, p₂, .at text s.start, fun ctx model? stands =>
    rootOfFormula_call read (by decide +kernel) rfl (by decide) (fun lookup => ?_) model?⟩
  simp only [ofTrees, h₁, h₂ ctx lookup stands]
  rfl

end Node

end SemanticLayer.Formula

namespace SemanticLayer

open Formula Sql

variable {units : DialectFunction → String → Prop}

/-- Whether a unit is a word as it is written where it has no quotes.  A difference has it in upper
case. -/
def ShowsWord : DialectFunction → String → Prop
  | .dateTrunc, s => IsWord s
  | .timestampDiff, s => IsWord (Text.uppercase s)
  | _, _ => True

/-! ## Formulas -/

namespace Formula

open Node

variable {ctx : Context} {formula : String} {n : Node} {o : Outcome}

theorem showsWord_of_truncation? (f : Function) (u : String) (h : f.truncation? = some u) :
    ShowsWord .dateTrunc u := by
  have words : ∀ u ∈ ["HOUR", "DAY", "WEEK", "MONTH"], IsWord u := by decide
  refine words u ?_
  unfold Function.truncation? at h
  split at h <;> cases h <;> simp

/-- Which SQL the attributes in a formula have follows from what its model gives. -/
theorem all_attributeSql_of_root {model? : Option ModelScope} {p : Expr → Prop}
    (attributes : ∀ model ∈ model?, ∀ slug sql, model.sqlOf slug = .ok sql → p sql)
    (h : rootOfFormula ctx model? formula = .ok n) : n.All fun m => ∀ e ∈ m.attributeSql?, p e := by
  have other {m : Node} (h : m.attributeSql? = none) : ∀ e ∈ m.attributeSql?, p e := by
    rw [h]
    nofun
  have parts : HoldsRead ctx fun m => ∀ e ∈ m.attributeSql?, p e :=
    ⟨fun _ _ h => other h, fun _ _ => other rfl, fun _ _ _ _ => other rfl, fun _ _ => other rfl,
      fun _ _ _ => other rfl, fun _ _ _ => other rfl⟩
  refine all_rootOfFormula parts (fun _ _ _ => other rfl) (fun _ _ => other rfl) ?_ h
  rintro model hm slug sql hsql u place _ ⟨⟩
  exact attributes model hm slug sql hsql

/-- A valid formula of a taxon shows words if the units of its differences are words in upper
case. -/
theorem showsWords_renderTaxon (taxon : ctx.setting = .taxon)
    (hn : rootOfFormula ctx none formula = .ok n) (passes : n.PassesUnits units fun _ => True)
    (words : ∀ s, units .timestampDiff s → IsWord (Text.uppercase s))
    (h : renderTaxon ctx formula = .ok o) (d : Dialect) : o.ShowsWords d := by
  obtain ⟨_, same, h⟩ := Result.bind_eq_ok.1 h
  cases hn.symm.trans same
  split at h
  · rename_i valid
    have read : n.PassesUnits ShowsWord (Expr.HasUnits ShowsWord) := by
      refine (passes.and (passesUnits_of_faults valid taxon)).mono ?_
        (all_attributeSql_of_root (fun _ hm => absurd hm (Option.not_mem_none _)) hn)
      rintro f s ⟨inside, rfl⟩
      exact words s inside
    have planned : ((n.simplify ctx).plan ctx .none).PassesUnits ShowsWord
        (Expr.HasUnits ShowsWord) :=
      (passesUnits_plan .none).2 ((invariant_passesUnits ctx _ _).simplify read).1
    intro e he
    exact (hasUnits_outcome showsWord_of_truncation? planned h e he).showsWords (fun _ => id)
      (fun _ => id) d
  · cases h

/-- Without dimensions, a formula has no use for its template. -/
theorem PostFormula.fill_empty (p : PostFormula) : p.fill .empty = p.sql := by
  unfold fill
  cases p.template? <;> rfl

theorem Outcome.hasUnits_sql {allowed : DialectFunction → String → Prop}
    (h : ∀ e ∈ o.exprs, e.HasUnits allowed) : o.sql.HasUnits allowed := by
  unfold Outcome.sql
  split
  · exact Expr.hasUnits_literal _
  · rw [PostFormula.fill_empty]
    exact h _ (List.mem_cons_self ..)

end Formula

/-! ## Models -/

namespace Model

variable {m : Model}

/-- The model as an attribute's formula sees it from where so many references may follow. -/
def scopeAt (m : Model) (depth : Nat) : ModelScope :=
  ⟨m.dataSource, fun slug => m.attributeSql depth (m.referenced slug)⟩

/-- Whether the formulas of a model's attributes pass allowed units. -/
def PassesUnits (units : DialectFunction → String → Prop) (m : Model) : Prop :=
  ∀ taxon a, m.attribute? taxon = some a → ∀ depth n,
    Node.rootOfFormula m.context (some (m.scopeAt depth)) a.formula = .ok n →
      n.PassesUnits units fun _ => True

/-- The SQL of an attribute has units that are words as they are written if the formulas of its
model pass such units. -/
theorem hasUnits_attributeSql {depth : Nat} {taxon : String} {sql : Expr}
    (passes : m.PassesUnits units) (words : ∀ f s, units f s → ShowsWord f s)
    (h : m.attributeSql depth taxon = .ok sql) : sql.HasUnits ShowsWord := by
  induction depth generalizing taxon sql with
  | zero => cases h
  | succ depth ih =>
    rw [attributeSql] at h
    split at h
    · cases h
    · rename_i a known
      obtain ⟨o, rendered, h⟩ := Result.bind_eq_ok.1 h
      cases h
      obtain ⟨n, hn, ho⟩ := Result.bind_eq_ok.1 rendered
      have read : n.PassesUnits ShowsWord (Expr.HasUnits ShowsWord) := by
        refine (passes taxon a known depth n hn).mono words (all_attributeSql_of_root ?_ hn)
        rintro _ ⟨⟩ slug sql hsql
        exact ih hsql
      exact Outcome.hasUnits_sql (hasUnits_outcome showsWord_of_truncation?
        ((Node.invariant_passesUnits m.context _ _).simplify read).1 ho)

end Model

/-! ## What the units have to be -/

/-- Whether all valid formulas of taxons that pass given units show words only. -/
def FormulasShowWords (units : DialectFunction → String → Prop) : Prop :=
  ∀ (ctx : Context) (formula : String) (n : Node) (o : Outcome), ctx.setting = .taxon →
    Node.rootOfFormula ctx none formula = .ok n → n.PassesUnits units (fun _ => True) →
      renderTaxon ctx formula = .ok o → ∀ d, o.ShowsWords d

/-- Whether so do all attributes of models. -/
def AttributesShowWords (units : DialectFunction → String → Prop) : Prop :=
  ∀ (m : Model) (depth : Nat) (taxon : String) (sql : Expr), m.PassesUnits units →
    m.attributeSql depth taxon = .ok sql → ∀ d, sql.ShowsWords d

/-- What dialects show that write a backslash before each quote in a unit. -/
theorem Sql.Expr.isWord_of_difference {s : String} {start stop : Expr}
    (h : (dialectCall .timestampDiff [.string s, start, stop]).ShowsWords .mySql) :
    IsWord (Text.uppercase s) := by
  have shown : IsWord (Dialect.bareUnit ((string s).text .mySql)) := (everywhere_iff.1 h).1 _ rfl
  rw [text_string] at shown
  exact Dialect.isWord_of_bareUnit rfl shown

theorem Sql.Expr.isWord_of_truncation {s : String} {value : Expr}
    (h : (dialectCall .dateTrunc [.string s, value]).ShowsWords .bigQuery) : IsWord s := by
  have shown : IsWord (Dialect.unquoted ((string s).text .bigQuery)) := (everywhere_iff.1 h).1 _ rfl
  rw [text_string] at shown
  exact Dialect.isWord_of_unquoted rfl shown

namespace Formula.Node

variable {p₁ p₂ p₃ p₄ : Location} {s : String}

theorem passesUnits_now {place : Location} :
    (Node.call .now [] false place).PassesUnits units fun _ => True :=
  all_of_children_eq_nil rfl nofun

theorem passesUnits_text {place : Location} :
    (Node.text s place).PassesUnits units fun _ => True :=
  all_of_children_eq_nil rfl trivial

theorem passesUnits_difference (h : units .timestampDiff s) :
    (Node.root (.call .dateDiff [.text s p₁, .call .now [] false p₂, .call .now [] false p₃]
      false p₄) p₄).PassesUnits units fun _ => True := by
  refine all_iff.2 ⟨trivial, List.forall_mem_singleton.2 (all_iff.2 ⟨?_, ?_⟩)⟩
  · rintro _ ⟨⟩
    exact ⟨s, rfl, h⟩
  · exact List.forall_mem_cons.2 ⟨passesUnits_text,
      List.forall_mem_cons.2 ⟨passesUnits_now, List.forall_mem_singleton.2 passesUnits_now⟩⟩

theorem passesUnits_truncation (h : units .dateTrunc s) :
    (Node.root (.call .dateTrunc [.call .now [] false p₁, .text s p₂] false p₃) p₃).PassesUnits
      units fun _ => True := by
  refine all_iff.2 ⟨trivial, List.forall_mem_singleton.2 (all_iff.2 ⟨?_, ?_⟩)⟩
  · rintro _ ⟨⟩
    exact ⟨s, rfl, h⟩
  · exact List.forall_mem_cons.2 ⟨passesUnits_now, List.forall_mem_singleton.2 passesUnits_text⟩

end Formula.Node

theorem FormulasShowWords.isWord (h : FormulasShowWords units) {s : String}
    (hs : units .timestampDiff s) (quote : IsQuotable .taxon s) : IsWord (Text.uppercase s) := by
  obtain ⟨text, p₁, p₂, p₃, p₄, read⟩ := Node.exists_difference quote
  let ctx := Context.ofTaxons .empty
  have read := read ctx none rfl
  have rendered : ∃ o, renderTaxon ctx text = .ok o ∧
      o.post.template? = some (.dialectCall .timestampDiff
        [.string s, .func "now" [], .func "now" []]) := by
    rw [renderTaxon_eq_outcome read rfl]
    exact ⟨_, rfl, rfl⟩
  obtain ⟨o, ho, shown⟩ := rendered
  exact Expr.isWord_of_difference (h ctx text _ o rfl read (Node.passesUnits_difference hs) ho
    .mySql _ (Outcome.mem_exprs_of_template shown))

/-- A model of one attribute. -/
def Model.ofFormula (formula : String) : Model where
  name := "clock"
  attributes := .ofList [("time", .of "time" formula)]
  joins := []
  dataSources := ["shop"]
  type? := none
  visibility := .available
  company := "shop"
  project? := none
  table := []
  physicalSource? := none

theorem AttributesShowWords.showsWords (h : AttributesShowWords units) {m : Model} {text : String}
    {n : Node} {o : Outcome} (whole : Model.ofFormula text = m)
    (read : ∀ ctx model?, ctx.setting = .model → Node.rootOfFormula ctx model? text = .ok n)
    (passes : n.PassesUnits units fun _ => True)
    (ho : (n.simplify m.context).outcome m.context = .ok o) (d : Dialect) : o.sql.ShowsWords d := by
  subst whole
  have known : (Model.ofFormula text).attribute? "time" = some (.of "time" text) :=
    List.find?_cons_of_pos (decide_eq_true rfl)
  refine h (.ofFormula text) 1 "time" o.sql ?_ ?_ d
  · intro taxon a found depth n' hn'
    have alone : a ∈ [ModelAttribute.of "time" text] := List.mem_of_find?_eq_some found
    rw [List.mem_singleton.1 alone, ModelAttribute.of, read _ _ rfl] at hn'
    cases hn'
    exact passes
  · rw [Model.attributeSql, known]
    dsimp only
    rw [renderAttribute, ModelAttribute.of, read _ _ rfl]
    exact Result.bind_eq_ok.2 ⟨o, ho, rfl⟩

theorem AttributesShowWords.isWord_truncation (h : AttributesShowWords units) {s : String}
    (hs : units .dateTrunc s) (quote : IsQuotable .model s) : IsWord s := by
  obtain ⟨text, p₁, p₂, p₃, read⟩ := Node.exists_truncation quote
  exact Expr.isWord_of_truncation
    (h.showsWords rfl read (Node.passesUnits_truncation hs) rfl .bigQuery)

theorem AttributesShowWords.isWord_difference (h : AttributesShowWords units) {s : String}
    (hs : units .timestampDiff s) (quote : IsQuotable .model s) : IsWord (Text.uppercase s) := by
  obtain ⟨text, p₁, p₂, p₃, p₄, read⟩ := Node.exists_difference quote
  exact Expr.isWord_of_difference
    (h.showsWords rfl read (Node.passesUnits_difference hs) rfl .mySql)

/-- Formulas of taxons show words exactly if the units that differences may have are words in upper
case, and attributes of models exactly if the units of truncations are words too.  The units are such
as a formula can hold. -/
theorem showsWords_iff (units : DialectFunction → String → Prop) :
    ((∀ s, units .timestampDiff s → IsQuotable .taxon s) →
      (FormulasShowWords units ↔ ∀ s, units .timestampDiff s → IsWord (Text.uppercase s))) ∧
    ((∀ f s, units f s → IsQuotable .model s) →
      (AttributesShowWords units ↔ (∀ s, units .dateTrunc s → IsWord s) ∧
        ∀ s, units .timestampDiff s → IsWord (Text.uppercase s))) := by
  refine ⟨fun quotable => ⟨fun h s hs => h.isWord hs (quotable s hs), ?_⟩,
    fun quotable => ⟨fun h => ⟨fun s hs => h.isWord_truncation hs (quotable _ s hs),
      fun s hs => h.isWord_difference hs (quotable _ s hs)⟩, ?_⟩⟩
  · intro words ctx formula n o taxon hn passes ho d
    exact showsWords_renderTaxon taxon hn passes words ho d
  · rintro ⟨truncation, difference⟩ m depth taxon sql passes h d
    refine (Model.hasUnits_attributeSql passes ?_ h).showsWords (fun _ => id) (fun _ => id) d
    intro f s hs
    cases f with
    | dateTrunc => exact truncation s hs
    | timestampDiff => exact difference s hs
    | convertTimezone | splitPart | toDate => trivial

theorem showsWords_iff_day :
    FormulasShowWords (fun _ s => s = "day") ∧ AttributesShowWords fun _ s => s = "day" := by
  have day : '\x27' ∉ "day".toList ∧ IsWord "day" ∧ IsWord (Text.uppercase "day") := by decide
  obtain ⟨quotable, word, upper⟩ := day
  obtain ⟨formulas, attributes⟩ := showsWords_iff fun _ s => s = "day"
  refine ⟨(formulas ?_).2 ?_, (attributes ?_).2 ⟨?_, ?_⟩⟩
  · exact fun _ same => same ▸ .inl quotable
  · exact fun _ same => same ▸ upper
  · exact fun _ _ same => same ▸ quotable
  · exact fun _ same => same ▸ word
  · exact fun _ same => same ▸ upper

def orderTaxon (slug : String) : String × Taxon :=
  (slug, ⟨slug, slug, none, .dimension, .raw .groupBy, .datetime, "shop", none, none, none⟩)

/-- Two times of an order. -/
def orderContext : Context :=
  { Context.ofTaxons (.ofList [orderTaxon "created", orderTaxon "paid"]) with
    slug := "out", type := .dimension }

/-- A difference in a unit that is more than a word. -/
def commentFormula : String := "date_diff('day from now()) --', created, paid)"

/-- The formula is valid, and what stands behind the word in its unit is code in the query. -/
theorem not_showsWords_comment :
    ∃ n o e, Node.rootOfFormula orderContext none commentFormula = .ok n ∧
      n.faults orderContext = [] ∧ renderTaxon orderContext commentFormula = .ok o ∧ e ∈ o.exprs ∧
      e.text .postgres = "EXTRACT(DAY FROM NOW()) -- FROM (\"paid\" - \"created\"))" ∧
      ¬ e.ShowsWords .postgres := by
  let isComment (e : Expr) : Bool :=
    e.text .postgres = "EXTRACT(DAY FROM NOW()) -- FROM (\"paid\" - \"created\"))" &&
      e.bareUnit? .postgres = some "DAY FROM NOW()) --"
  have read : (Node.rootOfFormula orderContext none commentFormula).toOption.any
      (fun n => n.faults orderContext = []) = true := by decide +kernel
  have rendered : (renderTaxon orderContext commentFormula).toOption.any
      (fun o => o.exprs.any isComment) = true := by decide +kernel
  obtain ⟨n, hn, valid⟩ := Result.ok_of_any read
  obtain ⟨o, ho, shown⟩ := Result.ok_of_any rendered
  obtain ⟨e, there, comment⟩ := List.any_eq_true.1 shown
  obtain ⟨text, unit⟩ := Bool.and_eq_true_iff.1 comment
  refine ⟨n, o, e, hn, of_decide_eq_true valid, ho, there, of_decide_eq_true text, fun h => ?_⟩
  have word := (Expr.everywhere_iff.1 h).1 _ (of_decide_eq_true unit)
  exact absurd word (by decide)

end SemanticLayer
