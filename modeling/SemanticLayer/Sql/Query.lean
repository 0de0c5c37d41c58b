import SemanticLayer.Sql.Rendering

/-!
# SQL queries

Queries nest freely: in the tables they read from, in their common tables, and in unions.  When
a query is written, the common tables of all its parts move into one list at the top, a table
before those that use it and each name once.
-/

namespace SemanticLayer.Sql

/-- A column of a result, with a name of its own if it has one. -/
structure SelectItem where
  expr : Expr
  alias? : Option String

inductive JoinKind where
  | inner
  | left
  | right
  deriving DecidableEq

mutual

/-- What a query reads from. -/
inductive TableSource where
  /-- The parts of a qualified name, or the name of a common table. -/
  | table (parts : List String)
  | subquery (query : Query)

structure TableRef where
  source : TableSource
  alias? : Option String

structure Join where
  kind : JoinKind
  table : TableRef
  condition : Expr

/-- A query that others read by name. -/
structure CommonTable where
  name : String
  query : Query

/-- A selection, or a union of queries where `union?` holds any. -/
structure Query where
  tables : List CommonTable
  items : List SelectItem
  source? : Option TableRef
  joins : List Join
  condition? : Option Expr
  grouping : List Expr
  order : List (Ordered Expr)
  limit? : Option UInt64
  offset? : Option UInt64
  union? : Option (List Query)

end

def Query.empty : Query := ⟨[], [], none, [], none, [], [], none, none, none⟩

instance : Inhabited Query := ⟨Query.empty⟩

namespace SelectItem

def ofExpr (e : Expr) : SelectItem := ⟨e, none⟩

/-- The name an outer query sees. -/
def outputName? (i : SelectItem) : Option String :=
  match i.alias?, i.expr with
  | some a, _ => some a
  | none, .column _ n => some n
  | none, _ => none

/-- The name a result is sorted by: the output name, else the text. -/
def sortKey (i : SelectItem) : String := i.outputName?.getD (i.expr.text .snowflake)

def tokens (d : Dialect) (i : SelectItem) : TokenStream :=
  i.expr.tokens d ++
    match i.alias? with
    | some a => [.space, .keyword .asName, .space, .name a]
    | none => []

/-- Items by their names, those of one name in the order given. -/
def sorted (items : List SelectItem) : List SelectItem :=
  items.mergeSort fun a b => compare a.sortKey b.sortKey != .gt

end SelectItem

def Expr.named (e : Expr) (name : String) : SelectItem := ⟨e, some name⟩

namespace TableRef

def named (table : String) : TableRef := ⟨.table [table], none⟩

def qualified (parts : List String) : TableRef := ⟨.table parts, none⟩

def subquery (q : Query) (name : String) : TableRef := ⟨.subquery q, some name⟩

def withAlias (t : TableRef) (name : String) : TableRef := { t with alias? := some name }

end TableRef

namespace Query

/-- The union of all rows; a single query stays as it is. -/
def unionAll : List Query → Query
  | [q] => q
  | qs => { empty with union? := some qs }

def withTable (q : Query) (name : String) (body : Query) : Query :=
  { q with tables := q.tables ++ [⟨name, body⟩] }

def select (q : Query) (items : List SelectItem) : Query := { q with items }

def fromTable (q : Query) (t : TableRef) : Query := { q with source? := some t }

def join (q : Query) (kind : JoinKind) (t : TableRef) (on : Expr) : Query :=
  { q with joins := q.joins ++ [⟨kind, t, on⟩] }

/-- Narrows the rows further. -/
def filter (q : Query) (e : Expr) : Query :=
  { q with condition? := some (match q.condition? with
      | some c => c.and e
      | none => e) }

def groupBy (q : Query) (es : List Expr) : Query := { q with grouping := es }

def orderBy (q : Query) (os : List (Ordered Expr)) : Query := { q with order := os }

def limit (q : Query) (n : UInt64) : Query := { q with limit? := some n }

def offset (q : Query) (n : UInt64) : Query := { q with offset? := some n }

/-- A query that reads all of another. -/
def wrap (q : Query) (name : String) : Query := empty.fromTable (.subquery q name)

mutual

/-- The names of a query's columns; those of a union are its first query's. -/
def outputNames : Query → List String
  | ⟨_, items, _, _, _, _, _, _, _, union?⟩ =>
    outputNamesOf (items.filterMap SelectItem.outputName?) union?

def outputNamesOf (own : List String) : Option (List Query) → List String
  | none => own
  | some qs => firstOutputNames qs

def firstOutputNames : List Query → List String
  | [] => []
  | q :: _ => q.outputNames

end

/-- Appends a common table without its own list of tables, unless its name is taken. -/
def addTable (tables : List CommonTable) (name : String) (body : Query) : List CommonTable :=
  if tables.any fun t => t.name = name then tables
  else tables ++ [⟨name, { body with tables := [] }⟩]

mutual

/-- The common tables of a query and all its parts, after those in `acc`. -/
def allTables (acc : List CommonTable) : Query → List CommonTable
  | ⟨tables, _, source?, joins, _, _, _, _, _, union?⟩ =>
    tablesOfUnion (tablesOfJoins (tablesOfSource? (tablesOfList acc tables) source?) joins) union?

def tablesOfList (acc : List CommonTable) : List CommonTable → List CommonTable
  | [] => acc
  | ⟨name, body⟩ :: ts => tablesOfList (addTable (allTables acc body) name body) ts

def tablesOfSource? (acc : List CommonTable) : Option TableRef → List CommonTable
  | none => acc
  | some t => tablesOfRef acc t

def tablesOfRef (acc : List CommonTable) : TableRef → List CommonTable
  | ⟨source, _⟩ => tablesOfSource acc source

def tablesOfSource (acc : List CommonTable) : TableSource → List CommonTable
  | .table _ => acc
  | .subquery q => allTables acc q

def tablesOfJoins (acc : List CommonTable) : List Join → List CommonTable
  | [] => acc
  | ⟨_, table, _⟩ :: js => tablesOfJoins (tablesOfRef acc table) js

def tablesOfUnion (acc : List CommonTable) : Option (List Query) → List CommonTable
  | none => acc
  | some qs => tablesOfQueries acc qs

def tablesOfQueries (acc : List CommonTable) : List Query → List CommonTable
  | [] => acc
  | q :: qs => tablesOfQueries (allTables acc q) qs

end

def JoinKind.token : JoinKind → Token
  | .inner => .keyword .inner
  | .left => .keyword .left
  | .right => .keyword .right

def aliasTokens : Option String → TokenStream
  | none => []
  | some a => [.space, .keyword .asName, .space, .name a]

/-- A part of a statement on a line of its own, after its keyword. -/
def clause (k : Keyword) (ts : TokenStream) : TokenStream := [.newline, .keyword k, .space] ++ ts

/-- A row count as a token: the number's 64 bits, read with a sign. -/
def countToken (n : UInt64) : Token := .literal (.int n.toInt64)

def pagingTokens (limit? offset? : Option UInt64) : TokenStream :=
  match limit?, offset? with
  | none, none => []
  | some n, none => [.newline, .keyword .limit, .space, countToken n]
  | none, some m => [.newline, .keyword .offset, .space, countToken m]
  | some n, some m =>
    [.newline, .keyword .limit, .space, countToken n, .space, .keyword .offset, .space, countToken m]

/-- The clauses that hold expressions only. -/
def conditionTokens (d : Dialect) (condition? : Option Expr) (grouping : List Expr)
    (order : List (Ordered Expr)) : TokenStream :=
  (match condition? with
    | some e => clause .whereRows (e.tokens d)
    | none => []) ++
  (if grouping.isEmpty then []
    else clause .groupBy (TokenStream.commas (grouping.map (Expr.tokens d)))) ++
  (if order.isEmpty then [] else clause .orderBy (TokenStream.commas (Expr.orderTokens d order)))

def itemTokens (d : Dialect) (items : List SelectItem) : TokenStream :=
  .keyword .select ::
    (if items.isEmpty then [.space, .symbol .star]
    else
      [.newline, .indent 1] ++
        TokenStream.separated [.symbol .comma, .newline, .indent 1]
          (items.map (SelectItem.tokens d)))

mutual

/-- A query without its common tables. -/
def bodyTokens (d : Dialect) : Query → TokenStream
  | ⟨_, items, source?, joins, condition?, grouping, order, limit?, offset?, union?⟩ =>
    unionTokens d
      (itemTokens d items ++ sourceTokens? d source? ++ joinTokens d joins ++
        conditionTokens d condition? grouping order ++ pagingTokens limit? offset?)
      union?

/-- A union, each query in parentheses, else the selection. -/
def unionTokens (d : Dialect) (selection : TokenStream) : Option (List Query) → TokenStream
  | none => selection
  | some qs =>
    TokenStream.separated [.newline, .keyword .union, .space, .keyword .all, .newline]
      (bodiesInParens d qs)

def bodiesInParens (d : Dialect) : List Query → List TokenStream
  | [] => []
  | q :: qs => TokenStream.parens (q.bodyTokens d) :: bodiesInParens d qs

def sourceTokens? (d : Dialect) : Option TableRef → TokenStream
  | none => []
  | some t => [.newline, .keyword .fromTable, .space] ++ refTokens d t

def refTokens (d : Dialect) : TableRef → TokenStream
  | ⟨source, alias?⟩ => sourceTokens d source ++ aliasTokens alias?

def sourceTokens (d : Dialect) : TableSource → TokenStream
  | .table parts => TokenStream.separated [.symbol .dot] (parts.map fun p => [.name p])
  | .subquery q => TokenStream.parens ([.newline] ++ q.bodyTokens d ++ [.newline])

def joinTokens (d : Dialect) : List Join → TokenStream
  | [] => []
  | ⟨kind, table, condition⟩ :: js =>
    [.newline, JoinKind.token kind, .space, .keyword .join, .space] ++ refTokens d table ++
      [.space, .keyword .onRows, .space] ++ condition.tokens d ++ joinTokens d js

end

def tableTokens (d : Dialect) (t : CommonTable) : TokenStream :=
  [.name t.name, .space, .keyword .asName, .space] ++
    TokenStream.parens ([.newline] ++ t.query.bodyTokens d ++ [.newline])

/-- The whole statement, common tables first. -/
def tokens (d : Dialect) (q : Query) : TokenStream :=
  let tables := q.allTables []
  (if tables.isEmpty then []
    else
      [.keyword .withTables, .space] ++
        TokenStream.separated [.symbol .comma, .newline] (tables.map (tableTokens d)) ++
        [.newline]) ++
  q.bodyTokens d

def text (q : Query) (d : Dialect) : String := TokenStream.text d (q.tokens d)

end Query

end SemanticLayer.Sql
