import SemanticLayer.Number.Layout
import SemanticLayer.Sql.Expr

/-!
# SQL tokens

Expressions and queries are written as token streams.  Only names, literals and function names
look different in another dialect.
-/

namespace SemanticLayer.Sql

inductive Keyword where
  | select
  | fromTable
  | whereRows
  | and
  | or
  | not
  | asName
  | onRows
  | join
  | inner
  | left
  | right
  | groupBy
  | orderBy
  | asc
  | desc
  | nullsFirst
  | nullsLast
  | limit
  | offset
  | case
  | whenCase
  | thenValue
  | elseValue
  | endCase
  | inValues
  | like
  | ilike
  | escape
  | isNull
  | isNotNull
  | distinct
  | all
  | union
  | withTables
  | always
  | never
  | cast
  | extract
  | overRows
  | partitionBy
  | rows
  | between
  | unbounded
  | preceding
  | currentRow
  deriving DecidableEq

def Keyword.text : Keyword → String
  | .select => "SELECT"
  | .fromTable => "FROM"
  | .whereRows => "WHERE"
  | .and => "AND"
  | .or => "OR"
  | .not => "NOT"
  | .asName => "AS"
  | .onRows => "ON"
  | .join => "JOIN"
  | .inner => "INNER"
  | .left => "LEFT"
  | .right => "RIGHT"
  | .groupBy => "GROUP BY"
  | .orderBy => "ORDER BY"
  | .asc => "ASC"
  | .desc => "DESC"
  | .nullsFirst => "NULLS FIRST"
  | .nullsLast => "NULLS LAST"
  | .limit => "LIMIT"
  | .offset => "OFFSET"
  | .case => "CASE"
  | .whenCase => "WHEN"
  | .thenValue => "THEN"
  | .elseValue => "ELSE"
  | .endCase => "END"
  | .inValues => "IN"
  | .like => "LIKE"
  | .ilike => "ILIKE"
  | .escape => "ESCAPE"
  | .isNull => "IS NULL"
  | .isNotNull => "IS NOT NULL"
  | .distinct => "DISTINCT"
  | .all => "ALL"
  | .union => "UNION"
  | .withTables => "WITH"
  | .always => "TRUE"
  | .never => "FALSE"
  | .cast => "CAST"
  | .extract => "EXTRACT"
  | .overRows => "OVER"
  | .partitionBy => "PARTITION BY"
  | .rows => "ROWS"
  | .between => "BETWEEN"
  | .unbounded => "UNBOUNDED"
  | .preceding => "PRECEDING"
  | .currentRow => "CURRENT ROW"

inductive Symbol where
  | comma
  | dot
  | star
  | openParen
  | closeParen
  | minus
  | eq
  | ne
  | lt
  | gt
  | le
  | ge
  | plus
  | times
  | divide
  deriving DecidableEq

def Symbol.text : Symbol → String
  | .comma => ","
  | .dot => "."
  | .star => "*"
  | .openParen => "("
  | .closeParen => ")"
  | .minus => "-"
  | .eq => "="
  | .ne => "<>"
  | .lt => "<"
  | .gt => ">"
  | .le => "<="
  | .ge => ">="
  | .plus => "+"
  | .times => "*"
  | .divide => "/"

inductive Token where
  | keyword (k : Keyword)
  | symbol (s : Symbol)
  | space
  | newline
  | indent (depth : Nat)
  | name (s : String)
  | column (table? : Option String) (name : String)
  | literal (l : Literal)
  | function (name : String)
  | raw (sql : String)
  deriving DecidableEq

/-- SQL has no literal for infinities and not-a-numbers; they are null. -/
def Literal.text (d : Dialect) : Literal → String
  | .int n => toString n.toInt
  | .float x => if x.isFinite then Layout.sql.write x else "NULL"
  | .string s => d.quoteString s
  | .bool b => d.boolText b
  | .null => "NULL"

def Token.text (d : Dialect) : Token → String
  | .keyword k => k.text
  | .symbol s => s.text
  | .space => " "
  | .newline => "\n"
  | .indent depth => String.ofList (List.replicate (2 * depth) ' ')
  | .name s => d.quoteName s
  | .column (some t) n => d.quoteName t ++ "." ++ d.quoteName n
  | .column none n => d.quoteName n
  | .literal l => l.text d
  | .function n => d.functionName n
  | .raw s => s

abbrev TokenStream := List Token

def TokenStream.text (d : Dialect) (ts : TokenStream) : String := String.join (ts.map (Token.text d))

/-- Streams with a separator between each two. -/
def TokenStream.separated (separator : TokenStream) : List TokenStream → TokenStream
  | [] => []
  | [ts] => ts
  | ts :: us :: rest => ts ++ separator ++ separated separator (us :: rest)

/-- Streams between commas on one line. -/
def TokenStream.commas (tss : List TokenStream) : TokenStream :=
  separated [.symbol .comma, .space] tss

def TokenStream.parens (ts : TokenStream) : TokenStream :=
  .symbol .openParen :: ts ++ [.symbol .closeParen]

end SemanticLayer.Sql
