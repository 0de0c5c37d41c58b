import SemanticLayer.Text.CharClass
import SemanticLayer.Text.Uppercase

/-!
# SQL dialects

What the four dialects write differently: quotes, truth values, the order of nulls, names of
functions and types, and the shape of the calls that handle dates and text.
-/

namespace SemanticLayer.Sql

/-!
## Quoted text

Names and string constants are written between a quote character.  One style writes a quote
inside twice, the other puts a backslash before quotes and backslashes.
-/

/-- Each occurrence of `q` twice. -/
def doubled (q : Char) (cs : List Char) : List Char :=
  cs.flatMap fun c => if c = q then [q, q] else [c]

/-- A backslash before each `q` and each backslash. -/
def backslashed (q : Char) (cs : List Char) : List Char :=
  cs.flatMap fun c => if c = q ∨ c = '\\' then ['\\', c] else [c]

def between (q : Char) (cs : List Char) : String := String.ofList (q :: cs ++ [q])

def quoteDoubling (q : Char) (s : String) : String := between q (doubled q s.toList)

def quoteEscaping (q : Char) (s : String) : String := between q (backslashed q s.toList)

/-! ## Dialects -/

inductive Dialect where
  | snowflake
  | bigQuery
  | postgres
  | mySql
  deriving DecidableEq, Repr, Inhabited

/-- The target of a cast. -/
inductive CastType where
  | text
  | boolean
  | date
  | numeric (precision : Nat)
  | decimal (precision scale : Nat)
  deriving DecidableEq

/-- Calls whose name or argument order differs between dialects.  Their arguments come in one
order: the value and its zones, the value with delimiter and position, the unit and the value,
the value and its format, the unit with start and end. -/
inductive DialectFunction where
  | convertTimezone
  | splitPart
  | dateTrunc
  | toDate
  | timestampDiff
  deriving DecidableEq

namespace Dialect

def all : List Dialect := [.snowflake, .bigQuery, .postgres, .mySql]

def name : Dialect → String
  | .snowflake => "snowflake"
  | .bigQuery => "bigquery"
  | .postgres => "postgres"
  | .mySql => "mysql"

/-- The dialect of a name in any letter case. -/
def ofName? (s : String) : Option Dialect :=
  match String.ofList (s.toList.map Char.toLower) with
  | "snowflake" => some .snowflake
  | "bigquery" => some .bigQuery
  | "postgres" => some .postgres
  | "postgresql" => some .postgres
  | "mysql" => some .mySql
  | _ => none

/-- The quote around names. -/
def nameQuote : Dialect → Char
  | .snowflake => '"'
  | .postgres => '"'
  | .bigQuery => '\x60'
  | .mySql => '\x60'

def quoteName (d : Dialect) (s : String) : String := quoteDoubling d.nameQuote s

/-- Whether a backslash escapes inside string constants. -/
def hasBackslashEscapes : Dialect → Bool
  | .snowflake => false
  | .postgres => false
  | .bigQuery => true
  | .mySql => true

def quoteString (d : Dialect) (s : String) : String :=
  if d.hasBackslashEscapes then quoteEscaping '\x27' s else quoteDoubling '\x27' s

def boolText (d : Dialect) (b : Bool) : String :=
  match d with
  | .mySql => if b then "1" else "0"
  | _ => if b then "true" else "false"

/-- Whether an ordering may say where nulls go. -/
def ordersNulls : Dialect → Bool
  | .mySql => false
  | _ => true

/-- The dialect's own name for a function that it calls differently. -/
def functionName? (d : Dialect) (name : String) : Option String :=
  match d, Text.uppercase name with
  | .snowflake, "NOW" => some "CURRENT_TIMESTAMP"
  | .snowflake, "IFNULL" => some "COALESCE"
  | .bigQuery, "NOW" => some "CURRENT_DATETIME"
  | .bigQuery, "NVL" => some "COALESCE"
  | .bigQuery, "IFNULL" => some "COALESCE"
  | .postgres, "NVL" => some "COALESCE"
  | .postgres, "IFNULL" => some "COALESCE"
  | .mySql, "NVL" => some "COALESCE"
  | .mySql, "SPLIT_PART" => some "SUBSTRING_INDEX"
  | _, _ => none

def functionName (d : Dialect) (name : String) : String :=
  Text.uppercase ((d.functionName? name).getD name)

def castType (d : Dialect) (t : CastType) : String :=
  match d, t with
  | .bigQuery, .text => "STRING"
  | .bigQuery, .boolean => "BOOL"
  | .bigQuery, .numeric _ => "NUMERIC"
  | .bigQuery, .decimal p s => "NUMERIC(" ++ toString p ++ ", " ++ toString s ++ ")"
  | .mySql, .text => "CHAR"
  | .mySql, .boolean => "UNSIGNED"
  | .mySql, .numeric p => "DECIMAL(" ++ toString p ++ ")"
  | _, .text => "VARCHAR"
  | _, .boolean => "BOOLEAN"
  | _, .date => "DATE"
  | _, .numeric p => "NUMERIC(" ++ toString p ++ ")"
  | _, .decimal p s => "DECIMAL(" ++ toString p ++ ", " ++ toString s ++ ")"

/-- A call with its arguments in the order given. -/
def plainCall (name : String) (args : List String) : String :=
  name ++ "(" ++ ", ".intercalate args ++ ")"

/-- A text without the single quotes at its ends. -/
def unquoted (s : String) : String := String.ofList (Text.trimList (· == '\x27') s.toList)

/-- A quoted time unit as a bare word. -/
def bareUnit (s : String) : String := Text.uppercase (unquoted s)

def snowflakeCall : DialectFunction → List String → String
  | .convertTimezone, [value, source, target] =>
    plainCall "CONVERT_TIMEZONE" [source, target, value]
  | .convertTimezone, [value, source] => plainCall "CONVERT_TIMEZONE" [source, value]
  | .convertTimezone, args => plainCall "CONVERT_TIMEZONE" args
  | .splitPart, args => plainCall "SPLIT_PART" args
  | .dateTrunc, args => plainCall "DATE_TRUNC" args
  | .toDate, args => plainCall "TO_DATE" args
  | .timestampDiff, args => plainCall "TIMESTAMPDIFF" args

def bigQueryCall : DialectFunction → List String → String
  | .convertTimezone, [value, source, target] =>
    plainCall "DATETIME" [plainCall "DATETIME" [value, source], target]
  | .convertTimezone, [value, source] => plainCall "DATETIME" [value, source]
  | .convertTimezone, args => plainCall "DATETIME" args
  | .splitPart, [value, delimiter, position] =>
    plainCall "SPLIT" [value, delimiter] ++ "[" ++ plainCall "SAFE_ORDINAL" [position] ++ "]"
  | .splitPart, args => plainCall "SPLIT" args
  | .dateTrunc, [unit, value] => plainCall "DATETIME_TRUNC" [value, unquoted unit]
  | .dateTrunc, args => plainCall "DATETIME_TRUNC" args
  | .toDate, [value, format] => plainCall "PARSE_DATE" [format, value]
  | .toDate, [value] => "CAST(" ++ value ++ " AS DATE)"
  | .toDate, args => plainCall "PARSE_DATE" args
  | .timestampDiff, [unit, start, stop] => plainCall "DATETIME_DIFF" [stop, start, unit]
  | .timestampDiff, args => plainCall "DATETIME_DIFF" args

def postgresCall : DialectFunction → List String → String
  | .convertTimezone, [value, source, target] =>
    "((" ++ value ++ " AT TIME ZONE " ++ source ++ ") AT TIME ZONE " ++ target ++ ")"
  | .convertTimezone, [value, source] => "(" ++ value ++ " AT TIME ZONE " ++ source ++ ")"
  | .convertTimezone, args => plainCall "TIMEZONE" args
  | .timestampDiff, [unit, start, stop] =>
    "EXTRACT(" ++ bareUnit unit ++ " FROM (" ++ stop ++ " - " ++ start ++ "))"
  | .timestampDiff, args => plainCall "AGE" args
  | f, args => snowflakeCall f args

def mySqlCall : DialectFunction → List String → String
  | .convertTimezone, [value, source, target] => plainCall "CONVERT_TZ" [value, source, target]
  | .convertTimezone, [value, source] => plainCall "CONVERT_TZ" [value, source, "'UTC'"]
  | .convertTimezone, args => plainCall "CONVERT_TZ" args
  | .splitPart, [value, delimiter, position] =>
    plainCall "SUBSTRING_INDEX"
      [plainCall "SUBSTRING_INDEX" [value, delimiter, position], delimiter, "-1"]
  | .splitPart, args => plainCall "SUBSTRING_INDEX" args
  | .toDate, [value, format] => plainCall "STR_TO_DATE" [value, format]
  | .toDate, [value] => plainCall "DATE" [value]
  | .toDate, args => plainCall "STR_TO_DATE" args
  | .timestampDiff, [unit, start, stop] => plainCall "TIMESTAMPDIFF" [bareUnit unit, start, stop]
  | .timestampDiff, args => plainCall "TIMESTAMPDIFF" args
  | .dateTrunc, args => snowflakeCall .dateTrunc args

/-- The text of a dialect function from the texts of its arguments. -/
def dialectCall : Dialect → DialectFunction → List String → String
  | .snowflake => snowflakeCall
  | .bigQuery => bigQueryCall
  | .postgres => postgresCall
  | .mySql => mySqlCall

def isWordChar (c : Char) : Bool := c.isAlphanum || c == '_'

/-- Letters, digits and underscores only, and no digit at the start. -/
def wordAlias (s : String) : String :=
  match s.toList.map fun c => if isWordChar c then c else '_' with
  | [] => ""
  | c :: cs => String.ofList (if c.isDigit then '_' :: c :: cs else c :: cs)

/-- An output name in a form the dialect accepts; two names may get the same form. -/
def outputAlias (d : Dialect) (s : String) : String :=
  match d with
  | .bigQuery => wordAlias s
  | _ => s

end Dialect

end SemanticLayer.Sql
