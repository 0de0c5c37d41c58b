import SemanticLayer.Number.Double
import SemanticLayer.Sql.Dialect

/-!
# SQL expressions

The expression tree, its builders, and `Expr.substitute`, which fills in placeholders.  A
placeholder stands for a column, or a list of columns, that only a later stage knows.
-/

namespace SemanticLayer.Sql

inductive Literal where
  | int (n : Int64)
  | float (x : Double)
  | string (s : String)
  | bool (b : Bool)
  | null
  deriving DecidableEq

inductive BinaryOperator where
  | eq
  | ne
  | lt
  | gt
  | le
  | ge
  | and
  | or
  | add
  | sub
  | mul
  | div
  deriving DecidableEq

namespace BinaryOperator

/-- A stronger operator binds its operands first. -/
def strength : BinaryOperator → Nat
  | .or => 1
  | .and => 2
  | .eq => 4
  | .ne => 4
  | .lt => 4
  | .gt => 4
  | .le => 4
  | .ge => 4
  | .add => 5
  | .sub => 5
  | .mul => 6
  | .div => 6

/-- Whether a chain of the operator means the same however it is grouped. -/
def isAssociative : BinaryOperator → Bool
  | .and => true
  | .or => true
  | .add => true
  | .mul => true
  | _ => false

end BinaryOperator

inductive UnaryOperator where
  | not
  | minus
  deriving DecidableEq

inductive SortDirection where
  | asc
  | desc
  deriving DecidableEq

inductive NullsPlacement where
  | first
  | last
  deriving DecidableEq

/-- A key of an ordering. -/
structure Ordered (α : Type) where
  key : α
  direction? : Option SortDirection
  nulls? : Option NullsPlacement
  deriving DecidableEq

inductive FrameBound where
  | unboundedPreceding
  | currentRow
  deriving DecidableEq

/-- The rows around the current one that a window function sees. -/
structure Frame where
  start : FrameBound
  stop? : Option FrameBound
  deriving DecidableEq

def Frame.toCurrentRow : Frame := ⟨.unboundedPreceding, some .currentRow⟩

inductive Expr where
  | column (table? : Option String) (name : String)
  | literal (l : Literal)
  | binary (left : Expr) (op : BinaryOperator) (right : Expr)
  | unary (op : UnaryOperator) (operand : Expr)
  | call (name : String) (args : List Expr) (distinct : Bool)
  | dialectCall (f : DialectFunction) (args : List Expr)
  | case (operand? : Option Expr) (branches : List (Expr × Expr)) (otherwise? : Option Expr)
  | cast (operand : Expr) (type : CastType)
  | extract (field : String) (operand : Expr)
  | inList (operand : Expr) (values : List Expr) (negated : Bool)
  | isNull (operand : Expr) (negated : Bool)
  | like (operand pattern : Expr) (escape : Char) (negated ignoreCase : Bool)
  | paren (inner : Expr)
  | window (function : Expr) (partition : List Expr) (order : List (Ordered Expr))
      (frame? : Option Frame)
  /-- Expressions between commas, for the place of a placeholder in a list. -/
  | list (items : List Expr)
  /-- Shown as its name in braces after a dollar sign while nothing is filled in. -/
  | placeholder (name : String)
  /-- Text that is written as it stands. -/
  | raw (sql : String)
  deriving Inhabited

namespace Expr

def col (name : String) : Expr := .column none name

def tableCol (table name : String) : Expr := .column (some table) name

def int (n : Int64) : Expr := .literal (.int n)

def float (x : Double) : Expr := .literal (.float x)

def string (s : String) : Expr := .literal (.string s)

def bool (b : Bool) : Expr := .literal (.bool b)

def null : Expr := .literal .null

def eq (l r : Expr) : Expr := .binary l .eq r

def ne (l r : Expr) : Expr := .binary l .ne r

def and (l r : Expr) : Expr := .binary l .and r

def or (l r : Expr) : Expr := .binary l .or r

def not (e : Expr) : Expr := .unary .not e

def neg (e : Expr) : Expr := .unary .minus e

def isNotNull (e : Expr) : Expr := .isNull e true

def func (name : String) (args : List Expr) : Expr := .call name args false

def sum (e : Expr) : Expr := func "SUM" [e]

def avg (e : Expr) : Expr := func "AVG" [e]

def min (e : Expr) : Expr := func "MIN" [e]

def max (e : Expr) : Expr := func "MAX" [e]

def count (e : Expr) : Expr := func "COUNT" [e]

def countDistinct (e : Expr) : Expr := .call "COUNT" [e] true

def coalesce (es : List Expr) : Expr := func "COALESCE" es

def nullif (e value : Expr) : Expr := func "NULLIF" [e, value]

def caseWhen (branches : List (Expr × Expr)) (otherwise? : Option Expr) : Expr :=
  .case none branches otherwise?

/-- A window function; a frame without an ordering is dropped, as most dialects reject it. -/
def overWindow (function : Expr) (partition : List Expr) (order : List (Ordered Expr))
    (frame? : Option Frame) : Expr :=
  .window function partition order (if order.isEmpty then none else frame?)

/-- Whether the expression is a binary operation. -/
def isBinary : Expr → Bool
  | .binary .. => true
  | _ => false

mutual

/-- Replaces each placeholder that `lookup` knows; the others stay, so that several passes can
each fill in some. -/
def substitute (lookup : String → Option Expr) : Expr → Expr
  | .column t n => .column t n
  | .literal l => .literal l
  | .binary l op r => .binary (l.substitute lookup) op (r.substitute lookup)
  | .unary op e => .unary op (e.substitute lookup)
  | .call n args d => .call n (substituteAll lookup args) d
  | .dialectCall f args => .dialectCall f (substituteAll lookup args)
  | .case operand? branches otherwise? =>
    .case (substitute? lookup operand?) (substituteBranches lookup branches)
      (substitute? lookup otherwise?)
  | .cast e t => .cast (e.substitute lookup) t
  | .extract f e => .extract f (e.substitute lookup)
  | .inList e vs n => .inList (e.substitute lookup) (substituteAll lookup vs) n
  | .isNull e n => .isNull (e.substitute lookup) n
  | .like e p c n i => .like (e.substitute lookup) (p.substitute lookup) c n i
  | .paren e => .paren (e.substitute lookup)
  | .window f ps os frame? =>
    .window (f.substitute lookup) (substituteAll lookup ps) (substituteOrder lookup os) frame?
  | .list es => .list (substituteAll lookup es)
  | .placeholder n => (lookup n).getD (.placeholder n)
  | .raw s => .raw s

def substituteAll (lookup : String → Option Expr) : List Expr → List Expr
  | [] => []
  | e :: es => e.substitute lookup :: substituteAll lookup es

def substitute? (lookup : String → Option Expr) : Option Expr → Option Expr
  | none => none
  | some e => some (e.substitute lookup)

def substituteBranches (lookup : String → Option Expr) :
    List (Expr × Expr) → List (Expr × Expr)
  | [] => []
  | (w, t) :: bs => (w.substitute lookup, t.substitute lookup) :: substituteBranches lookup bs

def substituteOrder (lookup : String → Option Expr) :
    List (Ordered Expr) → List (Ordered Expr)
  | [] => []
  | ⟨e, d, n⟩ :: os => ⟨e.substitute lookup, d, n⟩ :: substituteOrder lookup os

end

end Expr

end SemanticLayer.Sql
