import SemanticLayer.Formula.Token
import SemanticLayer.Number.Double
import SemanticLayer.Slug
import SemanticLayer.Sql.Expr

/-!
# Formula trees

What a formula says, before its taxons and functions are looked up.  Each node knows the bytes
of the text it covers.
-/

namespace SemanticLayer.Formula

inductive Operator where
  | add
  | sub
  | mul
  | div
  | and
  | or
  | eq
  | ne
  | gt
  | ge
  | lt
  | le
  deriving DecidableEq

namespace Operator

def isNumeric : Operator → Bool
  | .add => true
  | .sub => true
  | .mul => true
  | .div => true
  | _ => false

/-- Whether a missing operand makes the whole operation missing, among the numeric ones. -/
def isStrict : Operator → Bool
  | .mul => true
  | .div => true
  | _ => false

/-- The operation's name in messages. -/
def description : Operator → String
  | .add => "addition"
  | .sub => "subtraction"
  | .mul => "multiplication"
  | .div => "division"
  | _ => "logical"

def symbol : Operator → String
  | .add => "+"
  | .sub => "-"
  | .mul => "*"
  | .div => "/"
  | .and => "AND"
  | .or => "OR"
  | .eq => "="
  | .ne => "!="
  | .gt => ">"
  | .ge => ">="
  | .lt => "<"
  | .le => "<="

def sql : Operator → Sql.BinaryOperator
  | .add => .add
  | .sub => .sub
  | .mul => .mul
  | .div => .div
  | .and => .and
  | .or => .or
  | .eq => .eq
  | .ne => .ne
  | .gt => .gt
  | .ge => .ge
  | .lt => .lt
  | .le => .le

end Operator

/-- Bytes of a text, from `start` up to but not including `stop`. -/
structure Span where
  start : Nat
  stop : Nat
  deriving DecidableEq

/-- A taxon as a formula names it; the parts of its name had colons between them. -/
structure TaxonRef where
  dataSource? : Option String
  name : String
  optional : Bool
  deriving DecidableEq

def TaxonRef.slug (r : TaxonRef) : String :=
  match r.dataSource? with
  | some ns => Slug.inDataSource ns r.name
  | none => r.name

inductive Tree where
  | integer (n : Int64) (span : Span)
  | float (x : Double) (span : Span)
  | bool (b : Bool) (span : Span)
  | singleQuoted (s : String) (span : Span)
  | doubleQuoted (s : String) (span : Span)
  | taxon (ref : TaxonRef) (span : Span)
  | call (name : String) (args : List Tree) (span : Span)
  | paren (inner : Tree) (span : Span)
  | binary (op : Operator) (left right : Tree) (span : Span)
  | not (operand : Tree) (span : Span)
  | isNull (operand : Tree) (negated : Bool) (span : Span)

namespace Tree

def span : Tree → Span
  | .integer _ s => s
  | .float _ s => s
  | .bool _ s => s
  | .singleQuoted _ s => s
  | .doubleQuoted _ s => s
  | .taxon _ s => s
  | .call _ _ s => s
  | .paren _ s => s
  | .binary _ _ _ s => s
  | .not _ s => s
  | .isNull _ _ s => s

/-- An operation over two trees covers both. -/
def operation (op : Operator) (left right : Tree) : Tree :=
  .binary op left right ⟨left.span.start, right.span.stop⟩

/-- The value of digits with an optional minus: an integer of 64 bits, else a double. -/
def ofDigits (negative : Bool) (digits : String) (span : Span) : Tree :=
  let text := if negative then "-" ++ digits else digits
  let n : Int := if negative then -(digits.toNat?.getD 0 : Nat) else (digits.toNat?.getD 0 : Nat)
  if Int64.minValue.toInt ≤ n ∧ n ≤ Int64.maxValue.toInt then .integer (Int64.ofInt n) span
  else .float ((Double.parse? text).getD .zero) span

def ofDecimal (negative : Bool) (text : String) (span : Span) : Tree :=
  .float ((Double.parse? (if negative then "-" ++ text else text)).getD .zero) span

end Tree

end SemanticLayer.Formula
