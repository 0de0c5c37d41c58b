import SemanticLayer.Sql.Token

/-!
# Expressions as tokens

`Expr.tokens` writes an expression with the parentheses its operators need; `Expr.text` is the
SQL of one dialect.
-/

namespace SemanticLayer.Sql

def BinaryOperator.token : BinaryOperator → Token
  | .eq => .symbol .eq
  | .ne => .symbol .ne
  | .lt => .symbol .lt
  | .gt => .symbol .gt
  | .le => .symbol .le
  | .ge => .symbol .ge
  | .and => .keyword .and
  | .or => .keyword .or
  | .add => .symbol .plus
  | .sub => .symbol .minus
  | .mul => .symbol .times
  | .div => .symbol .divide

def FrameBound.tokens : FrameBound → TokenStream
  | .unboundedPreceding => [.keyword .unbounded, .space, .keyword .preceding]
  | .currentRow => [.keyword .currentRow]

def Frame.tokens (f : Frame) : TokenStream :=
  match f.stop? with
  | none => [.keyword .rows, .space] ++ f.start.tokens
  | some stop =>
    [.keyword .rows, .space, .keyword .between, .space] ++ f.start.tokens ++
      [.space, .keyword .and, .space] ++ stop.tokens

def SortDirection.token : SortDirection → Token
  | .asc => .keyword .asc
  | .desc => .keyword .desc

def NullsPlacement.token : NullsPlacement → Token
  | .first => .keyword .nullsFirst
  | .last => .keyword .nullsLast

/-- What follows the key of an ordering. -/
def orderSuffix (d : Dialect) (direction? : Option SortDirection) (nulls? : Option NullsPlacement) :
    TokenStream :=
  (match direction? with
    | some dir => [.space, dir.token]
    | none => []) ++
  (match nulls? with
    | some n => if d.ordersNulls then [.space, n.token] else []
    | none => [])

/-- Whether an operand of a binary operator stands in parentheses: a weaker operation does, an
equally strong one on the right unless the chain is associative, and a test for null, a pattern
or a list under anything stronger than `AND`. -/
def needsParens (operand : Expr) (parent : BinaryOperator) (onRight : Bool) : Bool :=
  match operand with
  | .binary _ op _ =>
    op.strength < parent.strength ||
      (onRight && op.strength == parent.strength && !(parent.isAssociative && op == parent))
  | .isNull .. => parent.strength > BinaryOperator.and.strength
  | .like .. => parent.strength > BinaryOperator.and.strength
  | .inList .. => parent.strength > BinaryOperator.and.strength
  | _ => false

def TokenStream.parensIf (needed : Bool) (ts : TokenStream) : TokenStream :=
  if needed then TokenStream.parens ts else ts

/-- The parts of a window between its parentheses. -/
def windowParts (partition order : List TokenStream) (frame? : Option Frame) : TokenStream :=
  let parts : List TokenStream :=
    (if partition.isEmpty then []
      else [[.keyword .partitionBy, .space] ++ TokenStream.commas partition]) ++
    (if order.isEmpty then [] else [[.keyword .orderBy, .space] ++ TokenStream.commas order]) ++
    (match frame? with
      | some f => [f.tokens]
      | none => [])
  TokenStream.separated [.space] parts

namespace Expr

mutual

/-- The tokens of an expression. -/
def tokens (d : Dialect) : Expr → TokenStream
  | .column t n => [.column t n]
  | .literal l => [.literal l]
  | .binary l op r =>
    TokenStream.parensIf (needsParens l op false) (l.tokens d) ++ [.space, op.token, .space] ++
      TokenStream.parensIf (needsParens r op true) (r.tokens d)
  | .unary .not e =>
    [.keyword .not, .space] ++ TokenStream.parensIf e.isBinary (e.tokens d)
  | .unary .minus e => .symbol .minus :: TokenStream.parensIf e.isBinary (e.tokens d)
  | .call n args distinct =>
    .function n ::
      TokenStream.parens
        ((if distinct then [.keyword .distinct, .space] else []) ++
          TokenStream.commas (tokensEach d args))
  | .dialectCall f args =>
    [.raw (d.dialectCall f ((tokensEach d args).map (TokenStream.text d)))]
  | .case operand? branches otherwise? =>
    .keyword .case :: tokensAfter d [.space] operand? ++ branchTokens d branches ++
      tokensAfter d [.space, .keyword .elseValue, .space] otherwise? ++ [.space, .keyword .endCase]
  | .cast e t =>
    .keyword .cast ::
      TokenStream.parens (e.tokens d ++ [.space, .keyword .asName, .space, .raw (d.castType t)])
  | .extract f e =>
    .keyword .extract ::
      TokenStream.parens ([.raw f, .space, .keyword .fromTable, .space] ++ e.tokens d)
  | .inList e vs negated =>
    if vs.isEmpty then [.keyword (if negated then .always else .never)]
    else
      e.tokens d ++ (if negated then [.space, .keyword .not] else []) ++
        [.space, .keyword .inValues, .space] ++
          TokenStream.parens (TokenStream.commas (tokensEach d vs))
  | .isNull e negated =>
    TokenStream.parensIf e.isBinary (e.tokens d) ++
      [.space, .keyword (if negated then .isNotNull else .isNull)]
  | .like e p c negated ignoreCase =>
    e.tokens d ++ (if negated then [.space, .keyword .not] else []) ++
      [.space, .keyword (if ignoreCase then .ilike else .like), .space] ++ p.tokens d ++
      [.space, .keyword .escape, .space, .literal (.string (String.ofList [c]))]
  | .paren e => TokenStream.parens (e.tokens d)
  | .window f ps os frame? =>
    f.tokens d ++ [.space, .keyword .overRows, .space] ++
      TokenStream.parens (windowParts (tokensEach d ps) (orderTokens d os) frame?)
  | .list es => TokenStream.commas (tokensEach d es)
  | .placeholder n => [.raw ("$\x7b" ++ n ++ "\x7d")]
  | .raw s => [.raw s]

def tokensEach (d : Dialect) : List Expr → List TokenStream
  | [] => []
  | e :: es => e.tokens d :: tokensEach d es

/-- An optional expression after a lead-in, nothing where there is none. -/
def tokensAfter (d : Dialect) (lead : TokenStream) : Option Expr → TokenStream
  | none => []
  | some e => lead ++ e.tokens d

def branchTokens (d : Dialect) : List (Expr × Expr) → TokenStream
  | [] => []
  | (w, t) :: bs =>
    [.space, .keyword .whenCase, .space] ++ w.tokens d ++
      [.space, .keyword .thenValue, .space] ++ t.tokens d ++ branchTokens d bs

def orderTokens (d : Dialect) : List (Ordered Expr) → List TokenStream
  | [] => []
  | ⟨e, direction?, nulls?⟩ :: os =>
    (e.tokens d ++ orderSuffix d direction? nulls?) :: orderTokens d os

end

def text (e : Expr) (d : Dialect) : String := TokenStream.text d (e.tokens d)

end Expr

end SemanticLayer.Sql
