import SemanticLayer.Formula.Typing

/-!
# Simplification

Constants are folded, missing operands of sums are left out, conversions that change nothing
disappear, and the others become conditions.  A running total of a ratio becomes the ratio of the
running totals.

Splitting ratios simplifies what is simplified already once more, so it is bounded; `simplify?`
gives nothing where the bound is met.
-/

namespace SemanticLayer.Formula

namespace Node

/-- What is done to each part after its own simplification. -/
abbrev Step := Node → Option Node

/-- The step that splits ratios within a running total over a time, after another step. -/
abbrev Splitter := Step → Node → Step

/-- Whether the node is a ratio of two varying values. -/
def isVaryingRatio (ctx : Context) : Node → Bool
  | .binary .div l r _ => !(l.type ctx).isConstant && !(r.type ctx).isConstant
  | _ => false

mutual

/-- Whether a ratio of two varying values stands anywhere in the node. -/
def hasVaryingRatio (ctx : Context) : Node → Bool
  | .integer .. => false
  | .decimal .. => false
  | .text .. => false
  | .bool .. => false
  | .column .. => false
  | .taxon .. => false
  | .attribute .. => false
  | .computed _ n _ => n.hasVaryingRatio ctx
  | .paren n _ => n.hasVaryingRatio ctx
  | .binary op l r place =>
    isVaryingRatio ctx (.binary op l r place) || l.hasVaryingRatio ctx || r.hasVaryingRatio ctx
  | .not n _ => n.hasVaryingRatio ctx
  | .isNull n _ _ => n.hasVaryingRatio ctx
  | .call _ args _ _ => anyHasVaryingRatio ctx args
  | .transition _ n _ _ _ => n.hasVaryingRatio ctx
  | .root n _ => n.hasVaryingRatio ctx

def anyHasVaryingRatio (ctx : Context) : List Node → Bool
  | [] => false
  | n :: ns => n.hasVaryingRatio ctx || anyHasVaryingRatio ctx ns

end

mutual

/-- The number of nodes. -/
def size : Node → Nat
  | .integer .. => 1
  | .decimal .. => 1
  | .text .. => 1
  | .bool .. => 1
  | .column .. => 1
  | .taxon .. => 1
  | .attribute .. => 1
  | .computed _ n _ => n.size + 1
  | .paren n _ => n.size + 1
  | .binary _ l r _ => l.size + r.size + 1
  | .not n _ => n.size + 1
  | .isNull n _ _ => n.size + 1
  | .call _ args _ _ => sizeAll args + 1
  | .transition _ n _ _ _ => n.size + 1
  | .root n _ => n.size + 1

def sizeAll : List Node → Nat
  | [] => 0
  | n :: ns => n.size + sizeAll ns

end

/-- The test whether a node equals a constant, given the node as it is and simplified. -/
def simplifiedTest (step : Step) (n simplified : Node) (c : Constant) : Option Node :=
  match n.constant?.bind fun d => Constant.operate? .eq d c with
  | some folded => some (folded.toNode n.place)
  | none => do return .binary .eq (← step simplified) (← step (c.toNode n.place)) n.place

/-- The choice between two constants, after the step. -/
def simplifiedChoice (step : Step) (test : Node) (yes no : Constant) (constants place : Location) :
    Option Node := do
  step (.call .iff
    [← step test, ← step (yes.toNode constants), ← step (no.toNode constants)] false place)

/-- The test whether a node is false: zero, or the text. -/
def testOfFalse (ctx : Context) (step : Step) (n simplified : Node) : Option Node := do
  if (n.type ctx).isNumber then simplifiedTest step n simplified (.int 0)
  else
    simplifiedTest step (.call .lower [n] false n.place)
      (.call .lower [← step simplified] false n.place) (.text "false")

/-- An operand that stands for a sum or difference whose other side is missing. -/
inductive Remaining where
  | both
  | left
  | right

def remaining (ctx : Context) (op : Operator) (l r : Node) : Remaining :=
  match op, l.isMissing ctx, r.isMissing ctx with
  | .add, true, _ => .right
  | .add, false, true => .left
  | .sub, false, true => .left
  | _, _, _ => .both

mutual

/-- Simplifies a node, with a step on each part and a splitter for running totals. -/
def simplifyWith (ctx : Context) (split : Splitter) (step : Step) : Node → Option Node
  | .integer n p => some (.integer n p)
  | .decimal x p => some (.decimal x p)
  | .text s p => some (.text s p)
  | .bool b p => some (.bool b p)
  | .column s p => some (.column s p)
  | .transition t n a l p => some (.transition t n a l p)
  | .taxon u p => some (.taxon u p)
  | .attribute u e p => some (.attribute u e p)
  | .computed u n p => do return .computed u (← step (← simplifyWith ctx split step n)) p
  | .paren n p => do return .paren (← step (← simplifyWith ctx split step n)) p
  | .not n p => do return .not (← step (← simplifyWith ctx split step n)) p
  | .isNull n negated p => do return .isNull (← step (← simplifyWith ctx split step n)) negated p
  | .root n p => do return .root (← step (← simplifyWith ctx split step n)) p
  | .binary op l r p =>
    match remaining ctx op l r with
    | .right => simplifyWith ctx split step r
    | .left => simplifyWith ctx split step l
    | .both =>
      match (Node.binary op l r p).constant? with
      | some c => some (c.toNode p)
      | none => do
        return .binary op (← step (← simplifyWith ctx split step l))
          (← step (← simplifyWith ctx split step r)) p
  | .call f [] single p => some (.call f [] single p)
  | .call f (first :: rest) single p =>
    let type := first.type ctx
    let whole : Option Node := do
      return .call f
        ((← step (← simplifyWith ctx split step first)) :: (← simplifyEach ctx split step rest))
        single p
    match f with
    | .coalesce => if rest.isEmpty then simplifyWith ctx split step first else whole
    | .merge => if single then simplifyWith ctx split step first else whole
    | .toText => if type.isString then simplifyWith ctx split step first else whole
    | .toDate => if type.isDatetime then simplifyWith ctx split step first else whole
    | .toBool =>
      if type.isBoolean then simplifyWith ctx split step first
      else if type.data = .unknown then whole
      else do
        let test ← testOfFalse ctx step first (← simplifyWith ctx split step first)
        return .call f [← simplifiedChoice step test (.bool false) (.bool true) first.place p]
          single p
    | .toNumber =>
      if type.isNumber && rest.isEmpty then simplifyWith ctx split step first
      else do
        let simplified ← simplifyWith ctx split step first
        let value ←
          if type.isBoolean then do
            let test ← simplifiedTest step first simplified (.bool true)
            simplifiedChoice step test (.int 1) (.int 0) first.place p
          else step simplified
        match rest with
        | [] => return .call f [value] single p
        | precision :: _ =>
          return .call f [value, ← step (← simplifyWith ctx split step precision)] single p
    | .cumulative =>
      match rest with
      | [] => whole
      | time :: _ =>
        if first.hasVaryingRatio ctx then do
          let splitting := split step (← simplifyWith ctx split step time)
          splitting (← simplifyWith ctx split splitting first)
        else whole
    | _ => whole

def simplifyEach (ctx : Context) (split : Splitter) (step : Step) : List Node → Option (List Node)
  | [] => some []
  | n :: ns => do
    return (← step (← simplifyWith ctx split step n)) :: (← simplifyEach ctx split step ns)

end

/-- Splits a ratio of varying values into the ratio of their running totals.  The sides are
simplified with the same step, at most so many levels deep. -/
def splitRatio (ctx : Context) : Nat → Splitter
  | 0, _, _, _ => none
  | depth + 1, step, time, n => do
    let n ← step n
    if n.isVaryingRatio ctx then
      match n with
      | .binary op l r p =>
        let total (side : Node) : Option Node := do
          let side ← simplifyWith ctx (splitRatio ctx depth) (splitRatio ctx depth step time) side
          return .call .cumulative [side, time] false side.place
        return .binary op (← total l) (← total r) p
      | _ => return n
    else return n

/-- Simplifies a node with ratios split at most so many levels deep. -/
def simplify? (ctx : Context) (depth : Nat) (n : Node) : Option Node :=
  simplifyWith ctx (splitRatio ctx depth) some n

/-- Simplifies a node; one whose simplification meets the bound stays as it is. -/
def simplify (ctx : Context) (n : Node) : Node := (n.simplify? ctx ((n.size + 2) * (n.size + 2))).getD n

end Node

end SemanticLayer.Formula
