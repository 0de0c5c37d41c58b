import SemanticLayer.Formula.Tree
import SemanticLayer.Number.Layout

/-!
# Constants of formulas

The values that are known before any row is read, and the operations on them.  An operation on
integers gives an integer where it fits in 64 bits, and a division always gives a double.
-/

namespace SemanticLayer.Formula

inductive Constant where
  | int (n : Int64)
  | float (x : Double)
  | text (s : String)
  | bool (b : Bool)
  deriving DecidableEq

namespace Constant

def text? : Constant → Option String
  | .text s => some s
  | _ => none

def bool? : Constant → Option Bool
  | .bool b => some b
  | _ => none

/-- An integer, or a truth value as one or zero. -/
def int? : Constant → Option Int64
  | .int n => some n
  | .bool b => some (if b then 1 else 0)
  | _ => none

def number? : Constant → Option Double
  | .float x => some x
  | c => c.int?.map fun n => Double.ofInt n.toInt

/-- Whether a constant counts as true: all but zero, the empty text and false. -/
def holds : Constant → Bool
  | .int n => n ≠ 0
  | .float x => !x.isZero
  | .text s => !s.isEmpty
  | .bool b => b

/-- The order of two texts or of two numbers. -/
def compare? : Constant → Constant → Option Ordering
  | .text s, .text t => some (compare s t)
  | .text _, _ => none
  | _, .text _ => none
  | c, d => do (← c.number?).compare? (← d.number?)

def equals (c d : Constant) : Bool := c.compare? d = some .eq

/-- An integer that fits in 64 bits. -/
def fitting? (n : Int) : Option Int64 :=
  if Int64.minValue.toInt ≤ n ∧ n ≤ Int64.maxValue.toInt then some (Int64.ofInt n) else none

def onIntegers? (op : Operator) (m n : Int64) : Option Int64 :=
  match op with
  | .add => fitting? (m.toInt + n.toInt)
  | .sub => fitting? (m.toInt - n.toInt)
  | .mul => fitting? (m.toInt * n.toInt)
  | _ => none

def onDoubles? (op : Operator) (x y : Double) : Option Double :=
  match op with
  | .add => some (x.add y)
  | .sub => some (x.sub y)
  | .mul => some (x.mul y)
  | .div => if y.truncatesToZero then none else some (x.div y)
  | _ => none

def arithmetic? (op : Operator) (c d : Constant) : Option Constant :=
  let integer? := do onIntegers? op (← c.int?) (← d.int?)
  match integer? with
  | some n => some (.int n)
  | none => do return .float (← onDoubles? op (← c.number?) (← d.number?))

/-- Conjunction and disjunction give one of the two constants. -/
def logical? (op : Operator) (c d : Constant) : Option Constant :=
  match op with
  | .and => some (if c.holds then d else c)
  | .or => some (if c.holds then c else d)
  | .eq => some (.bool (c.equals d))
  | .ne => some (.bool !(c.equals d))
  | .gt => (c.compare? d).map fun o => .bool o.isGT
  | .ge => (c.compare? d).map fun o => .bool o.isGE
  | .lt => (c.compare? d).map fun o => .bool o.isLT
  | .le => (c.compare? d).map fun o => .bool o.isLE
  | _ => none

/-- The value of an operation on two constants, if it has one. -/
def operate? (op : Operator) (c d : Constant) : Option Constant :=
  if op.isNumeric then arithmetic? op c d else logical? op c d

/-- The constant as it stands in messages and keys. -/
def description : Constant → String
  | .int n => toString n.toInt
  | .float x => Layout.formula.write x
  | .text s => s
  | .bool b => if b then "True" else "False"

end Constant

end SemanticLayer.Formula
