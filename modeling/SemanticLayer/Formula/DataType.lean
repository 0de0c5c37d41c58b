import SemanticLayer.Taxonomy.Kind

/-!
# Types of formulas

`ValueType.common` is the type of values that stand in one place, such as the outcomes of a
condition; values whose types do not mix have no known type.
-/

namespace SemanticLayer.Formula

inductive DataType where
  | unknown
  /-- The type of an optional taxon that is out of scope; it goes with everything. -/
  | noneOptional
  /-- Goes with every type. -/
  | any
  | string
  | integer
  | numeric
  | datetime
  | boolean
  deriving DecidableEq, Repr, Inhabited

namespace DataType

def all : List DataType :=
  [.unknown, .noneOptional, .any, .string, .integer, .numeric, .datetime, .boolean]

def name : DataType → String
  | .unknown => "unknown"
  | .noneOptional => "none_optional"
  | .any => "any"
  | .string => "string"
  | .integer => "integer"
  | .numeric => "numeric"
  | .datetime => "datetime"
  | .boolean => "boolean"

def ofValidation : ValidationType → DataType
  | .text => .string
  | .enum => .string
  | .url => .string
  | .variant => .string
  | .integer => .integer
  | .numeric => .numeric
  | .percent => .numeric
  | .money => .numeric
  | .duration => .numeric
  | .datetime => .datetime
  | .boolean => .boolean

/-- Whether the type goes with every other. -/
def isFree (t : DataType) : Bool := t = .any || t = .noneOptional

end DataType

/-- A data type, and whether the value is a constant. -/
structure ValueType where
  data : DataType
  isConstant : Bool
  deriving DecidableEq, Inhabited

namespace ValueType

def constant (d : DataType) : ValueType := ⟨d, true⟩

def varying (d : DataType) : ValueType := ⟨d, false⟩

def isString (t : ValueType) : Bool := t.data.isFree || t.data = .string

def isInteger (t : ValueType) : Bool := t.data.isFree || t.data = .integer

def isNumber (t : ValueType) : Bool := t.data.isFree || t.data = .integer || t.data = .numeric

def isDatetime (t : ValueType) : Bool := t.data.isFree || t.data = .datetime

def isBoolean (t : ValueType) : Bool := t.data.isFree || t.data = .boolean

def withData (t : ValueType) (d : DataType) : ValueType := { t with data := d }

/-- The data type of values that share a place; types that go with everything do not count. -/
def commonData (ts : List ValueType) : DataType :=
  match ts.filter fun t => !t.data.isFree with
  | [] => .any
  | t :: known =>
    if known.all fun u => u.data = t.data then t.data
    else if (t :: known).all isNumber then .numeric
    else .unknown

/-- The type of values that share a place; it is constant if they all are. -/
def common (ts : List ValueType) : ValueType :=
  if ts.isEmpty then varying .unknown else ⟨commonData ts, ts.all (·.isConstant)⟩

def areCompatible (ts : List ValueType) : Bool := (common ts).data ≠ .unknown

end ValueType

/-- What the type of an argument must satisfy. -/
inductive TypeCheck where
  | any
  | string
  | number
  | integer
  | datetime
  | boolean
  | numberOrStringOrBoolean
  | numberOrStringOrDate
  deriving DecidableEq

namespace TypeCheck

def accepts (c : TypeCheck) (t : ValueType) : Bool :=
  match c with
  | .any => true
  | .string => t.isString
  | .number => t.isNumber
  | .integer => t.isInteger
  | .datetime => t.isDatetime
  | .boolean => t.isBoolean
  | .numberOrStringOrBoolean => t.isNumber || t.isString || t.isBoolean
  | .numberOrStringOrDate => t.isNumber || t.isString || t.isDatetime

def description : TypeCheck → String
  | .any => "any"
  | .string => "string"
  | .number => "number"
  | .integer => "integer"
  | .datetime => "datetime"
  | .boolean => "boolean"
  | .numberOrStringOrBoolean => "number or string or boolean"
  | .numberOrStringOrDate => "number or string or datetime"

end TypeCheck

end SemanticLayer.Formula
