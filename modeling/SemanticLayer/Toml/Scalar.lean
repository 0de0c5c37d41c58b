import SemanticLayer.Text.CharClass
import SemanticLayer.Toml.Value

/-!
# Numbers, dates and truth values of TOML

Underscores may stand between two digits of a number.  Whole numbers have 64 bits with sign.
-/

namespace SemanticLayer.Toml

/-- The digits of a number without the underscores between them. -/
def digits? (base : Nat) : List Char → Option (List Char)
  | [] => none
  | [c] => (Text.digitValue? base c).map fun _ => [c]
  | c :: d :: cs => do
    let _ ← Text.digitValue? base c
    let rest ← if d = '_' then digits? base cs else digits? base (d :: cs)
    return c :: rest

/-- Decimal digits that do not start with a zero, but for the zero itself. -/
def wholeDigits? (cs : List Char) : Option (List Char) :=
  (digits? 10 cs).filter fun ds => ds.length = 1 || ds.head? != some '0'

def signed (negative : Bool) (n : Nat) : Int := if negative then -n else n

def ofInt? (n : Int) : Option Toml :=
  if Int64.minValue.toInt ≤ n ∧ n ≤ Int64.maxValue.toInt then some (.integer (Int64.ofInt n))
  else none

def integer? (cs : List Char) : Option Toml :=
  let inBase (base : Nat) (cs : List Char) : Option Toml := do
    ofInt? (← Text.numberOf? base (← digits? base cs))
  match cs with
  | '0' :: 'x' :: cs => inBase 16 cs
  | '0' :: 'o' :: cs => inBase 8 cs
  | '0' :: 'b' :: cs => inBase 2 cs
  | cs => do
    let (negative, cs) := Double.readSign cs
    ofInt? (signed negative (← Text.numberOf? 10 (← wholeDigits? cs)))

def isExponentMark (c : Char) : Bool := c == 'e' || c == 'E'

/-- The digits of an exponent with its sign, zero where there is none. -/
def exponentDigits? : List Char → Option (List Char)
  | [] => some ['0']
  | _ :: '-' :: cs => (digits? 10 cs).map ('-' :: ·)
  | _ :: '+' :: cs => digits? 10 cs
  | _ :: cs => digits? 10 cs

/-- The digits after a point; none are written where there is no point. -/
def fractionDigits? : List Char → Option (List Char)
  | '.' :: cs => digits? 10 cs
  | [] => some []
  | _ => none

/-- A number with a point, an exponent or both, or one that is not finite by name. -/
def float? (cs : List Char) : Option Toml :=
  let (negative, cs) := Double.readSign cs
  match String.ofList cs with
  | "inf" => some (.float (Double.infinity.withSign negative))
  | "nan" => some (.float (Double.notANumber.withSign negative))
  | _ => do
    if !cs.any fun c => c = '.' || isExponentMark c then none
    let mantissa := cs.takeWhile fun c => !isExponentMark c
    let whole ← wholeDigits? (mantissa.takeWhile (· != '.'))
    let fraction ← fractionDigits? (mantissa.dropWhile (· != '.'))
    let exponent ← exponentDigits? (cs.dropWhile fun c => !isExponentMark c)
    let x ← Double.parse? (String.ofList (whole ++ '.' :: fraction ++ 'e' :: exponent))
    if x.isFinite then some (.float (x.withSign negative)) else none

/-! ### Dates and times -/

/-- Reads a number of so many digits within bounds. -/
def readNumber? (count first last : Nat) (cs : List Char) : Option (Nat × List Char) :=
  if count ≤ cs.length then
    ((Text.numberOf? 10 (cs.take count)).filter fun n => first ≤ n && n ≤ last).map (·, cs.drop count)
  else none

/-- Reads a certain character. -/
def readChar? (c : Char) : List Char → Option (List Char)
  | d :: cs => if d = c then some cs else none
  | [] => none

def isLeapYear (y : Nat) : Bool := (y % 4 = 0 && y % 100 ≠ 0) || y % 400 = 0

def daysOfMonth (year month : Nat) : Nat :=
  if month = 2 then (if isLeapYear year then 29 else 28)
  else if month ∈ [4, 6, 9, 11] then 30
  else 31

/-- Reads a date; gives what is left. -/
def readDate? (cs : List Char) : Option (List Char) := do
  let (year, cs) ← readNumber? 4 0 9999 cs
  let (month, cs) ← readNumber? 2 1 12 (← readChar? '-' cs)
  return (← readNumber? 2 1 (daysOfMonth year month) (← readChar? '-' cs)).2

/-- Reads a time of the day; gives what is left. -/
def readTime? (cs : List Char) : Option (List Char) := do
  let (_, cs) ← readNumber? 2 0 23 cs
  let (_, cs) ← readNumber? 2 0 59 (← readChar? ':' cs)
  let (_, cs) ← readNumber? 2 0 60 (← readChar? ':' cs)
  match cs with
  | '.' :: c :: rest => if c.isDigit then some (rest.dropWhile Char.isDigit) else none
  | cs => some cs

/-- The distance of a time zone from the zero meridian's. -/
def isOffset : List Char → Bool
  | ['Z'] => true
  | ['z'] => true
  | sign :: cs =>
    (sign = '+' || sign = '-') &&
      ((do
        let (_, cs) ← readNumber? 2 0 23 cs
        readNumber? 2 0 59 (← readChar? ':' cs)) : Option (Nat × List Char)).any (·.2.isEmpty)
  | [] => false

def isDate (cs : List Char) : Bool := (readDate? cs).any List.isEmpty

def isDatetime (cs : List Char) : Bool :=
  match readDate? cs with
  | none => (readTime? cs).any List.isEmpty
  | some [] => true
  | some (delimiter :: cs) =>
    (delimiter = 'T' || delimiter = 't' || delimiter = ' ') &&
      (readTime? cs).any fun rest => rest.isEmpty || isOffset rest

/-- The value of a text without quotes. -/
def scalar? (cs : List Char) : Option Toml :=
  match String.ofList cs with
  | "true" => some (.bool true)
  | "false" => some (.bool false)
  | s => (integer? cs).or ((float? cs).or (if isDatetime cs then some (.datetime s) else none))

end SemanticLayer.Toml
