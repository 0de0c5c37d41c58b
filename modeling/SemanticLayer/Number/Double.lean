/-!
# Binary64 numbers

A `Double` is its 64 bits, so equality of values is equality of bits and every number, the
not-a-numbers included, is an ordinary value.  A finite double is `mantissa · 2 ^ exponent`;
decimal texts are turned into the nearest double by exact integer arithmetic, a tie going to the
even mantissa.
-/

namespace SemanticLayer

structure Double where
  bits : UInt64
  deriving DecidableEq, Inhabited

namespace Double

def ofFloat (x : Float) : Double := ⟨x.toBits⟩

def toFloat (x : Double) : Float := Float.ofBits x.bits

def ofInt (n : Int) : Double := ofFloat (Float.ofInt n)

def add (x y : Double) : Double := ofFloat (x.toFloat + y.toFloat)

def sub (x y : Double) : Double := ofFloat (x.toFloat - y.toFloat)

def mul (x y : Double) : Double := ofFloat (x.toFloat * y.toFloat)

def div (x y : Double) : Double := ofFloat (x.toFloat / y.toFloat)

/-- Flips the sign bit. -/
def neg (x : Double) : Double := ⟨x.bits ^^^ 0x8000000000000000⟩

def isNegative (x : Double) : Bool := x.bits >>> 63 == 1

/-- The eleven exponent bits. -/
def exponentField (x : Double) : Nat := ((x.bits >>> 52) &&& 0x7ff).toNat

/-- The 52 bits after the leading one. -/
def fractionField (x : Double) : Nat := (x.bits &&& 0xfffffffffffff).toNat

def isFinite (x : Double) : Bool := x.exponentField != 0x7ff

def isNaN (x : Double) : Bool := x.exponentField == 0x7ff && x.fractionField != 0

def isZero (x : Double) : Bool := x.exponentField == 0 && x.fractionField == 0

/-- Numeric equality: the two zeros are equal, a not-a-number equals nothing. -/
def numEq (x y : Double) : Bool := !x.isNaN && !y.isNaN && (x.bits == y.bits || x.isZero && y.isZero)

/-- The bits without the sign. -/
def magnitude (x : Double) : Nat := (x.bits &&& 0x7fffffffffffffff).toNat

/-- The magnitude with the sign: numbers are in the order of these integers. -/
def orderKey (x : Double) : Int := if x.isNegative then -(x.magnitude : Int) else x.magnitude

/-- The order of two numbers; a not-a-number has no place in it. -/
def compare? (x y : Double) : Option Ordering :=
  if x.isNaN || y.isNaN then none else some (compare x.orderKey y.orderKey)

/-- Whether nothing but zero is left without the digits after the point. -/
def truncatesToZero (x : Double) : Bool := x.magnitude < 0x3ff0000000000000

/-- The leading bit of a mantissa, which is not stored. -/
def leadingBit : Nat := 0x10000000000000

/-- The integer mantissa of a finite double's magnitude. -/
def mantissa (x : Double) : Nat :=
  if x.exponentField = 0 then x.fractionField else x.fractionField + leadingBit

/-- The power of two by which the mantissa is scaled. -/
def exponent (x : Double) : Int := (max x.exponentField 1 : Nat) - 1075

def infinity : Double := ⟨0x7ff0000000000000⟩

def notANumber : Double := ⟨0x7ff8000000000000⟩

def zero : Double := ⟨0⟩

def withSign (negative : Bool) (x : Double) : Double := if negative then x.neg else x

/-- `num / den` rounded to the nearest integer, a half going to the even neighbour. -/
def roundHalfEven (num den : Nat) : Nat :=
  let q := num / den
  let r := num % den
  if 2 * r < den then q
  else if den < 2 * r then q + 1
  else if q % 2 = 0 then q else q + 1

/-- A positive fraction's binary order of magnitude: the `k` with `2 ^ k ≤ num / den < 2 ^ (k + 1)`. -/
def binaryOrder (num den : Nat) : Int :=
  let k : Int := (Nat.log2 num : Int) - Nat.log2 den
  let below := if 0 ≤ k then num < den * Nat.pow 2 k.toNat else num * Nat.pow 2 (-k).toNat < den
  if below then k - 1 else k

/-- The double nearest to a positive fraction. -/
def ofFraction (num den : Nat) : Double :=
  let e : Int := max (binaryOrder num den - 52) (-1074)
  let m := if 0 ≤ e then roundHalfEven num (den * Nat.pow 2 e.toNat)
    else roundHalfEven (num * Nat.pow 2 (-e).toNat) den
  let bits := if m < leadingBit then m else (e + 1075).toNat * leadingBit + (m - leadingBit)
  if bits < 0x7ff0000000000000 then ⟨UInt64.ofNat bits⟩ else infinity

/-- The double nearest to `digits · 10 ^ exp`. -/
def ofDecimal (digits : Nat) (exp : Int) : Double :=
  if digits = 0 then zero
  else
    let places : Int := (Nat.toDigits 10 digits).length
    if places + exp > 310 then infinity
    else if places + exp < -330 then zero
    else if 0 ≤ exp then ofFraction (digits * Nat.pow 10 exp.toNat) 1
    else ofFraction digits (Nat.pow 10 (-exp).toNat)

/-- Reads decimal digits onto an accumulated number and a count of digits. -/
def readDigits (acc count : Nat) : List Char → Nat × Nat × List Char
  | [] => (acc, count, [])
  | c :: cs =>
    if c.isDigit then readDigits (acc * 10 + (c.toNat - 48)) (count + 1) cs
    else (acc, count, c :: cs)

/-- Splits a leading sign off; true stands for a minus. -/
def readSign : List Char → Bool × List Char
  | '-' :: cs => (true, cs)
  | '+' :: cs => (false, cs)
  | cs => (false, cs)

/-- An exponent part up to the end of the text; no exponent part is zero. -/
def readExponent? : List Char → Option Int
  | [] => some 0
  | c :: cs =>
    if c = 'e' || c = 'E' then
      let (negative, cs) := readSign cs
      match readDigits 0 0 cs with
      | (n, count, []) => if count = 0 then none else some (if negative then -n else n)
      | _ => none
    else none

/-- Reads an unsigned decimal: digits around an optional point, at least one, and an optional
exponent. -/
def parseDecimal? (cs : List Char) : Option Double :=
  let (whole, wholeCount, rest) := readDigits 0 0 cs
  let (digits, fractionCount, rest) :=
    match rest with
    | '.' :: rest => readDigits whole 0 rest
    | _ => (whole, 0, rest)
  if wholeCount + fractionCount = 0 then none
  else (readExponent? rest).map fun e => ofDecimal digits (e - fractionCount)

/-- Reads a decimal, an infinity or a not-a-number, in any letter case and with an optional sign. -/
def parse? (s : String) : Option Double :=
  let (negative, cs) := readSign s.toList
  let magnitude? :=
    match String.ofList (cs.map Char.toLower) with
    | "inf" => some infinity
    | "infinity" => some infinity
    | "nan" => some notANumber
    | _ => parseDecimal? cs
  magnitude?.map (withSign negative)

end Double

end SemanticLayer
