import SemanticLayer.Number.Double

/-!
# Shortest decimals

The fewest decimal digits that read back as a given double.  All arithmetic is on natural
numbers: a finite positive double is a fraction, the numbers that round to it form an interval
around it, and for 1, 2, … digits the two neighbours of the value on that decimal grid are
tested.  The first grid with a hit wins; of two hits the nearer, and on a tie the even one.
-/

namespace SemanticLayer

/-- A positive decimal `digits · 10 ^ exp`. -/
structure Decimal where
  digits : Nat
  exp : Int
  deriving DecidableEq

namespace Decimal

/-- A positive fraction's decimal order: the `k` with `10 ^ k ≤ num / den < 10 ^ (k + 1)`. -/
def order (num den : Nat) : Int :=
  if den ≤ num then (Nat.toDigits 10 (num / den)).length - 1
  else
    let k := (Nat.toDigits 10 (den / num)).length - 1
    if den ≤ Nat.pow 10 k * num then -k else -(k + 1)

/-- The interval of numbers that round to a double, over one denominator. -/
structure Rounding where
  low : Nat
  value : Nat
  high : Nat
  den : Nat
  /-- Whether the ends of the interval round to the double too. -/
  closed : Bool

/-- Half a unit above the value, half a unit below; a quarter below a power of two. -/
def Rounding.of (x : Double) : Rounding :=
  let m := x.mantissa
  let narrow := m = Double.leadingBit ∧ 1 < x.exponentField
  let down := if narrow then 1 else 2
  let e := x.exponent
  let up := Nat.pow 2 e.toNat
  ⟨(4 * m - down) * up, 4 * m * up, (4 * m + 2) * up, 4 * Nat.pow 2 (-e).toNat, m % 2 = 0⟩

/-- Whether `digits · 10 ^ exp` lies in the interval. -/
def Rounding.holds (r : Rounding) (d : Decimal) : Bool :=
  let num := d.digits * Nat.pow 10 d.exp.toNat * r.den
  let scale := Nat.pow 10 (-d.exp).toNat
  if r.closed then r.low * scale ≤ num && num ≤ r.high * scale
  else r.low * scale < num && num < r.high * scale

/-- The decimal with its trailing zeros moved into the exponent; the fuel bounds their number. -/
def stripZeros (d : Decimal) : Nat → Decimal
  | 0 => d
  | n + 1 => if d.digits % 10 = 0 then stripZeros ⟨d.digits / 10, d.exp + 1⟩ n else d

/-- The best point on the grid `10 ^ exp` that reads back, if one does. -/
def Rounding.onGrid? (r : Rounding) (exp : Int) : Option Decimal :=
  let num := r.value * Nat.pow 10 (-exp).toNat
  let den := r.den * Nat.pow 10 exp.toNat
  let below : Decimal := ⟨num / den, exp⟩
  let above : Decimal := ⟨num / den + 1, exp⟩
  let remainder := num % den
  match r.holds below && below.digits != 0, r.holds above with
  | true, true =>
    if 2 * remainder < den then some below
    else if den < 2 * remainder then some above
    else if below.digits % 2 = 0 then some below else some above
  | true, false => some below
  | false, true => some above
  | false, false => none

/-- The shortest decimal of a finite double's magnitude, zero as no digits at all.  Seventeen
digits always read back. -/
def shortest (x : Double) : Decimal :=
  if x.mantissa = 0 then ⟨0, 0⟩
  else
    let r := Rounding.of x
    let k := order r.value r.den
    match (List.range 17).findSome? fun (n : Nat) => r.onGrid? (k - n) with
    | some d => d.stripZeros 20
    | none => ⟨0, 0⟩

end Decimal

end SemanticLayer
