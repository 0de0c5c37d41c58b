import SemanticLayer.Number.Shortest

/-!
# Texts of doubles

A finite double is written with its shortest digits.  Numbers below `10 ^ 16` that are not too
small are positional and always show a digit after the point; all others have one digit before
the point and an exponent.
-/

namespace SemanticLayer

/-- How small a number may get before it is written with an exponent. -/
structure Layout where
  /-- The least place of the decimal point, counted from the first digit, that is written out. -/
  leastPlace : Int

namespace Layout

/-- Floats in SQL text: positional from `0.00001` on. -/
def sql : Layout := ⟨-4⟩

/-- Floats in formula text: positional from `0.0001` on. -/
def formula : Layout := ⟨-3⟩

/-- The text of `digits · 10 ^ exp`. -/
def decimal (l : Layout) (d : Decimal) : List Char :=
  let digits := Nat.toDigits 10 d.digits
  let place : Int := digits.length + d.exp
  if 0 ≤ d.exp && place ≤ 16 then digits ++ List.replicate d.exp.toNat '0' ++ ['.', '0']
  else if 0 < place && place ≤ 16 then
    digits.take place.toNat ++ '.' :: digits.drop place.toNat
  else if l.leastPlace ≤ place && place ≤ 0 then
    '0' :: '.' :: List.replicate (-place).toNat '0' ++ digits
  else
    let fraction := digits.drop 1
    digits.take 1 ++ (if fraction.isEmpty then [] else '.' :: fraction) ++
      'e' :: (toString (place - 1)).toList

/-- The text of a double; the two infinities and the not-a-number have names. -/
def write (l : Layout) (x : Double) : String :=
  if x.isNaN then "NaN"
  else
    let magnitude := if x.isFinite then l.decimal (Decimal.shortest x) else "inf".toList
    String.ofList (if x.isNegative then '-' :: magnitude else magnitude)

end Layout

end SemanticLayer
