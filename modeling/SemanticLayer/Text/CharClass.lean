/-!
# Classes of characters

Sets of characters as ranges of code points, the white space of Unicode, texts without it at their
ends, and ASCII digits with the numbers that rows of them stand for.
-/

namespace SemanticLayer.Text

/-- Inclusive ranges of code points. -/
abbrev CharRanges := List (Nat × Nat)

def CharRanges.contains (rs : CharRanges) (c : Char) : Bool :=
  rs.any fun r => r.1 ≤ c.toNat && c.toNat ≤ r.2

end SemanticLayer.Text

namespace SemanticLayer.Text

/-- Code points with the property White_Space. -/
def blankRanges : CharRanges :=
  [(9, 0xd), (0x20, 0x20), (0x85, 0x85), (0xa0, 0xa0), (0x1680, 0x1680), (0x2000, 0x200a),
   (0x2028, 0x2029), (0x202f, 0x202f), (0x205f, 0x205f), (0x3000, 0x3000)]

def isBlank (c : Char) : Bool := blankRanges.contains c

/-- The characters without those at either end that satisfy `p`. -/
def trimList (p : Char → Bool) (cs : List Char) : List Char :=
  ((cs.dropWhile p).reverse.dropWhile p).reverse

/-- The text without white space at either end. -/
def trim (s : String) : String := String.ofList (trimList isBlank s.toList)

end SemanticLayer.Text

namespace SemanticLayer.Text

/-- The value of a hexadecimal digit in either case. -/
def hexValue? (c : Char) : Option Nat :=
  if c.isDigit then some (c.toNat - 48)
  else if 'a' ≤ c ∧ c ≤ 'f' then some (c.toNat - 87)
  else if 'A' ≤ c ∧ c ≤ 'F' then some (c.toNat - 55)
  else none

/-- The value of a digit below the base. -/
def digitValue? (base : Nat) (c : Char) : Option Nat :=
  (hexValue? c).filter (· < base)

/-- The number that a row of digits stands for; none where a character is no digit. -/
def numberOf? (base : Nat) (cs : List Char) : Option Nat :=
  cs.foldlM (fun n c => (digitValue? base c).map (n * base + ·)) 0

end SemanticLayer.Text
