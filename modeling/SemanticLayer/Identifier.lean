import SemanticLayer.Digest
import SemanticLayer.Text.Alphabetic

/-!
# Safe identifiers

Column and table names that need no quotes.  A name that is safe already stays; any other is
reduced to lower-case letters, digits and underscores and gets a digest of the whole name, so
that names which reduce to the same text stay apart.
-/

namespace SemanticLayer.Identifier

/-- The longest name a database takes. -/
def maxLength : Nat := 63

/-- The hex digits of the digest that are kept. -/
def digestLength : Nat := 18

def isWordChar (c : Char) : Bool := c.isAlphanum || c == '_'

def startsSafely (c : Char) : Bool := Text.isAlphabetic c || c == '_'

/-- A name that starts with a letter or an underscore. -/
def withSafeStart : List Char → List Char
  | [] => []
  | c :: cs => if startsSafely c then c :: cs else '_' :: c :: cs

/-- Lower-case letters, digits and underscores; every other character is an underscore. -/
def reduced (cs : List Char) : List Char :=
  cs.map fun c => if isWordChar c then c.toLower else '_'

/-- The safe form of a name under a digest of texts. -/
def safeWith (digest : String → List Char) (name : String) : String :=
  let started := withSafeStart name.toList
  let plain := reduced started
  if plain = name.toList then name
  else
    String.ofList (plain.take (maxLength - digestLength - 1) ++
      '_' :: (digest (String.ofList started)).take digestLength)

/-- The safe form of a name. -/
def safe (name : String) : String := safeWith Digest.sha256Hex name

end SemanticLayer.Identifier
