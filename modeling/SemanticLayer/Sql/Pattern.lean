/-!
# Patterns of LIKE

A percent sign matches any text and an underscore any character, unless the escape character
stands before it.
-/

namespace SemanticLayer.Sql.Pattern

def escapeChar : Char := '/'

/-- A text as a pattern in which percent signs and underscores stand for themselves. -/
def escape (s : String) : String :=
  String.ofList (s.toList.flatMap fun c => if c = '%' ∨ c = '_' then [escapeChar, c] else [c])

/-- The pattern of texts that contain `s`. -/
def containing (s : String) : String := "%" ++ escape s ++ "%"

end SemanticLayer.Sql.Pattern
