import SemanticLayer.Slug
import SemanticLayer.Sql.Dialect

/-!
# Output aliases

The columns of a final query are named by their slugs in the form the dialect accepts.  Slugs
that get the same form are told apart by numbers.
-/

namespace SemanticLayer.Sql.OutputAlias

/-- The candidates for an alias: the base, then the base with numbers from one on. -/
def candidate (base : String) : Nat → String
  | 0 => base
  | n + 1 => base ++ "_" ++ toString (n + 1)

/-- The first candidate that is not used.  One more candidate than there are used names is
enough, as the candidates all differ. -/
def fresh (used : NameSet) (base : String) : String :=
  (((List.range (used.size + 1)).map (candidate base)).find? fun a => !used.contains a).getD base

/-- Each slug with its alias, given the aliases used before. -/
def assign (d : Dialect) (used : NameSet) : List String → List (String × String)
  | [] => []
  | slug :: slugs =>
    let name := fresh used (d.outputAlias slug)
    (slug, name) :: assign d (used.insert name) slugs

def all (d : Dialect) (slugs : List String) : List (String × String) := assign d .empty slugs

end SemanticLayer.Sql.OutputAlias
