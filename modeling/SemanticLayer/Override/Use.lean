import SemanticLayer.Collections.SortedMap
import SemanticLayer.Slug
import SemanticLayer.Sql.Expr

/-!
# Uses of override mappings

A formula that replaces the values of a column names the mapping and says whether values without
a replacement stay.  Equal uses share one join.
-/

namespace SemanticLayer

structure OverrideKey where
  /-- The text of the column whose values are replaced. -/
  column : String
  mapping : String
  /-- Whether rows without a replacement stay. -/
  keepsMissing : Bool
  deriving DecidableEq

namespace OverrideKey

def order : OverrideKey → OverrideKey → Ordering :=
  compareLex (compareOn column) (compareLex (compareOn mapping) (compareOn keepsMissing))

instance : Ord OverrideKey := ⟨order⟩

instance : Std.TransOrd OverrideKey := inferInstanceAs (Std.TransCmp (compareLex _ _))

instance : Std.LawfulEqOrd OverrideKey where
  compare_self {a} := by
    change order a a = .eq
    simp [order, compareLex, compareOn, Std.ReflCmp.compare_self]
  eq_of_compare {a b} h := by
    have h : order a b = .eq := h
    simp only [order, compareLex, Ordering.then_eq_eq, compareOn] at h
    obtain ⟨h₁, h₂, h₃⟩ := h
    cases a
    cases b
    cases Std.LawfulEqCmp.eq_of_compare h₁
    cases Std.LawfulEqCmp.eq_of_compare h₂
    cases Std.LawfulEqCmp.eq_of_compare h₃
    rfl

/-- The name of a mapping's common table. -/
def tableName (mapping : String) : String := Identifier.safe ("__om_" ++ mapping)

/-- The name under which the mapping is joined for this use. -/
def identifier (k : OverrideKey) : String :=
  Identifier.safe
    ("__om_" ++ k.column ++ "_" ++ k.mapping ++ "_" ++ if k.keepsMissing then "True" else "False")

end OverrideKey

/-- Uses of mappings, each with the column that is replaced. -/
abbrev OverrideUses := SortedMap OverrideKey Sql.Expr

namespace OverrideUses

/-- The column of a mapping's table with the values to replace. -/
def valueColumn : String := "original"

/-- The column with the values in their place. -/
def replacementColumn : String := "changed"

/-- Stands for null among the replacements. -/
def nullMarker : String := "--PANO-NULL--"

/-- Joins two collections of uses; the first column seen for a use stays. -/
def merge (us vs : OverrideUses) : OverrideUses :=
  vs.toList.foldl (fun us (k, e) => us.insertIfNew k e) us

end OverrideUses

end SemanticLayer
