import SemanticLayer.Error
import SemanticLayer.Json.Decode

/-!
# Override mappings

A company's table of values that stand for other values.  Either side of a pair may be null.  A
mapping is kept only if it is not too long and gives each value one replacement.
-/

namespace SemanticLayer

structure OverrideMapping where
  slug : String
  name : String
  /-- Values and what stands for them. -/
  pairs : List (Option String × Option String)
  company : String
  deriving DecidableEq

namespace OverrideMapping

/-- The most pairs of one mapping. -/
def maxPairs : Nat := 1000

/-- The values with more than one replacement, null first. -/
def repeatedValues (m : OverrideMapping) : List String :=
  let values := m.pairs.map (·.1)
  let repeats (v : Option String) : Bool := 1 < values.count v
  (if repeats none then ["null"] else []) ++
    ((SortedSet.ofList (values.filterMap id)).toList.filter fun v => repeats (some v))

def fault? (m : OverrideMapping) : Option MappingFault :=
  if maxPairs < m.pairs.length then some (.tooManyPairs m.pairs.length maxPairs)
  else if m.repeatedValues.isEmpty then none
  else some (.repeatedValues m.repeatedValues)

def checked (m : OverrideMapping) : Result OverrideMapping :=
  match m.fault? with
  | none => .ok m
  | some fault => .error (.invalidMapping m.slug fault)

open Decode in
def ofJson : Decoder OverrideMapping := fun j => do
  let fs ← record ["slug", "name", "definition", "company_id"] j
  let company ← fs.getD "company_id" string ""
  let pairs ← fs.getD "definition" (list (pair (nullable string) (nullable string))) []
  let name? ← fs.getNullable "name" string
  let slug ← present (← fs.get? "slug" string)
  Decode.checked Error.message
    (OverrideMapping.checked { slug, name := name?.getD slug, pairs, company })

def toJson (m : OverrideMapping) : Json :=
  .ofFields
    [("slug", .str m.slug),
     ("name", .str m.name),
     ("definition", .arr (m.pairs.map fun (v, w) =>
       .arr [Json.ofOption .str v, Json.ofOption .str w])),
     ("company_id", .str m.company)]

/-- The mappings of a company with the given slugs; each slug must have one. -/
def load (ms : List OverrideMapping) (slugs : NameSet) (company : String) :
    Result (List OverrideMapping) :=
  let found := ms.filter fun m => m.company = company && slugs.contains m.slug
  let missing := slugs.filter fun slug => !found.any fun m => m.slug = slug
  if missing.isEmpty then .ok found else .error (.mappingsNotFound missing)

end OverrideMapping

end SemanticLayer
