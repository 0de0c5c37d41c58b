import SemanticLayer.Model.Definition

/-!
# Attributes every model has

A model without attributes for its company, project and data source gets them as constants, so
that a filter on these works on any model.  Weeks and months are derived from the model's times.
-/

namespace SemanticLayer

namespace Model

/-- Adds an attribute for a taxon that the model lacks. -/
def addMissing (m : Model) (taxon formula : String) : Model :=
  if m.hasTaxon taxon then m else m.addAttribute (.of taxon formula)

/-- Adds a constant; a text with a quote cannot be one. -/
def addConstant (m : Model) (taxon value : String) : Model :=
  if value.toList.contains '\x27' then m else m.addMissing taxon ("'" ++ value ++ "'")

def withScopeAttributes (m : Model) : Model :=
  let m := if m.dataSources.length = 1 then m.addConstant "data_source" m.dataSource else m
  let m := m.addConstant "company_id" m.company
  match m.project? with
  | some project => m.addConstant "project_id" project
  | none => m

/-- The times derived from another time, with the functions that derive them. -/
def derivedTimes : List (String × String) :=
  [("month", "date_month"), ("week", "date_week"), ("month_of_year", "month_of_year"),
   ("week_of_year", "week_of_year")]

def withDerivedTimes (m : Model) (time : String) : Model :=
  derivedTimes.foldl
    (fun m (name, function) => m.addMissing (m.ownSlug name) (function ++ "(" ++ time ++ ")")) m

def withTimes (m : Model) : Model :=
  match m.granularity? with
  | none => m
  | some .day => m.withDerivedTimes (m.ownSlug "date")
  | some .hour =>
    let hour := m.ownSlug "date_hour"
    ((m.addMissing (m.ownSlug "date") ("to_date(" ++ hour ++ ", 'YYYY-MM-DD')")).addMissing
      (m.ownSlug "hour_of_day") ("hour_of_day(" ++ hour ++ ")")).withDerivedTimes hour

/-- Adds the attributes that every model has. -/
def augmented (m : Model) : Model := m.withScopeAttributes.withTimes

end Model

end SemanticLayer
