import EntityStore.Record
/-!
# Rows of alternatives and scenarios

A scenario ranks alternatives; a scenario alternative is one place in that ranking.
-/
namespace EntityStore

structure Alternative where
  id : Id
  name : String
  description : Option String
  deriving DecidableEq, Repr

namespace Alternative

def ofRecord (r : Record) : Except FieldFault Alternative := do
  let id ← r.rowId
  let name ← r.requiredText "name"
  let description ← r.optionalText "description"
  return { id, name, description }

def toRecord (a : Alternative) : Record :=
  .ofFields [("id", some (.int a.id)), ("name", some (.text a.name)),
    ("description", a.description.map .text)]

end Alternative

structure Scenario where
  id : Id
  name : String
  description : Option String
  active : Bool
  deriving DecidableEq, Repr

namespace Scenario

def ofRecord (r : Record) : Except FieldFault Scenario := do
  let id ← r.rowId
  let name ← r.requiredText "name"
  let description ← r.optionalText "description"
  let active ← r.flag "active"
  return { id, name, description, active }

def toRecord (s : Scenario) : Record :=
  .ofFields [("id", some (.int s.id)), ("name", some (.text s.name)),
    ("description", s.description.map .text), ("active", Record.flagField s.active)]

end Scenario

structure ScenarioAlternative where
  id : Id
  scenarioId : Id
  alternativeId : Id
  rank : Int
  deriving DecidableEq, Repr

namespace ScenarioAlternative

def ofRecord (r : Record) : Except FieldFault ScenarioAlternative := do
  let id ← r.rowId
  let scenarioId ← r.requiredId "scenario_id"
  let alternativeId ← r.requiredId "alternative_id"
  let rank ← r.requiredId "rank"
  return { id, scenarioId, alternativeId, rank }

def toRecord (s : ScenarioAlternative) : Record :=
  .ofFields [("id", some (.int s.id)), ("scenario_id", some (.int s.scenarioId)),
    ("alternative_id", some (.int s.alternativeId)), ("rank", some (.int s.rank))]

end ScenarioAlternative

end EntityStore
