import EntityStore.Rules.Reference
/-!
# Rules of alternatives and scenarios

Ranks begin at one; a scenario has each alternative and each rank at most once, and a scenario
alternative stays in its scenario.
-/
namespace EntityStore

namespace Alternative

def validate (a : Alternative) : Except Violation Alternative := do
  requireText "name" a.name
  return a

def keys (a : Alternative) : List UniqueKey := [⟨"name", [.text a.name]⟩]

end Alternative

namespace Scenario

def validate (s : Scenario) : Except Violation Scenario := do
  requireText "name" s.name
  return s

def keys (s : Scenario) : List UniqueKey := [⟨"name", [.text s.name]⟩]

end Scenario

namespace ScenarioAlternative

def resolveNames (s : Snapshot) (r : Record) : Except Violation Record := do
  let r ← r.resolveScenario s
  r.resolveAlternative s

def validate (s : Snapshot) (a : ScenarioAlternative) : Except Violation ScenarioAlternative := do
  let _ ← s.rowAt .scenario a.scenarioId "scenario_id" "Scenario"
  let _ ← s.rowAt .alternative a.alternativeId "alternative_id" "Alternative"
  refuseIf (a.rank < 1) .rankTooLow
  return a

def keys (a : ScenarioAlternative) : List UniqueKey :=
  [⟨"scenario_id, alternative_id", [.int a.scenarioId, .int a.alternativeId]⟩,
    ⟨"scenario_id, rank", [.int a.scenarioId, .int a.rank]⟩]

def checkFixed (before after : ScenarioAlternative) : Except Violation Unit :=
  refuseIf (before.scenarioId ≠ after.scenarioId) (.fixed .scenarioOfAlternative)

end ScenarioAlternative

end EntityStore
