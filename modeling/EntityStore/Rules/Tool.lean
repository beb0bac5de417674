import EntityStore.Rules.ListUse
import EntityStore.Rules.Reference
/-!
# Rules of features, tools and methods

A feature is made of a definition with a value list and takes that list over. A method is the index
of a value in the list of its feature.
-/
namespace EntityStore

namespace Feature

def resolveNames (s : Snapshot) (r : Record) : Except Violation Record := r.resolveDefinition s

def validate (s : Snapshot) (f : Feature) : Except Violation Feature := do
  let d ← s.rowAt .parameterDefinition f.parameterDefinitionId "parameter_definition_id"
    "Parameter definition"
  match d.parameterValueListId with
  | none => throw (.noValueList d.name)
  | some list => return { f with parameterValueListId := list }

def keys (f : Feature) : List UniqueKey :=
  [⟨"parameter_definition_id", [.int f.parameterDefinitionId]⟩]

end Feature

namespace Tool

def validate (t : Tool) : Except Violation Tool := do
  requireText "name" t.name
  return t

def keys (t : Tool) : List UniqueKey := [⟨"name", [.text t.name]⟩]

end Tool

namespace ToolFeature

def resolveNames (s : Snapshot) (r : Record) : Except Violation Record := r.resolveTool s

def validate (s : Snapshot) (t : ToolFeature) : Except Violation ToolFeature := do
  let _ ← s.rowAt .tool t.toolId "tool_id" "Tool"
  let _ ← s.rowAt .feature t.featureId "feature_id" "Feature"
  return t

def keys (t : ToolFeature) : List UniqueKey :=
  [⟨"tool_id, feature_id", [.int t.toolId, .int t.featureId]⟩]

end ToolFeature

namespace ToolFeatureMethod

def validate (s : Snapshot) (m : ToolFeatureMethod) : Except Violation ToolFeatureMethod := do
  let t ← s.rowAt .toolFeature m.toolFeatureId "tool_feature_id" "Tool feature"
  let f ← s.rowAt .feature t.featureId "tool_feature_id" "Feature"
  refuseIf (!s.offersIndex f.parameterValueListId m.methodIndex) (.methodNotListed m.methodIndex)
  return m

def keys (m : ToolFeatureMethod) : List UniqueKey :=
  [⟨"tool_feature_id, method_index", [.int m.toolFeatureId, .int m.methodIndex]⟩]

end ToolFeatureMethod

end EntityStore
