import EntityStore.Record
/-!
# Rows of features, tools and their methods

A feature is a definition bound to a value list, a tool feature gives a feature to a tool, and a
method of a tool feature is the index of a value in the feature's list.
-/
namespace EntityStore

structure Feature where
  id : Id
  parameterDefinitionId : Id
  /-- The value list of the definition. -/
  parameterValueListId : Id
  description : Option String
  deriving DecidableEq, Repr

namespace Feature

def ofRecord (r : Record) : Except FieldFault Feature := do
  let id ← r.rowId
  let parameterDefinitionId ← r.requiredId "parameter_definition_id"
  let parameterValueListId ← r.idOr "parameter_value_list_id" pendingId
  let description ← r.optionalText "description"
  return { id, parameterDefinitionId, parameterValueListId, description }

def toRecord (f : Feature) : Record :=
  .ofFields [("id", some (.int f.id)),
    ("parameter_definition_id", some (.int f.parameterDefinitionId)),
    ("parameter_value_list_id", some (.int f.parameterValueListId)),
    ("description", f.description.map .text)]

end Feature

structure Tool where
  id : Id
  name : String
  description : Option String
  deriving DecidableEq, Repr

namespace Tool

def ofRecord (r : Record) : Except FieldFault Tool := do
  let id ← r.rowId
  let name ← r.requiredText "name"
  let description ← r.optionalText "description"
  return { id, name, description }

def toRecord (t : Tool) : Record :=
  .ofFields [("id", some (.int t.id)), ("name", some (.text t.name)),
    ("description", t.description.map .text)]

end Tool

structure ToolFeature where
  id : Id
  toolId : Id
  featureId : Id
  required : Bool
  deriving DecidableEq, Repr

namespace ToolFeature

def ofRecord (r : Record) : Except FieldFault ToolFeature := do
  let id ← r.rowId
  let toolId ← r.requiredId "tool_id"
  let featureId ← r.requiredId "feature_id"
  let required ← r.flag "required"
  return { id, toolId, featureId, required }

def toRecord (t : ToolFeature) : Record :=
  .ofFields [("id", some (.int t.id)), ("tool_id", some (.int t.toolId)),
    ("feature_id", some (.int t.featureId)), ("required", Record.flagField t.required)]

end ToolFeature

structure ToolFeatureMethod where
  id : Id
  toolFeatureId : Id
  methodIndex : Int
  deriving DecidableEq, Repr

namespace ToolFeatureMethod

def ofRecord (r : Record) : Except FieldFault ToolFeatureMethod := do
  let id ← r.rowId
  let toolFeatureId ← r.requiredId "tool_feature_id"
  let methodIndex ← r.requiredId "method_index"
  return { id, toolFeatureId, methodIndex }

def toRecord (m : ToolFeatureMethod) : Record :=
  .ofFields [("id", some (.int m.id)), ("tool_feature_id", some (.int m.toolFeatureId)),
    ("method_index", some (.int m.methodIndex))]

end ToolFeatureMethod

end EntityStore
