import EntityStore.Record
/-!
# Rows of parameters, their values, value lists and tags

A definition belongs to a class and may be bound to a value list; a value belongs to an entity, a
definition and an alternative. The reference to the owner may come in under the name of its
variant, which the row remembers until it is written back.
-/
namespace EntityStore

structure ParameterDefinition where
  id : Id
  entityClassId : Id
  name : String
  defaultValue : Option String
  parameterValueListId : Option Id
  description : Option String
  /-- The variant under which the owner was given; not written back. -/
  ownerVariant : Variant
  deriving DecidableEq, Repr

namespace ParameterDefinition

def ofRecord (r : Record) : Except FieldFault ParameterDefinition := do
  let id ← r.rowId
  let (entityClassId, ownerVariant) ← r.reference .owner
  let name ← r.requiredText "name"
  let defaultValue ← r.optionalText "default_value"
  let parameterValueListId ← r.optionalId "parameter_value_list_id"
  let description ← r.optionalText "description"
  return { id, entityClassId, name, defaultValue, parameterValueListId, description, ownerVariant }

def toRecord (d : ParameterDefinition) : Record :=
  .ofFields [("id", some (.int d.id)), ("entity_class_id", some (.int d.entityClassId)),
    ("name", some (.text d.name)), ("default_value", d.defaultValue.map .text),
    ("parameter_value_list_id", d.parameterValueListId.map .int),
    ("description", d.description.map .text)]

/-- The definition without its value list. -/
def detached (d : ParameterDefinition) : ParameterDefinition :=
  { d with parameterValueListId := none }

end ParameterDefinition

structure ParameterValue where
  id : Id
  /-- The class of the entity. -/
  entityClassId : Id
  entityId : Id
  parameterDefinitionId : Id
  /-- Pending until the base alternative takes its place. -/
  alternativeId : Id
  value : String
  /-- The variant under which the entity was given; not written back. -/
  entityVariant : Variant
  deriving DecidableEq, Repr

namespace ParameterValue

def ofRecord (r : Record) : Except FieldFault ParameterValue := do
  let id ← r.rowId
  let (entityId, entityVariant) ← r.reference .subject
  let entityClassId ← r.idOr "entity_class_id" pendingId
  let parameterDefinitionId ← r.requiredId "parameter_definition_id"
  let alternativeId ← r.idOr "alternative_id" pendingId
  let value ← r.requiredText "value"
  return { id, entityClassId, entityId, parameterDefinitionId, alternativeId, value, entityVariant }

def toRecord (v : ParameterValue) : Record :=
  .ofFields [("id", some (.int v.id)), ("entity_class_id", some (.int v.entityClassId)),
    ("entity_id", some (.int v.entityId)),
    ("parameter_definition_id", some (.int v.parameterDefinitionId)),
    ("alternative_id", some (.int v.alternativeId)), ("value", some (.text v.value))]

end ParameterValue

structure ValueList where
  id : Id
  name : String
  deriving DecidableEq, Repr

namespace ValueList

def ofRecord (r : Record) : Except FieldFault ValueList := do
  let id ← r.rowId
  let name ← r.requiredText "name"
  return { id, name }

def toRecord (l : ValueList) : Record :=
  .ofFields [("id", some (.int l.id)), ("name", some (.text l.name))]

end ValueList

/-- A value offered by a value list, at an index. -/
structure ListValue where
  id : Id
  parameterValueListId : Id
  valueIndex : Int
  value : String
  deriving DecidableEq, Repr

namespace ListValue

def ofRecord (r : Record) : Except FieldFault ListValue := do
  let id ← r.rowId
  let parameterValueListId ← r.requiredId "parameter_value_list_id"
  let valueIndex ← r.requiredId "value_index"
  let value ← r.requiredText "value"
  return { id, parameterValueListId, valueIndex, value }

def toRecord (v : ListValue) : Record :=
  .ofFields [("id", some (.int v.id)),
    ("parameter_value_list_id", some (.int v.parameterValueListId)),
    ("value_index", some (.int v.valueIndex)), ("value", some (.text v.value))]

end ListValue

structure ParameterTag where
  id : Id
  tag : String
  description : Option String
  deriving DecidableEq, Repr

namespace ParameterTag

def ofRecord (r : Record) : Except FieldFault ParameterTag := do
  let id ← r.rowId
  let tag ← r.requiredText "tag"
  let description ← r.optionalText "description"
  return { id, tag, description }

def toRecord (t : ParameterTag) : Record :=
  .ofFields [("id", some (.int t.id)), ("tag", some (.text t.tag)),
    ("description", t.description.map .text)]

end ParameterTag

structure DefinitionTag where
  id : Id
  parameterDefinitionId : Id
  parameterTagId : Id
  deriving DecidableEq, Repr

namespace DefinitionTag

def ofRecord (r : Record) : Except FieldFault DefinitionTag := do
  let id ← r.rowId
  let parameterDefinitionId ← r.requiredId "parameter_definition_id"
  let parameterTagId ← r.requiredId "parameter_tag_id"
  return { id, parameterDefinitionId, parameterTagId }

def toRecord (t : DefinitionTag) : Record :=
  .ofFields [("id", some (.int t.id)),
    ("parameter_definition_id", some (.int t.parameterDefinitionId)),
    ("parameter_tag_id", some (.int t.parameterTagId))]

end DefinitionTag

end EntityStore
