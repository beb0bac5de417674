import EntityStore.Record
/-!
# Rows of metadata and their joins

A piece of metadata is a name with a value; the two joins attach it to entities and to parameter
values.
-/
namespace EntityStore

structure Metadata where
  id : Id
  name : String
  value : String
  deriving DecidableEq, Repr

namespace Metadata

def ofRecord (r : Record) : Except FieldFault Metadata := do
  let id ← r.rowId
  let name ← r.requiredText "name"
  let value ← r.requiredText "value"
  return { id, name, value }

def toRecord (m : Metadata) : Record :=
  .ofFields [("id", some (.int m.id)), ("name", some (.text m.name)),
    ("value", some (.text m.value))]

end Metadata

structure EntityMetadata where
  id : Id
  entityId : Id
  metadataId : Id
  deriving DecidableEq, Repr

namespace EntityMetadata

def ofRecord (r : Record) : Except FieldFault EntityMetadata := do
  let id ← r.rowId
  let entityId ← r.requiredId "entity_id"
  let metadataId ← r.requiredId "metadata_id"
  return { id, entityId, metadataId }

def toRecord (m : EntityMetadata) : Record :=
  .ofFields [("id", some (.int m.id)), ("entity_id", some (.int m.entityId)),
    ("metadata_id", some (.int m.metadataId))]

end EntityMetadata

structure ValueMetadata where
  id : Id
  parameterValueId : Id
  metadataId : Id
  deriving DecidableEq, Repr

namespace ValueMetadata

def ofRecord (r : Record) : Except FieldFault ValueMetadata := do
  let id ← r.rowId
  let parameterValueId ← r.requiredId "parameter_value_id"
  let metadataId ← r.requiredId "metadata_id"
  return { id, parameterValueId, metadataId }

def toRecord (m : ValueMetadata) : Record :=
  .ofFields [("id", some (.int m.id)), ("parameter_value_id", some (.int m.parameterValueId)),
    ("metadata_id", some (.int m.metadataId))]

end ValueMetadata

end EntityStore
