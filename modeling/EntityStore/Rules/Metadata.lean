import EntityStore.Rules.Reference
/-!
# Rules of metadata and their joins

A name may come with several values, but with each value once; a join attaches existing metadata
to an existing entity or parameter value, once.
-/
namespace EntityStore

namespace Metadata

def validate (m : Metadata) : Except Violation Metadata := do
  requireText "name" m.name
  return m

def keys (m : Metadata) : List UniqueKey := [⟨"name, value", [.text m.name, .text m.value]⟩]

end Metadata

namespace EntityMetadata

def resolveNames (s : Snapshot) (r : Record) : Except Violation Record := do
  let r ← r.resolveEntity s "entity_name" "entity_id"
  r.resolveMetadata s

def validate (s : Snapshot) (m : EntityMetadata) : Except Violation EntityMetadata := do
  let _ ← s.rowAt .entity m.entityId "entity_id" "Entity"
  let _ ← s.rowAt .metadata m.metadataId "metadata_id" "Metadata"
  return m

def keys (m : EntityMetadata) : List UniqueKey :=
  [⟨"entity_id, metadata_id", [.int m.entityId, .int m.metadataId]⟩]

end EntityMetadata

namespace ValueMetadata

def resolveNames (s : Snapshot) (r : Record) : Except Violation Record := r.resolveMetadata s

def validate (s : Snapshot) (m : ValueMetadata) : Except Violation ValueMetadata := do
  let _ ← s.rowAt .parameterValue m.parameterValueId "parameter_value_id" "Parameter value"
  let _ ← s.rowAt .metadata m.metadataId "metadata_id" "Metadata"
  return m

def keys (m : ValueMetadata) : List UniqueKey :=
  [⟨"parameter_value_id, metadata_id", [.int m.parameterValueId, .int m.metadataId]⟩]

end ValueMetadata

end EntityStore
