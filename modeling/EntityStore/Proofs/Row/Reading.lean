import EntityStore.Proofs.Row
/-!
# Rows read back

A row is read back from its record as it was, but for the variant under which a reference was given,
which is not written (`Row.ofRecord_toRecord`).
-/
namespace EntityStore

namespace Row

section Written

attribute [local simp] bind Except.bind pure Except.pure Record.get?_ofFields Record.given?
  Record.rowId Record.idOr Record.optionalId Record.requiredId Record.optionalText
  Record.requiredText Record.idList Record.flag Record.reference Record.idsField Record.flagField
  Field.isNull Option.filter

/-- A row is read back from its record. -/
theorem ofRecord_toRecord (k : Kind) (row : Row k) :
    ofRecord k (toRecord k row) = .ok (stored k row) := by
  cases k with
  | entityClass =>
    rcases row with ⟨id, name, _ | description, _ | ⟨member, members⟩⟩ <;>
      simp [ofRecord, toRecord, stored, EntityClass.ofRecord, EntityClass.toRecord]
  | entity =>
    rcases row with ⟨id, classId, name, _ | description, _ | ⟨member, members⟩⟩ <;>
      simp [ofRecord, toRecord, stored, Entity.ofRecord, Entity.toRecord]
  | parameterDefinition =>
    rcases row with ⟨id, classId, name, _ | value, _ | list, _ | description, variant⟩ <;>
      simp [ofRecord, toRecord, stored, ParameterDefinition.ofRecord, ParameterDefinition.toRecord,
        ReferenceFields.owner]
  | parameterValue =>
    simp [ofRecord, toRecord, stored, ParameterValue.ofRecord, ParameterValue.toRecord,
      ReferenceFields.subject]
  | scenario =>
    rcases row with ⟨id, name, _ | description, _ | _⟩ <;>
      simp [ofRecord, toRecord, stored, Scenario.ofRecord, Scenario.toRecord]
  | toolFeature =>
    rcases row with ⟨id, toolId, featureId, _ | _⟩ <;>
      simp [ofRecord, toRecord, stored, ToolFeature.ofRecord, ToolFeature.toRecord]
  | alternative =>
    rcases row with ⟨id, name, _ | description⟩ <;>
      simp [ofRecord, toRecord, stored, Alternative.ofRecord, Alternative.toRecord]
  | parameterTag =>
    rcases row with ⟨id, name, _ | description⟩ <;>
      simp [ofRecord, toRecord, stored, ParameterTag.ofRecord, ParameterTag.toRecord]
  | tool =>
    rcases row with ⟨id, name, _ | description⟩ <;>
      simp [ofRecord, toRecord, stored, Tool.ofRecord, Tool.toRecord]
  | feature =>
    rcases row with ⟨id, definitionId, listId, _ | description⟩ <;>
      simp [ofRecord, toRecord, stored, Feature.ofRecord, Feature.toRecord]
  | entityGroup | valueList | listValue | scenarioAlternative | definitionTag | toolFeatureMethod
  | metadata | entityMetadata | valueMetadata =>
    simp [ofRecord, toRecord, stored, EntityGroup.ofRecord, EntityGroup.toRecord,
      ValueList.ofRecord, ValueList.toRecord, ListValue.ofRecord, ListValue.toRecord,
      ScenarioAlternative.ofRecord, ScenarioAlternative.toRecord, DefinitionTag.ofRecord,
      DefinitionTag.toRecord, ToolFeatureMethod.ofRecord, ToolFeatureMethod.toRecord,
      Metadata.ofRecord, Metadata.toRecord, EntityMetadata.ofRecord, EntityMetadata.toRecord,
      ValueMetadata.ofRecord, ValueMetadata.toRecord]

end Written

end Row

end EntityStore
