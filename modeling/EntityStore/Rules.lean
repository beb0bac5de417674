import EntityStore.Rules.Entity
import EntityStore.Rules.Metadata
import EntityStore.Rules.Parameter
import EntityStore.Rules.Scenario
import EntityStore.Rules.Tool
/-!
# The rules of any kind

Four functions of a kind decide about a row: names are resolved in the record, the row is held
against the snapshot and completed with what is derived, its keys have to be unique, and an update
has to leave alone what is fixed.
-/
namespace EntityStore.Row

/-- Replaces names of other rows in a record by their ids. -/
def resolveNames : (k : Kind) → Snapshot → Record → Except Violation Record
  | .entityClass => EntityClass.resolveNames
  | .entity => Entity.resolveNames
  | .entityGroup => EntityGroup.resolveNames
  | .parameterDefinition => ParameterDefinition.resolveNames
  | .parameterValue => ParameterValue.resolveNames
  | .listValue => fun s r => r.resolveValueList s
  | .scenarioAlternative => ScenarioAlternative.resolveNames
  | .definitionTag => DefinitionTag.resolveNames
  | .feature => Feature.resolveNames
  | .toolFeature => ToolFeature.resolveNames
  | .entityMetadata => EntityMetadata.resolveNames
  | .valueMetadata => ValueMetadata.resolveNames
  | .valueList | .alternative | .scenario | .parameterTag | .tool | .toolFeatureMethod
  | .metadata => fun _ r => .ok r

/-- The row, completed with its derived fields, if it keeps the rules of its kind. -/
def validate : (k : Kind) → Snapshot → Row k → Except Violation (Row k)
  | .entityClass => EntityClass.validate
  | .entity => Entity.validate
  | .entityGroup => EntityGroup.validate
  | .parameterDefinition => ParameterDefinition.validate
  | .parameterValue => ParameterValue.validate
  | .valueList => fun _ => ValueList.validate
  | .listValue => ListValue.validate
  | .alternative => fun _ => Alternative.validate
  | .scenario => fun _ => Scenario.validate
  | .scenarioAlternative => ScenarioAlternative.validate
  | .parameterTag => fun _ => ParameterTag.validate
  | .definitionTag => DefinitionTag.validate
  | .feature => Feature.validate
  | .tool => fun _ => Tool.validate
  | .toolFeature => ToolFeature.validate
  | .toolFeatureMethod => ToolFeatureMethod.validate
  | .metadata => fun _ => Metadata.validate
  | .entityMetadata => EntityMetadata.validate
  | .valueMetadata => ValueMetadata.validate

/-- The keys that no other row of the kind may have. -/
def keys : (k : Kind) → Row k → List UniqueKey
  | .entityClass => EntityClass.keys
  | .entity => Entity.keys
  | .entityGroup => EntityGroup.keys
  | .parameterDefinition => ParameterDefinition.keys
  | .parameterValue => ParameterValue.keys
  | .valueList => ValueList.keys
  | .listValue => ListValue.keys
  | .alternative => Alternative.keys
  | .scenario => Scenario.keys
  | .scenarioAlternative => ScenarioAlternative.keys
  | .parameterTag => ParameterTag.keys
  | .definitionTag => DefinitionTag.keys
  | .feature => Feature.keys
  | .tool => Tool.keys
  | .toolFeature => ToolFeature.keys
  | .toolFeatureMethod => ToolFeatureMethod.keys
  | .metadata => Metadata.keys
  | .entityMetadata => EntityMetadata.keys
  | .valueMetadata => ValueMetadata.keys

/-- Stops when an update changes what is fixed for the row. -/
def checkFixed : (k : Kind) → Snapshot → (before after : Row k) → Except Violation Unit
  | .entityClass => fun _ => EntityClass.checkFixed
  | .entity => fun _ => Entity.checkFixed
  | .parameterDefinition => ParameterDefinition.checkFixed
  | .parameterValue => fun _ => ParameterValue.checkFixed
  | .listValue => ListValue.checkFixed
  | .scenarioAlternative => fun _ => ScenarioAlternative.checkFixed
  | .entityGroup | .valueList | .alternative | .scenario | .parameterTag | .definitionTag
  | .feature | .tool | .toolFeature | .toolFeatureMethod | .metadata | .entityMetadata
  | .valueMetadata => fun _ _ _ => .ok ()

end EntityStore.Row
