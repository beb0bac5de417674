import EntityStore.Row.Entity
import EntityStore.Row.Parameter
import EntityStore.Row.Scenario
import EntityStore.Row.Tool
import EntityStore.Row.Metadata
/-!
# Rows of any kind

`Row k` is the row type of kind `k`. The functions here take the kind as an argument and hand the
row to the functions of its type, so that whatever treats all kinds alike is written once.
-/
namespace EntityStore

/-- The type of the rows of a kind. -/
abbrev Row : Kind → Type
  | .entityClass => EntityClass
  | .entity => Entity
  | .entityGroup => EntityGroup
  | .parameterDefinition => ParameterDefinition
  | .parameterValue => ParameterValue
  | .valueList => ValueList
  | .listValue => ListValue
  | .alternative => Alternative
  | .scenario => Scenario
  | .scenarioAlternative => ScenarioAlternative
  | .parameterTag => ParameterTag
  | .definitionTag => DefinitionTag
  | .feature => Feature
  | .tool => Tool
  | .toolFeature => ToolFeature
  | .toolFeatureMethod => ToolFeatureMethod
  | .metadata => Metadata
  | .entityMetadata => EntityMetadata
  | .valueMetadata => ValueMetadata

namespace Row

instance instDecidableEq : (k : Kind) → DecidableEq (Row k)
  | .entityClass => inferInstanceAs (DecidableEq EntityClass)
  | .entity => inferInstanceAs (DecidableEq Entity)
  | .entityGroup => inferInstanceAs (DecidableEq EntityGroup)
  | .parameterDefinition => inferInstanceAs (DecidableEq ParameterDefinition)
  | .parameterValue => inferInstanceAs (DecidableEq ParameterValue)
  | .valueList => inferInstanceAs (DecidableEq ValueList)
  | .listValue => inferInstanceAs (DecidableEq ListValue)
  | .alternative => inferInstanceAs (DecidableEq Alternative)
  | .scenario => inferInstanceAs (DecidableEq Scenario)
  | .scenarioAlternative => inferInstanceAs (DecidableEq ScenarioAlternative)
  | .parameterTag => inferInstanceAs (DecidableEq ParameterTag)
  | .definitionTag => inferInstanceAs (DecidableEq DefinitionTag)
  | .feature => inferInstanceAs (DecidableEq Feature)
  | .tool => inferInstanceAs (DecidableEq Tool)
  | .toolFeature => inferInstanceAs (DecidableEq ToolFeature)
  | .toolFeatureMethod => inferInstanceAs (DecidableEq ToolFeatureMethod)
  | .metadata => inferInstanceAs (DecidableEq Metadata)
  | .entityMetadata => inferInstanceAs (DecidableEq EntityMetadata)
  | .valueMetadata => inferInstanceAs (DecidableEq ValueMetadata)

def id : (k : Kind) → Row k → Id
  | .entityClass => EntityClass.id
  | .entity => Entity.id
  | .entityGroup => EntityGroup.id
  | .parameterDefinition => ParameterDefinition.id
  | .parameterValue => ParameterValue.id
  | .valueList => ValueList.id
  | .listValue => ListValue.id
  | .alternative => Alternative.id
  | .scenario => Scenario.id
  | .scenarioAlternative => ScenarioAlternative.id
  | .parameterTag => ParameterTag.id
  | .definitionTag => DefinitionTag.id
  | .feature => Feature.id
  | .tool => Tool.id
  | .toolFeature => ToolFeature.id
  | .toolFeatureMethod => ToolFeatureMethod.id
  | .metadata => Metadata.id
  | .entityMetadata => EntityMetadata.id
  | .valueMetadata => ValueMetadata.id

/-- The row under another id. -/
def withId : (k : Kind) → Id → Row k → Row k
  | .entityClass => fun i r => { r with id := i }
  | .entity => fun i r => { r with id := i }
  | .entityGroup => fun i r => { r with id := i }
  | .parameterDefinition => fun i r => { r with id := i }
  | .parameterValue => fun i r => { r with id := i }
  | .valueList => fun i r => { r with id := i }
  | .listValue => fun i r => { r with id := i }
  | .alternative => fun i r => { r with id := i }
  | .scenario => fun i r => { r with id := i }
  | .scenarioAlternative => fun i r => { r with id := i }
  | .parameterTag => fun i r => { r with id := i }
  | .definitionTag => fun i r => { r with id := i }
  | .feature => fun i r => { r with id := i }
  | .tool => fun i r => { r with id := i }
  | .toolFeature => fun i r => { r with id := i }
  | .toolFeatureMethod => fun i r => { r with id := i }
  | .metadata => fun i r => { r with id := i }
  | .entityMetadata => fun i r => { r with id := i }
  | .valueMetadata => fun i r => { r with id := i }

/-- Reads a row from a record. -/
def ofRecord : (k : Kind) → Record → Except FieldFault (Row k)
  | .entityClass => EntityClass.ofRecord
  | .entity => Entity.ofRecord
  | .entityGroup => EntityGroup.ofRecord
  | .parameterDefinition => ParameterDefinition.ofRecord
  | .parameterValue => ParameterValue.ofRecord
  | .valueList => ValueList.ofRecord
  | .listValue => ListValue.ofRecord
  | .alternative => Alternative.ofRecord
  | .scenario => Scenario.ofRecord
  | .scenarioAlternative => ScenarioAlternative.ofRecord
  | .parameterTag => ParameterTag.ofRecord
  | .definitionTag => DefinitionTag.ofRecord
  | .feature => Feature.ofRecord
  | .tool => Tool.ofRecord
  | .toolFeature => ToolFeature.ofRecord
  | .toolFeatureMethod => ToolFeatureMethod.ofRecord
  | .metadata => Metadata.ofRecord
  | .entityMetadata => EntityMetadata.ofRecord
  | .valueMetadata => ValueMetadata.ofRecord

/-- Writes a row with the field names under which it is stored. -/
def toRecord : (k : Kind) → Row k → Record
  | .entityClass => EntityClass.toRecord
  | .entity => Entity.toRecord
  | .entityGroup => EntityGroup.toRecord
  | .parameterDefinition => ParameterDefinition.toRecord
  | .parameterValue => ParameterValue.toRecord
  | .valueList => ValueList.toRecord
  | .listValue => ListValue.toRecord
  | .alternative => Alternative.toRecord
  | .scenario => Scenario.toRecord
  | .scenarioAlternative => ScenarioAlternative.toRecord
  | .parameterTag => ParameterTag.toRecord
  | .definitionTag => DefinitionTag.toRecord
  | .feature => Feature.toRecord
  | .tool => Tool.toRecord
  | .toolFeature => ToolFeature.toRecord
  | .toolFeatureMethod => ToolFeatureMethod.toRecord
  | .metadata => Metadata.toRecord
  | .entityMetadata => EntityMetadata.toRecord
  | .valueMetadata => ValueMetadata.toRecord

/-- The variant under which a row's reference was given, for the kinds that have variants. -/
def variant? : (k : Kind) → Row k → Option Variant
  | .parameterDefinition => fun r => some r.ownerVariant
  | .parameterValue => fun r => some r.entityVariant
  | _ => fun _ => none

/-- The row as it comes back from the store: without the variant under which a reference was
given. -/
def stored : (k : Kind) → Row k → Row k
  | .parameterDefinition => fun r => { r with ownerVariant := .any }
  | .parameterValue => fun r => { r with entityVariant := .any }
  | _ => fun r => r

@[simp] theorem id_withId (k : Kind) (i : Id) (r : Row k) : Row.id k (withId k i r) = i := by
  cases k <;> rfl

@[simp] theorem id_stored (k : Kind) (r : Row k) : Row.id k (stored k r) = Row.id k r := by
  cases k <;> rfl

end Row

end EntityStore
