import EntityStore.Rules.ListUse
import EntityStore.Rules.Reference
/-!
# Rules of parameters, values, value lists and tags

A definition bound to a value list takes its default from the list, and so do the values of the
definition. A value belongs to an entity of the definition's class, and to the base alternative
when it names none. The owner of a definition may only change between an object class and a
relationship class, and only while the definition has no values; its list only while no feature
is made of it and every value fits the new list.
-/
namespace EntityStore

namespace ParameterDefinition

def resolveNames (s : Snapshot) (r : Record) : Except Violation Record := do
  let r ← r.resolveClass s "entity_class_name" "entity_class_id"
  r.resolveValueList s

/-- The list exists and offers the default value. -/
def checkList (s : Snapshot) (d : ParameterDefinition) : Except Violation Unit :=
  match d.parameterValueListId with
  | none => .ok ()
  | some list => do
    let _ ← s.rowAt .valueList list "parameter_value_list_id" "Value list"
    match d.defaultValue with
    | none => return ()
    | some value => refuseIf (!s.offers list value) (.defaultNotListed value)

def validate (s : Snapshot) (d : ParameterDefinition) : Except Violation ParameterDefinition := do
  let owner ← s.rowAt .entityClass d.entityClassId "entity_class_id" "Entity class"
  refuseIf (d.ownerVariant = .object ∧ owner.isRelationshipClass) (.ownerNotObjectClass owner.name)
  refuseIf (d.ownerVariant = .relationship ∧ !owner.isRelationshipClass)
    (.ownerNotRelationshipClass owner.name)
  requireText "name" d.name
  checkList s d
  return d

def keys (d : ParameterDefinition) : List UniqueKey :=
  [⟨"entity_class_id, name", [.int d.entityClassId, .text d.name]⟩]

/-- A new list offers every value of the definition, and no feature holds the definition to the
old one. -/
def checkListChange (s : Snapshot) (before after : ParameterDefinition) :
    Except Violation Unit := do
  if before.parameterValueListId = after.parameterValueListId then return ()
  match s.findWhere .feature fun f => f.parameterDefinitionId = before.id with
  | some f => throw (.listHeldByFeature before.name f.id)
  | none =>
    match after.parameterValueListId with
    | none => return ()
    | some list =>
      let _ ← s.rowAt .valueList list "parameter_value_list_id" "Value list"
      match s.findWhere .parameterValue fun v =>
          v.parameterDefinitionId = before.id && !s.offers list v.value with
      | some v => throw (.valueNotInNewList v.value before.name)
      | none => return ()

/-- A new owner is of the other sort of class than an old one that still exists, and no value
uses the definition. -/
def checkOwnerChange (s : Snapshot) (before after : ParameterDefinition) :
    Except Violation Unit := do
  if before.entityClassId = after.entityClassId then return ()
  let newOwner ← s.rowAt .entityClass after.entityClassId "entity_class_id" "Entity class"
  refuseIf ((s.find? .entityClass before.entityClassId).any fun oldOwner =>
    oldOwner.isRelationshipClass == newOwner.isRelationshipClass) .ownerSwap
  refuseIf ((s.table .parameterValue).any fun v => v.parameterDefinitionId = before.id) .ownerInUse

def checkFixed (s : Snapshot) (before after : ParameterDefinition) : Except Violation Unit := do
  checkListChange s before after
  checkOwnerChange s before after

end ParameterDefinition

namespace ParameterValue

def resolveNames (s : Snapshot) (r : Record) : Except Violation Record := do
  let r ← r.resolveClass s "entity_class_name" "entity_class_id"
  let r ← r.resolveEntity s "entity_name" "entity_id"
  let r ← r.resolveDefinition s
  r.resolveAlternative s

/-- The alternative of a value: the one it names, or the one called `Base`. -/
def alternativeOf (s : Snapshot) (v : ParameterValue) : Except Violation Id := do
  if v.alternativeId = pendingId then
    return (← s.firstWhere .alternative (·.name = "Base") .noBaseAlternative).id
  else
    let _ ← s.rowAt .alternative v.alternativeId "alternative_id" "Alternative"
    return v.alternativeId

def validate (s : Snapshot) (v : ParameterValue) : Except Violation ParameterValue := do
  let d ← s.rowAt .parameterDefinition v.parameterDefinitionId "parameter_definition_id"
    "Parameter definition"
  let e ← s.rowAt .entity v.entityId "entity_id" "Entity"
  refuseIf (v.entityVariant = .object ∧ e.isRelationship) (.notAnObject e.name)
  refuseIf (v.entityVariant = .relationship ∧ !e.isRelationship) (.notARelationship e.name)
  refuseIf (e.classId ≠ d.entityClassId) (.entityOfOtherClass e.name d.name)
  let alternativeId ← alternativeOf s v
  refuseIf (d.parameterValueListId.any fun list => !s.offers list v.value)
    (.valueNotListed v.value d.name)
  return { v with entityClassId := e.classId, alternativeId }

def keys (v : ParameterValue) : List UniqueKey :=
  [⟨"entity_id, parameter_definition_id, alternative_id",
    [.int v.entityId, .int v.parameterDefinitionId, .int v.alternativeId]⟩]

def checkFixed (before after : ParameterValue) : Except Violation Unit := do
  refuseIf (before.entityId ≠ after.entityId) (.fixed .entityOfValue)
  refuseIf (before.parameterDefinitionId ≠ after.parameterDefinitionId) (.fixed .definitionOfValue)
  refuseIf (before.alternativeId ≠ after.alternativeId) (.fixed .alternativeOfValue)

end ParameterValue

namespace ValueList

def validate (l : ValueList) : Except Violation ValueList := do
  requireText "name" l.name
  return l

def keys (l : ValueList) : List UniqueKey := [⟨"name", [.text l.name]⟩]

end ValueList

namespace ListValue

def validate (s : Snapshot) (v : ListValue) : Except Violation ListValue := do
  let _ ← s.rowAt .valueList v.parameterValueListId "parameter_value_list_id" "Value list"
  refuseIf (v.valueIndex < 0) .negativeIndex
  return v

def keys (v : ListValue) : List UniqueKey :=
  [⟨"parameter_value_list_id, value_index", [.int v.parameterValueListId, .int v.valueIndex]⟩]

/-- A list value stays in its list, and what relies on it keeps its text and index. -/
def checkFixed (s : Snapshot) (before after : ListValue) : Except Violation Unit := do
  refuseIf (before.parameterValueListId ≠ after.parameterValueListId) (.fixed .listOfListValue)
  let textChanges : Bool := before.value ≠ after.value
  let indexChanges : Bool := before.valueIndex ≠ after.valueIndex
  match s.listUser before ∅ textChanges indexChanges with
  | none => return ()
  | some user =>
    throw (.listValueUsed (if textChanges then "value" else "value_index") before.value user)

end ListValue

namespace ParameterTag

def validate (t : ParameterTag) : Except Violation ParameterTag := do
  requireText "tag" t.tag
  return t

def keys (t : ParameterTag) : List UniqueKey := [⟨"tag", [.text t.tag]⟩]

end ParameterTag

namespace DefinitionTag

def resolveNames (s : Snapshot) (r : Record) : Except Violation Record := do
  let r ← r.resolveDefinition s
  r.resolveTag s

def validate (s : Snapshot) (t : DefinitionTag) : Except Violation DefinitionTag := do
  let _ ← s.rowAt .parameterDefinition t.parameterDefinitionId "parameter_definition_id"
    "Parameter definition"
  let _ ← s.rowAt .parameterTag t.parameterTagId "parameter_tag_id" "Parameter tag"
  return t

def keys (t : DefinitionTag) : List UniqueKey :=
  [⟨"parameter_definition_id, parameter_tag_id",
    [.int t.parameterDefinitionId, .int t.parameterTagId]⟩]

end DefinitionTag

end EntityStore
