import EntityStore.Failure
/-!
# Broken rules

A violation is one way in which an item breaks the rules of its kind. It determines the issue that
is reported: the code, the field or key at fault, the message and the stored row it collides with.
-/
namespace EntityStore

/-- Values of one row that no other row of the kind may share. -/
structure UniqueKey where
  label : String
  values : List Field
  deriving DecidableEq, Repr

namespace UniqueKey

def text (k : UniqueKey) : String :=
  s!"{k.label} (" ++ ", ".intercalate (k.values.map Field.describe) ++ ")"

end UniqueKey

/-- A row that relies on a value list to offer some text or index. -/
inductive ListUser where
  | definition (name : String)
  | value (id : Id)
  | method (id : Id)
  deriving DecidableEq, Repr

namespace ListUser

def text : ListUser → String
  | definition name => s!"the default value of definition {Text.quote name}"
  | value i => s!"parameter value {i}"
  | method i => s!"tool feature method {i}"

end ListUser

/-- References that a row keeps for life. -/
inductive FixedField where
  | memberClasses
  | classOfEntity
  | entityOfValue
  | definitionOfValue
  | alternativeOfValue
  | listOfListValue
  | scenarioOfAlternative
  deriving DecidableEq, Repr

namespace FixedField

def field : FixedField → String
  | memberClasses => "member_class_ids"
  | classOfEntity => "class_id"
  | entityOfValue => "entity_id"
  | definitionOfValue => "parameter_definition_id"
  | alternativeOfValue => "alternative_id"
  | listOfListValue => "parameter_value_list_id"
  | scenarioOfAlternative => "scenario_id"

def phrase : FixedField → String
  | memberClasses => "The member classes of a class"
  | classOfEntity => "The class of an entity"
  | entityOfValue => "The entity of a parameter value"
  | definitionOfValue => "The definition of a parameter value"
  | alternativeOfValue => "The alternative of a parameter value"
  | listOfListValue => "The list of a list value"
  | scenarioOfAlternative => "The scenario of a scenario alternative"

end FixedField

inductive Violation where
  /-- A field cannot be read. -/
  | fault (fault : FieldFault)
  | notAName (field : String) (given : Field)
  | notNames (field : String) (given : Field)
  | emptyText (field : String)
  /-- A reference leads nowhere. -/
  | missingRow (field role : String) (id : Id)
  | unknownName (field noun name : String)
  | unknownEntity (field name : String) (className : Option String) (classId : Id)
  | unknownTag (name : String)
  | unknownMetadata (name value : String)
  /-- A name that is unique within its class only comes without the class. -/
  | unscopedName (field : String)
  | loneMetadataName
  | membersWithoutClass
  | memberCount (field className : String) (expected given : Nat)
  | relationshipMemberClass (className : String)
  | objectWithMembers (className : String)
  | memberOfOtherClass (name : String) (position : Nat)
  | groupOutsideClass (name : String)
  | memberOutsideClass (name : String)
  | selfMembership
  | ownerNotObjectClass (className : String)
  | ownerNotRelationshipClass (className : String)
  | defaultNotListed (value : String)
  | ownerSwap
  | ownerInUse
  | listHeldByFeature (definition : String) (feature : Id)
  | valueNotInNewList (value definition : String)
  | notAnObject (entity : String)
  | notARelationship (entity : String)
  | entityOfOtherClass (entity definition : String)
  | noBaseAlternative
  | valueNotListed (value definition : String)
  | negativeIndex
  | listValueUsed (field value : String) (user : ListUser)
  | rankTooLow
  | noValueList (definition : String)
  | methodNotListed (index : Int)
  | fixed (field : FixedField)
  /-- Another row has the key: a stored one, or one accepted earlier in the batch. -/
  | duplicateKey (kind : Kind) (key : UniqueKey) (conflict : Option Id)
  | missingId (kind : Kind)
  | unknownId (kind : Kind) (id : Id)
  /-- A list value cannot go while something relies on it. -/
  | listValueKept (value : String) (user : ListUser)
  deriving DecidableEq, Repr

namespace Violation
open Text

/-- Whether something that was referred to does not exist. -/
def isNotFound : Violation → Bool
  | missingRow .. | unknownName .. | unknownEntity .. | unknownTag .. | unknownMetadata ..
  | noBaseAlternative | missingId .. | unknownId .. => true
  | _ => false

def code (v : Violation) : ErrorCode := if v.isNotFound then .notFound else .validationFailed

/-- The field at fault, or the label of the key. -/
def key : Violation → String
  | fault f => f.field
  | notAName f _ | notNames f _ | emptyText f | missingRow f _ _ | unknownName f _ _
  | unknownEntity f _ _ _ | unscopedName f | memberCount f _ _ _ | listValueUsed f _ _ => f
  | unknownTag _ => "parameter_tag_name"
  | unknownMetadata _ _ | loneMetadataName => "metadata_name"
  | membersWithoutClass => "member_names"
  | relationshipMemberClass _ => "member_class_ids"
  | objectWithMembers _ | memberOfOtherClass _ _ => "member_ids"
  | groupOutsideClass _ => "entity_id"
  | memberOutsideClass _ | selfMembership => "member_id"
  | ownerNotObjectClass _ => "object_class_id"
  | ownerNotRelationshipClass _ => "relationship_class_id"
  | defaultNotListed _ => "default_value"
  | ownerSwap | ownerInUse => "entity_class_id"
  | listHeldByFeature _ _ | valueNotInNewList _ _ => "parameter_value_list_id"
  | notAnObject _ => "object_id"
  | notARelationship _ => "relationship_id"
  | entityOfOtherClass _ _ => "entity_id"
  | noBaseAlternative => "alternative_id"
  | valueNotListed _ _ => "value"
  | negativeIndex => "value_index"
  | rankTooLow => "rank"
  | noValueList _ => "parameter_definition_id"
  | methodNotListed _ => "method_index"
  | fixed f => f.field
  | duplicateKey _ k _ => k.label
  | missingId _ | unknownId _ _ | listValueKept _ _ => "id"

def text : Violation → String
  | fault f => f.message
  | notAName f v => s!"Field {quote f} must be a name, got {v.describe}"
  | notNames f v => s!"Field {quote f} must be a list of names, got {v.describe}"
  | emptyText f => s!"Field {quote f} must not be empty"
  | missingRow _ role i => s!"{role} {i} does not exist"
  | unknownName _ noun name => s!"No {noun} named {quote name}"
  | unknownEntity _ name className classId =>
    s!"No entity {quote name} in class {className.elim (toString classId) quote}"
  | unknownTag name => s!"No parameter tag {quote name}"
  | unknownMetadata name value => s!"No metadata {quote name} = {quote value}"
  | unscopedName f => s!"{quote f} needs 'entity_class_name' or 'entity_class_id'"
  | loneMetadataName => "'metadata_name' and 'metadata_value' go together"
  | membersWithoutClass => "'member_names' needs the relationship class"
  | memberCount _ c expected given => s!"Class {quote c} has {expected} members, got {given}"
  | relationshipMemberClass c => s!"Member class {quote c} is a relationship class"
  | objectWithMembers c => s!"Class {quote c} is an object class and takes no members"
  | memberOfOtherClass m position =>
    s!"Member {quote m} at position {position} is not of the declared class"
  | groupOutsideClass g => s!"Group {quote g} is not in the group's class"
  | memberOutsideClass m => s!"Member {quote m} is not in the group's class"
  | selfMembership => "An entity cannot be a member of itself"
  | ownerNotObjectClass c => s!"Class {quote c} is not an object class"
  | ownerNotRelationshipClass c => s!"Class {quote c} is not a relationship class"
  | defaultNotListed v => s!"Default value {quote v} is not in the definition's value list"
  | ownerSwap =>
    "The owner of a definition can only swap between object and relationship classes"
  | ownerInUse => "Cannot change the owner of a definition that has values"
  | listHeldByFeature d f => s!"Definition {quote d} is used by feature {f}"
  | valueNotInNewList v d =>
    s!"Value {quote v} of definition {quote d} is not in the new value list"
  | notAnObject e => s!"Entity {quote e} is not an object"
  | notARelationship e => s!"Entity {quote e} is not a relationship"
  | entityOfOtherClass e d => s!"Entity {quote e} is not of the class of definition {quote d}"
  | noBaseAlternative => "No alternative given and no 'Base' alternative exists"
  | valueNotListed v d => s!"Value {quote v} is not in the value list of definition {quote d}"
  | negativeIndex => "Index must not be negative"
  | listValueUsed _ v user => s!"List value {quote v} is used by {user.text}"
  | rankTooLow => "Rank must be at least 1"
  | noValueList d => s!"Definition {quote d} has no value list"
  | methodNotListed i => s!"Method {i} is not in the feature's value list"
  | fixed f => s!"{f.phrase} cannot change"
  | duplicateKey k key _ => s!"There is already a {k.name} with {key.text}"
  | missingId k => s!"Missing id in {k.name} update"
  | unknownId k i => s!"No {k.name} with id {i}"
  | listValueKept v user => s!"List value {quote v} is still used by {user.text}"

def conflict : Violation → Option Id
  | duplicateKey _ _ c => c
  | _ => none

/-- The message of a violation. A refused item's ends at a NUL that a name or value brings in; a
kept list value's is reported whole. -/
def message : Violation → String
  | listValueKept v user => (listValueKept v user).text
  | v => beforeNul v.text

end Violation

/-- An item that was refused. -/
structure Rejection where
  kind : Kind
  operation : Operation
  /-- The item's id, when it has one. -/
  id : Option Id
  violation : Violation
  deriving DecidableEq, Repr

/-- The issue reported of a refused item. -/
def Rejection.issue (r : Rejection) : Issue :=
  ⟨r.violation.code, r.kind, r.operation.name, r.violation.key, r.violation.message, r.id,
    r.violation.conflict⟩

/-- Stops with a violation when a condition holds. -/
def refuseIf (bad : Prop) [Decidable bad] (v : Violation) : Except Violation Unit :=
  if bad then .error v else .ok ()

@[simp] theorem refuseIf_eq_ok_iff {bad : Prop} [Decidable bad] {v : Violation} {u : Unit} :
    refuseIf bad v = .ok u ↔ ¬bad := by
  unfold refuseIf
  split <;> simp_all

end EntityStore
