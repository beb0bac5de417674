import EntityStore.Record
/-!
# Rows of classes, entities and groups

A class with member classes is a relationship class, every other class an object class; an entity
with members is a relationship. Each row type is read from a record by `ofRecord` and written back
by `toRecord`, which leaves out absent texts and empty lists.
-/
namespace EntityStore

structure EntityClass where
  id : Id
  name : String
  description : Option String
  /-- The classes of a relationship's members, in order; empty for an object class. -/
  memberClassIds : List Id
  deriving DecidableEq, Repr

namespace EntityClass

def isRelationshipClass (c : EntityClass) : Bool := !c.memberClassIds.isEmpty

def ofRecord (r : Record) : Except FieldFault EntityClass := do
  let id ← r.rowId
  let name ← r.requiredText "name"
  let description ← r.optionalText "description"
  let memberClassIds ← r.idList "member_class_ids"
  return { id, name, description, memberClassIds }

def toRecord (c : EntityClass) : Record :=
  .ofFields [("id", some (.int c.id)), ("name", some (.text c.name)),
    ("description", c.description.map .text),
    ("member_class_ids", Record.idsField c.memberClassIds)]

end EntityClass

structure Entity where
  id : Id
  classId : Id
  /-- Empty for a relationship whose name is still to be derived. -/
  name : String
  description : Option String
  /-- The members of a relationship, in order; empty for an object. -/
  memberIds : List Id
  deriving DecidableEq, Repr

namespace Entity

def isRelationship (e : Entity) : Bool := !e.memberIds.isEmpty

def ofRecord (r : Record) : Except FieldFault Entity := do
  let id ← r.rowId
  let classId ← r.requiredId "class_id"
  let name ← r.optionalText "name"
  let description ← r.optionalText "description"
  let memberIds ← r.idList "member_ids"
  return { id, classId, name := name.getD "", description, memberIds }

def toRecord (e : Entity) : Record :=
  .ofFields [("id", some (.int e.id)), ("class_id", some (.int e.classId)),
    ("name", some (.text e.name)), ("description", e.description.map .text),
    ("member_ids", Record.idsField e.memberIds)]

end Entity

/-- Membership of an entity in a group, which is an entity of the same class. -/
structure EntityGroup where
  id : Id
  entityClassId : Id
  entityId : Id
  memberId : Id
  deriving DecidableEq, Repr

namespace EntityGroup

def ofRecord (r : Record) : Except FieldFault EntityGroup := do
  let id ← r.rowId
  let entityClassId ← r.requiredId "entity_class_id"
  let entityId ← r.requiredId "entity_id"
  let memberId ← r.requiredId "member_id"
  return { id, entityClassId, entityId, memberId }

def toRecord (g : EntityGroup) : Record :=
  .ofFields [("id", some (.int g.id)), ("entity_class_id", some (.int g.entityClassId)),
    ("entity_id", some (.int g.entityId)), ("member_id", some (.int g.memberId))]

end EntityGroup

end EntityStore
