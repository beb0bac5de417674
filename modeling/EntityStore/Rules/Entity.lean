import EntityStore.Rules.Reference
/-!
# Rules of classes, entities and groups

The members of a relationship class are object classes, fixed for life. A relationship has one
member for each member class of its class, in order, and takes its name from the names of its
members when it has none; an object has no members and a name of its own. Both ends of a group
membership belong to the group's class.
-/
namespace EntityStore

namespace EntityClass

def resolveNames (s : Snapshot) (r : Record) : Except Violation Record := do
  match ← r.names? "member_class_names" with
  | none => return r
  | some names =>
    let ids ← names.mapM fun name => do return (← s.classNamed "member_class_names" name).id
    return r.set "member_class_ids" (.ids ids)

def requireObjectClass (s : Snapshot) (member : Id) : Except Violation Unit := do
  let c ← s.rowAt .entityClass member "member_class_ids" "Member class"
  refuseIf c.isRelationshipClass (.relationshipMemberClass c.name)

def validate (s : Snapshot) (c : EntityClass) : Except Violation EntityClass := do
  requireText "name" c.name
  c.memberClassIds.forM (requireObjectClass s)
  return c

def keys (c : EntityClass) : List UniqueKey := [⟨"name", [.text c.name]⟩]

def checkFixed (before after : EntityClass) : Except Violation Unit :=
  refuseIf (before.memberClassIds ≠ after.memberClassIds) (.fixed .memberClasses)

end EntityClass

namespace Entity

def resolveNames (s : Snapshot) (r : Record) : Except Violation Record := do
  let r ← r.resolveClass s "class_name" "class_id"
  match ← r.names? "member_names" with
  | none => return r
  | some names =>
    match r.int? "class_id" with
    | none => throw .membersWithoutClass
    | some classId =>
      let c ← s.rowAt .entityClass classId "class_id" "Entity class"
      refuseIf (names.length ≠ c.memberClassIds.length)
        (.memberCount "member_names" c.name c.memberClassIds.length names.length)
      let ids ← (names.zip c.memberClassIds).mapM fun (name, memberClass) => do
        return (← s.entityNamed memberClass "member_names" name).id
      return r.set "member_ids" (.ids ids)

/-- The names of the members, each of which exists and is of the class at its place. -/
def memberNames (s : Snapshot) : Nat → List Id → List Id → Except Violation (List String)
  | position, member :: members, classId :: classes => do
    let m ← s.rowAt .entity member "member_ids" "Member entity"
    refuseIf (m.classId ≠ classId) (.memberOfOtherClass m.name position)
    let names ← memberNames s (position + 1) members classes
    return m.name :: names
  | _, _, _ => return []

/-- The name of a relationship that is given none. -/
def derivedName (c : EntityClass) (memberNames : List String) : String :=
  c.name ++ "_" ++ "__".intercalate memberNames

def validate (s : Snapshot) (e : Entity) : Except Violation Entity := do
  let c ← s.rowAt .entityClass e.classId "class_id" "Entity class"
  if c.isRelationshipClass then
    refuseIf (e.memberIds.length ≠ c.memberClassIds.length)
      (.memberCount "member_ids" c.name c.memberClassIds.length e.memberIds.length)
    let names ← memberNames s 1 e.memberIds c.memberClassIds
    return if e.name = "" then { e with name := derivedName c names } else e
  else
    refuseIf e.isRelationship (.objectWithMembers c.name)
    requireText "name" e.name
    return e

def keys (e : Entity) : List UniqueKey :=
  ⟨"class_id, name", [.int e.classId, .text e.name]⟩ ::
    if e.isRelationship then [⟨"class_id, member_ids", [.int e.classId, .ids e.memberIds]⟩] else []

def checkFixed (before after : Entity) : Except Violation Unit :=
  refuseIf (before.classId ≠ after.classId) (.fixed .classOfEntity)

end Entity

namespace EntityGroup

def resolveNames (s : Snapshot) (r : Record) : Except Violation Record := do
  let r ← r.resolveClass s "entity_class_name" "entity_class_id"
  let r ← r.resolveEntity s "group_name" "entity_id"
  r.resolveEntity s "member_name" "member_id"

def validate (s : Snapshot) (g : EntityGroup) : Except Violation EntityGroup := do
  let _ ← s.rowAt .entityClass g.entityClassId "entity_class_id" "Entity class"
  let group ← s.rowAt .entity g.entityId "entity_id" "Group entity"
  let member ← s.rowAt .entity g.memberId "member_id" "Member entity"
  refuseIf (group.classId ≠ g.entityClassId) (.groupOutsideClass group.name)
  refuseIf (member.classId ≠ g.entityClassId) (.memberOutsideClass member.name)
  refuseIf (g.entityId = g.memberId) .selfMembership
  return g

def keys (g : EntityGroup) : List UniqueKey :=
  [⟨"entity_id, member_id", [.int g.entityId, .int g.memberId]⟩]

end EntityGroup

end EntityStore
