import EntityStore.Rules.Violation
import EntityStore.Snapshot
/-!
# References by id and by name

A reference leads to a row of the snapshot or breaks a rule. Candidates may refer by name: resolving
a record reads its name fields and sets the id fields of the rows found, over an id given beside
the name. Names of classes, lists, alternatives, scenarios and tools are looked up in their whole
table, names of entities and definitions within a class. Of several rows with the name the one
with the smallest id is meant.
-/
namespace EntityStore

namespace Snapshot

/-- The row that a reference leads to. -/
def rowAt (s : Snapshot) (k : Kind) (i : Id) (field role : String) : Except Violation (Row k) :=
  match s.find? k i with
  | some row => .ok row
  | none => .error (.missingRow field role i)

/-- The first row that satisfies a condition; without one, the given rule is broken. -/
def firstWhere (s : Snapshot) (k : Kind) (p : Row k → Bool) (v : Violation) :
    Except Violation (Row k) :=
  match s.findWhere k p with
  | some row => .ok row
  | none => .error v

def classNamed (s : Snapshot) (field name : String) : Except Violation EntityClass :=
  s.firstWhere .entityClass (·.name = name) (.unknownName field "entity class" name)

def entityNamed (s : Snapshot) (classId : Id) (field name : String) : Except Violation Entity :=
  s.firstWhere .entity (fun e => e.classId = classId ∧ e.name = name)
    (.unknownEntity field name ((s.find? .entityClass classId).map EntityClass.name) classId)

end Snapshot

namespace Record

/-- The name in a field; none when the field is absent or null. -/
def name? (r : Record) (f : String) : Except Violation (Option String) :=
  match r.given? f with
  | none => .ok none
  | some (.text s) => .ok (some s)
  | some v => .error (.notAName f v)

def names? (r : Record) (f : String) : Except Violation (Option (List String)) :=
  match r.given? f with
  | none => .ok none
  | some (.names l) => .ok (some l)
  | some v => .error (.notNames f v)

def setId (r : Record) (f : String) (i : Id) : Record := r.set f (.int i)

/-- Sets an id field to the row that a name field names. -/
def resolve (r : Record) (nameField idField : String) (find : String → Except Violation Id) :
    Except Violation Record := do
  match ← r.name? nameField with
  | none => return r
  | some name => return r.setId idField (← find name)

/-- The class that gives a name its scope, by name or by id. -/
def scopeClass (r : Record) (s : Snapshot) (consumer : String) :
    Except Violation (Id × Record) := do
  match ← r.name? "entity_class_name" with
  | some name =>
    let c ← s.classNamed "entity_class_name" name
    return (c.id, r.setId "entity_class_id" c.id)
  | none =>
    match r.int? "entity_class_id" with
    | some i => return (i, r)
    | none => throw (.unscopedName consumer)

/-- Sets an id field to the row that a name field names within the record's class. -/
def resolveScoped (r : Record) (s : Snapshot) (nameField idField : String)
    (find : Id → String → Except Violation Id) : Except Violation Record := do
  match ← r.name? nameField with
  | none => return r
  | some name =>
    let (classId, r) ← r.scopeClass s nameField
    return r.setId idField (← find classId name)

def resolveClass (r : Record) (s : Snapshot) (nameField idField : String) :
    Except Violation Record :=
  r.resolve nameField idField fun name => do return (← s.classNamed nameField name).id

def resolveEntity (r : Record) (s : Snapshot) (nameField idField : String) :
    Except Violation Record :=
  r.resolveScoped s nameField idField fun classId name => do
    return (← s.entityNamed classId nameField name).id

def resolveDefinition (r : Record) (s : Snapshot) : Except Violation Record :=
  r.resolveScoped s "parameter_definition_name" "parameter_definition_id" fun classId name => do
    let d ← s.firstWhere .parameterDefinition (fun d => d.entityClassId = classId ∧ d.name = name)
      (.unknownName "parameter_definition_name" "parameter definition" name)
    return d.id

def resolveValueList (r : Record) (s : Snapshot) : Except Violation Record :=
  r.resolve "value_list_name" "parameter_value_list_id" fun name => do
    let l ← s.firstWhere .valueList (·.name = name)
      (.unknownName "value_list_name" "value list" name)
    return l.id

def resolveAlternative (r : Record) (s : Snapshot) : Except Violation Record :=
  r.resolve "alternative_name" "alternative_id" fun name => do
    let a ← s.firstWhere .alternative (·.name = name)
      (.unknownName "alternative_name" "alternative" name)
    return a.id

def resolveScenario (r : Record) (s : Snapshot) : Except Violation Record :=
  r.resolve "scenario_name" "scenario_id" fun name => do
    let c ← s.firstWhere .scenario (·.name = name) (.unknownName "scenario_name" "scenario" name)
    return c.id

def resolveTag (r : Record) (s : Snapshot) : Except Violation Record :=
  r.resolve "parameter_tag_name" "parameter_tag_id" fun name => do
    return (← s.firstWhere .parameterTag (·.tag = name) (.unknownTag name)).id

def resolveTool (r : Record) (s : Snapshot) : Except Violation Record :=
  r.resolve "tool_name" "tool_id" fun name => do
    return (← s.firstWhere .tool (·.name = name) (.unknownName "tool_name" "tool" name)).id

/-- Metadata is named by its name and value together. -/
def resolveMetadata (r : Record) (s : Snapshot) : Except Violation Record := do
  match ← r.name? "metadata_name", ← r.name? "metadata_value" with
  | none, none => return r
  | some name, some value =>
    let m ← s.firstWhere .metadata (fun m => m.name = name ∧ m.value = value)
      (.unknownMetadata name value)
    return r.setId "metadata_id" m.id
  | _, _ => throw .loneMetadataName

end Record

/-- Stops when a text that must say something is empty. -/
def requireText (field value : String) : Except Violation Unit :=
  refuseIf (value = "") (.emptyText field)

end EntityStore
