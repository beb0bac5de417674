import EntityStore.Field
/-!
# Loose records

Callers hand over and receive records: maps from field names to values, of which no kind is known
yet. A null field counts as absent when a record is read. Each reading function gives the value of
a field at the type asked for, or the fault that keeps the field from being read.
-/
namespace EntityStore

abbrev Record := SortedMap String Field

/-- The field names under which one reference may be given: as it is stored, or with the variant
of the thing referred to. -/
structure ReferenceFields where
  plain : String
  object : String
  relationship : String
  deriving DecidableEq, Repr

/-- The class that owns a row. -/
def ReferenceFields.owner : ReferenceFields :=
  ⟨"entity_class_id", "object_class_id", "relationship_class_id"⟩

/-- The entity that a row is about. -/
def ReferenceFields.subject : ReferenceFields := ⟨"entity_id", "object_id", "relationship_id"⟩

def ReferenceFields.names (f : ReferenceFields) : List String := [f.plain, f.object, f.relationship]

/-- The variant under which a reference was given. -/
inductive Variant where
  | any
  | object
  | relationship
  deriving DecidableEq, Repr, Inhabited

def Variant.name : Variant → String
  | any => "any"
  | object => "object"
  | relationship => "relationship"

/-- Why a field cannot be read. -/
inductive FieldFault where
  | missing (field : String)
  | missingReference (fields : ReferenceFields)
  | ambiguousReference (fields : ReferenceFields)
  | notAnId (field : String) (given : Field)
  | notText (field : String) (given : Field)
  | notIdList (field : String) (given : Field)
  deriving DecidableEq, Repr

namespace FieldFault

def field : FieldFault → String
  | missing f | notAnId f _ | notText f _ | notIdList f _ => f
  | missingReference fs | ambiguousReference fs => fs.plain

def text : FieldFault → String
  | missing f => s!"Missing field '{f}'"
  | missingReference fs =>
    s!"Missing field '{fs.plain}' (or '{fs.object}' / '{fs.relationship}')"
  | ambiguousReference fs =>
    s!"Exactly one of '{fs.plain}', '{fs.object}' and '{fs.relationship}' may be given"
  | notAnId f v => s!"Field '{f}' must be an id, got {v.describe}"
  | notText f v => s!"Field '{f}' must be text, got {v.describe}"
  | notIdList f v => s!"Field '{f}' must be a list of ids, got {v.describe}"

/-- The text of a fault, which ends at a NUL that a described value brings in. -/
def message (f : FieldFault) : String := Text.beforeNul f.text

end FieldFault

namespace Record

/-- The value of a field that is present and not null. -/
def given? (r : Record) (f : String) : Option Field := (r.get? f).filter fun v => !v.isNull

def has (r : Record) (f : String) : Bool := (r.given? f).isSome

/-- The integer in a field, if the field holds one. -/
def int? (r : Record) (f : String) : Option Int :=
  match r.get? f with
  | some (.int i) => some i
  | _ => none

/-- The id of a record; a record without an integer in `id` is pending. -/
def id (r : Record) : Id := (r.int? "id").getD pendingId

def optionalId (r : Record) (f : String) : Except FieldFault (Option Id) :=
  match r.given? f with
  | none => .ok none
  | some (.int i) => .ok (some i)
  | some v => .error (.notAnId f v)

def requiredId (r : Record) (f : String) : Except FieldFault Id := do
  match ← r.optionalId f with
  | some i => pure i
  | none => throw (.missing f)

def idOr (r : Record) (f : String) (default : Id) : Except FieldFault Id := do
  return (← r.optionalId f).getD default

/-- The row's own id, pending when the record has none. -/
def rowId (r : Record) : Except FieldFault Id := r.idOr "id" pendingId

def optionalText (r : Record) (f : String) : Except FieldFault (Option String) :=
  match r.given? f with
  | none => .ok none
  | some (.text s) => .ok (some s)
  | some v => .error (.notText f v)

def requiredText (r : Record) (f : String) : Except FieldFault String := do
  match ← r.optionalText f with
  | some s => pure s
  | none => throw (.missing f)

/-- A list of ids; an absent list is empty. -/
def idList (r : Record) (f : String) : Except FieldFault (List Id) :=
  match r.given? f with
  | none => .ok []
  | some (.ids l) => .ok l
  | some v => .error (.notIdList f v)

/-- A flag is an integer that is not zero. -/
def flag (r : Record) (f : String) : Except FieldFault Bool := do
  return (← r.idOr f 0) != 0

/-- The one reference given under a group of field names, with the variant of its name. -/
def reference (r : Record) (fs : ReferenceFields) : Except FieldFault (Id × Variant) := do
  let plain ← r.optionalId fs.plain
  let object ← r.optionalId fs.object
  let relationship ← r.optionalId fs.relationship
  match plain, object, relationship with
  | none, none, none => throw (.missingReference fs)
  | some i, none, none => pure (i, .any)
  | none, some i, none => pure (i, .object)
  | none, none, some i => pure (i, .relationship)
  | _, _, _ => throw (.ambiguousReference fs)

/-- A record with the fields that have a value. -/
def ofFields (fields : List (String × Option Field)) : Record :=
  fields.foldl (fun r e => match e.2 with
    | some v => r.set e.1 v
    | none => r) ∅

/-- A list field is left out when the list is empty. -/
def idsField (l : List Id) : Option Field := if l = [] then none else some (.ids l)

def flagField (b : Bool) : Option Field := some (.int (if b then 1 else 0))

end Record

end EntityStore
