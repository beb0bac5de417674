import EntityStore.Proofs.Steps
import EntityStore.Row
/-!
# Rows and their records

A record written field by field gives every field the value that it was written with
(`Record.get?_ofFields`). A row and the record that it is read from or written to have the same id.
-/
namespace EntityStore

namespace Record

/-- A record with one field more, if that has a value. -/
def enter (r : Record) (e : String × Option Field) : Record :=
  match e.2 with
  | some v => r.set e.1 v
  | none => r

theorem get?_enter (r : Record) (e : String × Option Field) (f : String) :
    (r.enter e).get? f = (if e.1 = f then e.2 else none).or (r.get? f) := by
  rcases e with ⟨name, _ | v⟩
  · simp [enter]
  · rw [enter, SortedMap.get?_set]
    split <;> rfl

theorem get?_ofFields (fields : List (String × Option Field)) (f : String) :
    (ofFields fields).get? f = fields.reverse.findSome? fun e => if e.1 = f then e.2 else none := by
  have hfold (r : Record) : (fields.foldl enter r).get? f =
      (fields.reverse.findSome? fun e => if e.1 = f then e.2 else none).or (r.get? f) := by
    induction fields generalizing r with
    | nil => rfl
    | cons e fields ih =>
      rw [List.foldl_cons, ih, get?_enter, List.reverse_cons, List.findSome?_append,
        Option.or_assoc]
      simp
  have hentered : ofFields fields = fields.foldl enter ∅ := rfl
  rw [hentered, hfold]
  exact Option.or_none

end Record

namespace Row

theorem id_ofFields {i : Id} {fields : List (String × Option Field)}
    (h : ∀ e ∈ fields, e.1 ≠ "id") :
    (Record.ofFields (("id", some (.int i)) :: fields)).id = i := by
  have hnone : (fields.reverse.findSome? fun e => if e.1 = "id" then e.2 else none) = none :=
    List.findSome?_eq_none_iff.2 fun e he => if_neg (h e (List.mem_reverse.1 he))
  rw [Record.id, Record.int?, Record.get?_ofFields, List.reverse_cons, List.findSome?_append, hnone]
  rfl

theorem id_toRecord (k : Kind) (row : Row k) : (Row.toRecord k row).id = Row.id k row := by
  cases k <;> exact id_ofFields (by simp)

theorem map_id_toRecord (k : Kind) (rows : List (Row k)) :
    (rows.map (Row.toRecord k)).map Record.id = rows.map (Row.id k) := by
  simp [Function.comp_def, id_toRecord]

@[simp] theorem toRecord_stored (k : Kind) (row : Row k) :
    toRecord k (stored k row) = toRecord k row := by
  cases k <;> rfl

@[simp] theorem stored_stored (k : Kind) (row : Row k) :
    stored k (stored k row) = stored k row := by
  cases k <;> rfl

theorem id_of_ofRecord {k : Kind} {r : Record} {row : Row k} (h : Row.ofRecord k r = .ok row) :
    Row.id k row = r.id := by
  have hid (i : Id) (hi : r.rowId = .ok i) : i = r.id := by
    simp only [Record.rowId, Record.idOr, bind_eq_ok_iff, pure_eq_ok_iff] at hi
    rcases hi with ⟨given, hgiven, rfl⟩
    unfold Record.optionalId Record.given? at hgiven
    unfold Record.id Record.int?
    cases hg : r.get? "id" with
    | none =>
      rw [hg] at hgiven
      obtain rfl := Except.ok.inj hgiven
      rfl
    | some v =>
      rw [hg] at hgiven
      cases v with
      | null | int =>
        obtain rfl := Except.ok.inj hgiven
        rfl
      | text | ids | names => cases hgiven
  cases k with
  | valueList =>
    simp only [Row.ofRecord, ValueList.ofRecord, bind_eq_ok_iff, pure_eq_ok_iff] at h
    rcases h with ⟨i, hi, _, _, rfl⟩
    exact hid i hi
  | alternative | parameterTag | tool | metadata | definitionTag | toolFeatureMethod
  | entityMetadata | valueMetadata =>
    simp only [Row.ofRecord, Alternative.ofRecord, ParameterTag.ofRecord, Tool.ofRecord,
      Metadata.ofRecord, DefinitionTag.ofRecord, ToolFeatureMethod.ofRecord,
      EntityMetadata.ofRecord, ValueMetadata.ofRecord, bind_eq_ok_iff, pure_eq_ok_iff] at h
    rcases h with ⟨i, hi, _, _, _, _, rfl⟩
    exact hid i hi
  | entityClass | entityGroup | listValue | scenario | scenarioAlternative | feature
  | toolFeature =>
    simp only [Row.ofRecord, EntityClass.ofRecord, EntityGroup.ofRecord, ListValue.ofRecord,
      Scenario.ofRecord, ScenarioAlternative.ofRecord, Feature.ofRecord, ToolFeature.ofRecord,
      bind_eq_ok_iff, pure_eq_ok_iff] at h
    rcases h with ⟨i, hi, _, _, _, _, _, _, rfl⟩
    exact hid i hi
  | entity =>
    simp only [Row.ofRecord, Entity.ofRecord, bind_eq_ok_iff, pure_eq_ok_iff] at h
    rcases h with ⟨i, hi, _, _, _, _, _, _, _, _, rfl⟩
    exact hid i hi
  | parameterDefinition | parameterValue =>
    simp only [Row.ofRecord, ParameterDefinition.ofRecord, ParameterValue.ofRecord,
      bind_eq_ok_iff, pure_eq_ok_iff] at h
    rcases h with ⟨i, hi, _, _, _, _, _, _, _, _, _, _, rfl⟩
    exact hid i hi

end Row

end EntityStore
