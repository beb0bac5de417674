import EntityStore.Proofs.Row.Columns
import EntityStore.Proofs.Rules.Valid
/-!
# What the rules complete

The rules of a kind change little in the rows that they let through: a value gets the class of its
entity and, where it has none, an alternative; a feature gets the list of its definition; and a
relationship without a name gets one. Every other field is left as it is
(`Row.get?_toRecord_of_validate`).
-/
namespace EntityStore

namespace Entity
variable {s : Snapshot}

theorem exists_of_memberNames {position : Nat} {members classes : List Id} {names : List String}
    (h : memberNames s position members classes = .ok names)
    (hlength : members.length = classes.length) :
    ∃ ms : List Entity, (∀ m ∈ ms, m ∈ s.rows .entity) ∧ ms.map (·.id) = members ∧
      ms.map (·.name) = names := by
  induction members generalizing position classes names with
  | nil =>
    obtain rfl := pure_eq_ok_iff.1 h
    exact ⟨[], by simp, rfl, rfl⟩
  | cons member members ih =>
    cases classes with
    | nil => cases hlength
    | cons classId classes =>
      simp only [memberNames, bind_eq_ok_iff, pure_eq_ok_iff] at h
      obtain ⟨m, hm, _, _, names, hrest, rfl⟩ := h
      obtain ⟨ms, hms, rfl, rfl⟩ := ih hrest (Nat.succ.inj hlength)
      obtain ⟨hmem, rfl⟩ := Snapshot.find?_eq_some_iff.1 (Snapshot.find?_of_rowAt hm)
      exact ⟨m :: ms, List.forall_mem_cons.2 ⟨hmem, hms⟩, rfl, rfl⟩

/-- The name of a relationship, derived from the names of its class and its members. -/
def NamedAfterMembers (s : Snapshot) (e : Entity) : Prop :=
  ∃ (c : EntityClass) (ms : List Entity), s.find? .entityClass e.classId = some c ∧
    (∀ m ∈ ms, m ∈ s.rows .entity) ∧ ms.map Entity.id = e.memberIds ∧
      e.name = derivedName c (ms.map Entity.name)

/-- An entity is let through as it is, or is a relationship without a name, and gets one. -/
theorem cases_of_validate {e e' : Entity} (h : validate s e = .ok e') :
    e.name ≠ "" ∧ e' = e ∨
      e.name = "" ∧ (∃ name, e' = { e with name }) ∧ NamedAfterMembers s e' := by
  simp only [validate, bind_eq_ok_iff] at h
  obtain ⟨c, hc, h⟩ := h
  split at h
  next =>
    simp only [bind_eq_ok_iff, pure_eq_ok_iff, refuseIf_eq_ok_iff, not_not] at h
    obtain ⟨_, hlength, names, hnames, hresult⟩ := h
    split at hresult
    next hempty =>
      subst hresult
      obtain ⟨ms, hms, hids, rfl⟩ := exists_of_memberNames hnames hlength
      exact Or.inr ⟨hempty, ⟨_, rfl⟩, c, ms, Snapshot.find?_of_rowAt hc, hms, hids, rfl⟩
    next hname => exact Or.inl ⟨hname, hresult.symm⟩
  next =>
    simp only [bind_eq_ok_iff, pure_eq_ok_iff, refuseIf_eq_ok_iff, requireText] at h
    obtain ⟨_, _, _, hname, rfl⟩ := h
    exact Or.inl ⟨hname, rfl⟩

theorem derivedName_ne (c : EntityClass) (names : List String) : derivedName c names ≠ "" := by
  intro h
  have hlength := congrArg String.length h
  simp [derivedName, String.length_append] at hlength

theorem name_ne_of_validate {e e' : Entity} (h : validate s e = .ok e') : e'.name ≠ "" := by
  obtain ⟨hname, rfl⟩ | ⟨_, _, c, ms, _, _, _, hname⟩ := cases_of_validate h
  · exact hname
  · rw [hname]
    exact derivedName_ne c _

end Entity

theorem ParameterValue.exists_of_validate {s : Snapshot} {v v' : ParameterValue}
    (h : validate s v = .ok v') : ∃ entityClassId alternativeId,
      v' = { v with entityClassId, alternativeId } ∧
        (v.alternativeId ≠ pendingId → alternativeId = v.alternativeId) := by
  simp only [validate, bind_eq_ok_iff, pure_eq_ok_iff] at h
  obtain ⟨_, _, e, _, _, _, _, _, _, _, i, hi, _, _, rfl⟩ := h
  refine ⟨e.classId, i, rfl, fun hne => ?_⟩
  rw [alternativeOf, if_neg hne] at hi
  obtain ⟨_, _, hi⟩ := bind_eq_ok_iff.1 hi
  exact (pure_eq_ok_iff.1 hi).symm

theorem Feature.exists_of_validate {s : Snapshot} {f f' : Feature} (h : validate s f = .ok f') :
    ∃ parameterValueListId, f' = { f with parameterValueListId } := by
  simp only [validate, bind_eq_ok_iff] at h
  obtain ⟨d, _, h⟩ := h
  split at h
  next => cases h
  next list _ => exact ⟨list, (pure_eq_ok_iff.1 h).symm⟩

namespace Row
variable {k : Kind}

/-- The fields of a row that the rules may fill in. -/
def completed : (k : Kind) → Row k → List String
  | .entity => fun e => if e.name = "" then ["name"] else []
  | .parameterValue => fun v =>
    "entity_class_id" :: if v.alternativeId = pendingId then ["alternative_id"] else []
  | .feature => fun _ => ["parameter_value_list_id"]
  | _ => fun _ => []

attribute [local simp] Record.get?_ofFields List.findSome?_cons in
theorem get?_toRecord_of_validate {s : Snapshot} {row row' : Row k}
    (h : validate k s row = .ok row') {f : String} (hf : f ∉ completed k row) :
    (toRecord k row').get? f = (toRecord k row).get? f := by
  cases k with
  | entity =>
    obtain ⟨_, rfl⟩ | ⟨hempty, ⟨name, rfl⟩, _⟩ := Entity.cases_of_validate h
    · rfl
    · have hname : f ≠ "name" := by simpa [completed, hempty] using hf
      simp [toRecord, Entity.toRecord, hname.symm]
  | parameterValue =>
    obtain ⟨classId, alternativeId, rfl, hkept⟩ := ParameterValue.exists_of_validate h
    have hclass : f ≠ "entity_class_id" := fun hf' => hf (hf' ▸ List.mem_cons_self)
    by_cases hpending : row.alternativeId = pendingId
    · have halternative : f ≠ "alternative_id" := by
        rintro rfl
        exact hf (by simp [completed, hpending])
      simp [toRecord, ParameterValue.toRecord, hclass.symm, halternative.symm]
    · obtain rfl := hkept hpending
      simp [toRecord, ParameterValue.toRecord, hclass.symm]
  | feature =>
    obtain ⟨list, rfl⟩ := Feature.exists_of_validate h
    have hlist : f ≠ "parameter_value_list_id" := fun hf' => hf (hf' ▸ List.mem_cons_self)
    simp [toRecord, Feature.toRecord, hlist.symm]
  | entityClass => rw [(EntityClass.valid_of_validate h).1]
  | entityGroup => rw [(EntityGroup.valid_of_validate h).1]
  | parameterDefinition => rw [(ParameterDefinition.valid_of_validate h).1]
  | listValue => rw [(ListValue.valid_of_validate h).1]
  | scenarioAlternative => rw [(ScenarioAlternative.valid_of_validate h).1]
  | toolFeatureMethod => rw [(ToolFeatureMethod.valid_of_validate h).1]
  | definitionTag | toolFeature | entityMetadata | valueMetadata =>
    obtain ⟨_, _, h⟩ := bind_eq_ok_iff.1 h
    obtain ⟨_, _, h⟩ := bind_eq_ok_iff.1 h
    rw [pure_eq_ok_iff.1 h]
  | valueList | alternative | scenario | parameterTag | tool | metadata =>
    obtain ⟨_, _, h⟩ := bind_eq_ok_iff.1 h
    rw [pure_eq_ok_iff.1 h]

attribute [local simp] Record.get?_ofFields List.findSome?_cons in
theorem get?_toRecord_withId (i : Id) (row : Row k) {f : String} (hf : f ≠ "id") :
    (toRecord k (withId k i row)).get? f = (toRecord k row).get? f := by
  cases k <;>
    simp [toRecord, withId, hf.symm, EntityClass.toRecord, Entity.toRecord, EntityGroup.toRecord,
      ParameterDefinition.toRecord, ParameterValue.toRecord, ValueList.toRecord,
      ListValue.toRecord, Alternative.toRecord, Scenario.toRecord, ScenarioAlternative.toRecord,
      ParameterTag.toRecord, DefinitionTag.toRecord, Feature.toRecord, Tool.toRecord,
      ToolFeature.toRecord, ToolFeatureMethod.toRecord, Metadata.toRecord,
      EntityMetadata.toRecord, ValueMetadata.toRecord]

end Row

end EntityStore
