import EntityStore.Proofs.Snapshot.Rows
import EntityStore.Proofs.Steps
import EntityStore.Rules
import Mathlib.Data.List.Forall2
/-!
# What the rules of a kind guarantee

`Row.Valid s k row` says in terms of look-ups what a row keeps when it passes the rules of its kind
against the snapshot `s`: its references lead to rows of the right sort, what is derived agrees with
them, and texts are on the lists they are bound to. Every row that `Row.validate` lets through is
valid and has the id that it had (`Row.valid_of_validate`).
-/
namespace EntityStore

namespace Snapshot
variable {s : Snapshot} {k : Kind}

theorem find?_of_rowAt {i : Id} {field role : String} {row : Row k}
    (h : s.rowAt k i field role = .ok row) : s.find? k i = some row := by
  unfold rowAt at h
  split at h
  next r hr =>
    obtain rfl := Except.ok.inj h
    exact hr
  next => cases h

theorem contains_of_rowAt {i : Id} {field role : String} {row : Row k}
    (h : s.rowAt k i field role = .ok row) : s.contains k i = true :=
  contains_of_find? (find?_of_rowAt h)

theorem find?_of_firstWhere {p : Row k → Bool} {v : Violation} {row : Row k}
    (h : s.firstWhere k p v = .ok row) : s.find? k (Row.id k row) = some row := by
  unfold firstWhere at h
  split at h
  next r hr =>
    obtain rfl := Except.ok.inj h
    exact mem_rows_iff.1 (List.mem_of_find?_eq_some hr)
  next => cases h

theorem of_firstWhere {p : Row k → Bool} {v : Violation} {row : Row k}
    (h : s.firstWhere k p v = .ok row) : p row = true := by
  unfold firstWhere at h
  split at h
  next r hr =>
    obtain rfl := Except.ok.inj h
    exact List.find?_some hr
  next => cases h

theorem offers_iff {list : Id} {text : String} :
    s.offers list text = true ↔
      ∃ v ∈ s.rows .listValue, v.parameterValueListId = list ∧ v.value = text := by
  simp [offers, Ascending.any, rows]

/-- The members of a relationship are of the given classes, one by one. -/
def MembersOf (s : Snapshot) (members classes : List Id) : Prop :=
  List.Forall₂ (fun member classId => ∃ m, s.find? .entity member = some m ∧ m.classId = classId)
    members classes

theorem MembersOf.contains {members classes : List Id} (h : s.MembersOf members classes)
    {member : Id} (hm : member ∈ members) : s.contains .entity member = true := by
  induction h with
  | nil => cases hm
  | cons hfirst _ ih =>
    rcases List.mem_cons.1 hm with rfl | hm
    · rcases hfirst with ⟨m, hm, _⟩
      exact contains_of_find? hm
    · exact ih hm

end Snapshot

namespace Row

/-- A row that keeps the rules of its kind against a snapshot. -/
def Valid (s : Snapshot) : (k : Kind) → Row k → Prop
  | .entityClass => fun c => c.name ≠ "" ∧
    ∀ member ∈ c.memberClassIds, ∃ m, s.find? .entityClass member = some m ∧ m.memberClassIds = []
  | .entity => fun e => ∃ c, s.find? .entityClass e.classId = some c ∧
    (c.memberClassIds = [] ∧ e.memberIds = [] ∧ e.name ≠ "" ∨
      c.memberClassIds ≠ [] ∧ s.MembersOf e.memberIds c.memberClassIds)
  | .entityGroup => fun g => s.contains .entityClass g.entityClassId = true ∧
    (∃ e, s.find? .entity g.entityId = some e ∧ e.classId = g.entityClassId) ∧
    (∃ m, s.find? .entity g.memberId = some m ∧ m.classId = g.entityClassId) ∧
    g.entityId ≠ g.memberId
  | .parameterDefinition => fun d => s.contains .entityClass d.entityClassId = true ∧ d.name ≠ "" ∧
    ∀ list, d.parameterValueListId = some list → s.contains .valueList list = true ∧
      ∀ text, d.defaultValue = some text → s.offers list text = true
  | .parameterValue => fun v => s.contains .alternative v.alternativeId = true ∧
    (∃ e, s.find? .entity v.entityId = some e ∧ e.classId = v.entityClassId) ∧
    ∃ d, s.find? .parameterDefinition v.parameterDefinitionId = some d ∧
      d.entityClassId = v.entityClassId ∧
      ∀ list, d.parameterValueListId = some list → s.offers list v.value = true
  | .valueList => fun l => l.name ≠ ""
  | .listValue => fun v => s.contains .valueList v.parameterValueListId = true ∧ 0 ≤ v.valueIndex
  | .alternative => fun a => a.name ≠ ""
  | .scenario => fun c => c.name ≠ ""
  | .scenarioAlternative => fun a => s.contains .scenario a.scenarioId = true ∧
    s.contains .alternative a.alternativeId = true ∧ 1 ≤ a.rank
  | .parameterTag => fun t => t.tag ≠ ""
  | .definitionTag => fun t =>
    s.contains .parameterDefinition t.parameterDefinitionId = true ∧
      s.contains .parameterTag t.parameterTagId = true
  | .feature => fun f => ∃ d, s.find? .parameterDefinition f.parameterDefinitionId = some d ∧
    d.parameterValueListId = some f.parameterValueListId
  | .tool => fun t => t.name ≠ ""
  | .toolFeature => fun t => s.contains .tool t.toolId = true ∧
    s.contains .feature t.featureId = true
  | .toolFeatureMethod => fun m => ∃ t f, s.find? .toolFeature m.toolFeatureId = some t ∧
    s.find? .feature t.featureId = some f ∧
      s.offersIndex f.parameterValueListId m.methodIndex = true
  | .metadata => fun m => m.name ≠ ""
  | .entityMetadata => fun j => s.contains .entity j.entityId = true ∧
    s.contains .metadata j.metadataId = true
  | .valueMetadata => fun j => s.contains .parameterValue j.parameterValueId = true ∧
    s.contains .metadata j.metadataId = true

end Row

section Kinds
variable {s : Snapshot}

theorem EntityClass.valid_of_validate {c c' : EntityClass} (h : EntityClass.validate s c = .ok c') :
    c' = c ∧ Row.Valid s .entityClass c' := by
  simp only [EntityClass.validate, bind_eq_ok_iff, pure_eq_ok_iff, requireText,
    refuseIf_eq_ok_iff] at h
  rcases h with ⟨_, hname, _, hmembers, rfl⟩
  refine ⟨rfl, hname, fun member hm => ?_⟩
  have hmember := forM_eq_ok hmembers member hm
  simp only [EntityClass.requireObjectClass, bind_eq_ok_iff, refuseIf_eq_ok_iff] at hmember
  rcases hmember with ⟨m, hm, hobject⟩
  exact ⟨m, Snapshot.find?_of_rowAt hm, by simpa [EntityClass.isRelationshipClass] using hobject⟩

theorem Entity.membersOf_of_memberNames {position : Nat} {members classes : List Id}
    {names : List String} (h : Entity.memberNames s position members classes = .ok names)
    (hlength : members.length = classes.length) : s.MembersOf members classes := by
  induction members generalizing position classes names with
  | nil =>
    obtain rfl := List.length_eq_zero_iff.1 hlength.symm
    exact .nil
  | cons member members ih =>
    cases classes with
    | nil => cases hlength
    | cons classId classes =>
      simp only [Entity.memberNames, bind_eq_ok_iff, refuseIf_eq_ok_iff, not_not] at h
      rcases h with ⟨m, hm, _, hclass, _, hrest, _⟩
      exact .cons ⟨m, Snapshot.find?_of_rowAt hm, hclass⟩ (ih hrest (Nat.succ.inj hlength))

theorem Entity.valid_of_validate {e e' : Entity} (h : Entity.validate s e = .ok e') :
    e'.id = e.id ∧ e'.classId = e.classId ∧ Row.Valid s .entity e' := by
  simp only [Entity.validate, bind_eq_ok_iff] at h
  rcases h with ⟨c, hc, h⟩
  have hfind := Snapshot.find?_of_rowAt hc
  split at h
  next hrel =>
    have hrel : c.memberClassIds ≠ [] := by simpa [EntityClass.isRelationshipClass] using hrel
    simp only [bind_eq_ok_iff, pure_eq_ok_iff, refuseIf_eq_ok_iff, not_not] at h
    rcases h with ⟨_, hlength, names, hnames, hresult⟩
    have hmembers := Entity.membersOf_of_memberNames hnames hlength
    split at hresult <;> subst hresult <;>
      exact ⟨rfl, rfl, c, hfind, Or.inr ⟨hrel, hmembers⟩⟩
  next hrel =>
    have hobject : c.memberClassIds = [] := by simpa [EntityClass.isRelationshipClass] using hrel
    simp only [bind_eq_ok_iff, pure_eq_ok_iff, refuseIf_eq_ok_iff, requireText] at h
    rcases h with ⟨_, hmembers, _, hname, rfl⟩
    have hmembers : e.memberIds = [] := by simpa [Entity.isRelationship] using hmembers
    exact ⟨rfl, rfl, c, hfind, Or.inl ⟨hobject, hmembers, hname⟩⟩

theorem EntityGroup.valid_of_validate {g g' : EntityGroup} (h : EntityGroup.validate s g = .ok g') :
    g' = g ∧ Row.Valid s .entityGroup g' := by
  simp only [EntityGroup.validate, bind_eq_ok_iff, pure_eq_ok_iff, refuseIf_eq_ok_iff,
    not_not] at h
  rcases h with ⟨c, hc, e, he, m, hm, _, hentity, _, hmember, _, hne, rfl⟩
  exact ⟨rfl, Snapshot.contains_of_rowAt hc, ⟨e, Snapshot.find?_of_rowAt he, hentity⟩,
    ⟨m, Snapshot.find?_of_rowAt hm, hmember⟩, hne⟩

theorem ParameterDefinition.offers_of_checkList {d : ParameterDefinition} {u : Unit}
    (h : ParameterDefinition.checkList s d = .ok u) :
    ∀ list, d.parameterValueListId = some list → s.contains .valueList list = true ∧
      ∀ text, d.defaultValue = some text → s.offers list text = true := by
  intro list hlist
  simp only [ParameterDefinition.checkList, hlist, bind_eq_ok_iff] at h
  rcases h with ⟨l, hl, h⟩
  refine ⟨Snapshot.contains_of_rowAt hl, fun text htext => ?_⟩
  simp only [htext, refuseIf_eq_ok_iff] at h
  simpa using h

theorem ParameterDefinition.valid_of_validate {d d' : ParameterDefinition}
    (h : ParameterDefinition.validate s d = .ok d') :
    d' = d ∧ Row.Valid s .parameterDefinition d' := by
  simp only [ParameterDefinition.validate, bind_eq_ok_iff, pure_eq_ok_iff, refuseIf_eq_ok_iff,
    requireText] at h
  rcases h with ⟨owner, howner, _, _, _, _, _, hname, _, hlist, rfl⟩
  exact ⟨rfl, Snapshot.contains_of_rowAt howner, hname,
    ParameterDefinition.offers_of_checkList hlist⟩

theorem ParameterValue.contains_of_alternativeOf {v : ParameterValue} {i : Id}
    (h : ParameterValue.alternativeOf s v = .ok i) : s.contains .alternative i = true := by
  unfold ParameterValue.alternativeOf at h
  split at h
  next =>
    simp only [bind_eq_ok_iff, pure_eq_ok_iff] at h
    rcases h with ⟨a, ha, rfl⟩
    exact Snapshot.contains_of_find? (Snapshot.find?_of_firstWhere ha)
  next =>
    simp only [bind_eq_ok_iff, pure_eq_ok_iff] at h
    rcases h with ⟨a, ha, rfl⟩
    exact Snapshot.contains_of_rowAt ha

theorem ParameterValue.valid_of_validate {v v' : ParameterValue}
    (h : ParameterValue.validate s v = .ok v') :
    v'.id = v.id ∧ v'.parameterDefinitionId = v.parameterDefinitionId ∧
      Row.Valid s .parameterValue v' := by
  simp only [ParameterValue.validate, bind_eq_ok_iff, pure_eq_ok_iff, refuseIf_eq_ok_iff,
    not_not] at h
  rcases h with ⟨d, hd, e, he, _, _, _, _, _, hclass, i, hi, _, hlist, rfl⟩
  refine ⟨rfl, rfl, ParameterValue.contains_of_alternativeOf hi,
    ⟨e, Snapshot.find?_of_rowAt he, rfl⟩, d, Snapshot.find?_of_rowAt hd, hclass.symm, ?_⟩
  intro list hlist'
  simpa [hlist'] using hlist

theorem Feature.valid_of_validate {f f' : Feature} (h : Feature.validate s f = .ok f') :
    f'.id = f.id ∧ Row.Valid s .feature f' := by
  simp only [Feature.validate, bind_eq_ok_iff] at h
  rcases h with ⟨d, hd, h⟩
  split at h
  next => cases h
  next list hlist =>
    obtain rfl := Except.ok.inj h
    exact ⟨rfl, d, Snapshot.find?_of_rowAt hd, hlist⟩

theorem ListValue.valid_of_validate {v v' : ListValue} (h : ListValue.validate s v = .ok v') :
    v' = v ∧ Row.Valid s .listValue v' := by
  simp only [ListValue.validate, bind_eq_ok_iff, pure_eq_ok_iff, refuseIf_eq_ok_iff] at h
  rcases h with ⟨l, hl, _, hindex, rfl⟩
  exact ⟨rfl, Snapshot.contains_of_rowAt hl, Int.not_lt.1 hindex⟩

theorem ScenarioAlternative.valid_of_validate {a a' : ScenarioAlternative}
    (h : ScenarioAlternative.validate s a = .ok a') :
    a' = a ∧ Row.Valid s .scenarioAlternative a' := by
  simp only [ScenarioAlternative.validate, bind_eq_ok_iff, pure_eq_ok_iff,
    refuseIf_eq_ok_iff] at h
  rcases h with ⟨c, hc, b, hb, _, hrank, rfl⟩
  exact ⟨rfl, Snapshot.contains_of_rowAt hc, Snapshot.contains_of_rowAt hb, Int.not_lt.1 hrank⟩

theorem ToolFeatureMethod.valid_of_validate {m m' : ToolFeatureMethod}
    (h : ToolFeatureMethod.validate s m = .ok m') :
    m' = m ∧ Row.Valid s .toolFeatureMethod m' := by
  simp only [ToolFeatureMethod.validate, bind_eq_ok_iff, pure_eq_ok_iff, refuseIf_eq_ok_iff,
    Bool.not_eq_true, Bool.not_eq_false'] at h
  rcases h with ⟨t, ht, f, hf, _, hindex, rfl⟩
  exact ⟨rfl, t, f, Snapshot.find?_of_rowAt ht, Snapshot.find?_of_rowAt hf, hindex⟩

end Kinds

namespace Row
variable {s : Snapshot}

/-- A row that the rules let through keeps its id and is valid. -/
theorem valid_of_validate {k : Kind} {row row' : Row k} (h : Row.validate k s row = .ok row') :
    Row.id k row' = Row.id k row ∧ Row.Valid s k row' := by
  cases k with
  | entityClass =>
    rcases EntityClass.valid_of_validate h with ⟨rfl, hv⟩
    exact ⟨rfl, hv⟩
  | entity =>
    rcases Entity.valid_of_validate h with ⟨hid, _, hv⟩
    exact ⟨hid, hv⟩
  | entityGroup =>
    rcases EntityGroup.valid_of_validate h with ⟨rfl, hv⟩
    exact ⟨rfl, hv⟩
  | parameterDefinition =>
    rcases ParameterDefinition.valid_of_validate h with ⟨rfl, hv⟩
    exact ⟨rfl, hv⟩
  | parameterValue =>
    rcases ParameterValue.valid_of_validate h with ⟨hid, _, hv⟩
    exact ⟨hid, hv⟩
  | listValue =>
    rcases ListValue.valid_of_validate h with ⟨rfl, hv⟩
    exact ⟨rfl, hv⟩
  | scenarioAlternative =>
    rcases ScenarioAlternative.valid_of_validate h with ⟨rfl, hv⟩
    exact ⟨rfl, hv⟩
  | feature => exact Feature.valid_of_validate h
  | toolFeatureMethod =>
    rcases ToolFeatureMethod.valid_of_validate h with ⟨rfl, hv⟩
    exact ⟨rfl, hv⟩
  | valueList | alternative | scenario | parameterTag | tool | metadata =>
    simp only [validate, ValueList.validate, Alternative.validate, Scenario.validate,
      ParameterTag.validate, Tool.validate, Metadata.validate, bind_eq_ok_iff, pure_eq_ok_iff,
      requireText, refuseIf_eq_ok_iff] at h
    rcases h with ⟨_, hname, rfl⟩
    exact ⟨rfl, hname⟩
  | definitionTag | toolFeature | entityMetadata | valueMetadata =>
    simp only [validate, DefinitionTag.validate, ToolFeature.validate, EntityMetadata.validate,
      ValueMetadata.validate, bind_eq_ok_iff, pure_eq_ok_iff] at h
    rcases h with ⟨a, ha, b, hb, rfl⟩
    exact ⟨rfl, Snapshot.contains_of_rowAt ha, Snapshot.contains_of_rowAt hb⟩

theorem valid_withId {k : Kind} {i : Id} {row : Row k} :
    Row.Valid s k (Row.withId k i row) ↔ Row.Valid s k row := by
  cases k <;> exact Iff.rfl

theorem valid_stored {k : Kind} {row : Row k} :
    Row.Valid s k (Row.stored k row) ↔ Row.Valid s k row := by
  cases k <;> exact Iff.rfl

end Row

end EntityStore
