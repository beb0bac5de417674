import EntityStore.Proofs.Check.Accepted
/-!
# What updates leave alone

The member classes of a class and the class of an entity stay what they are in every update. So do
the owner of a definition that has values and the list of a definition that a feature is made of;
a list value stays in its list. Fields that no single revision changes are unchanged by a whole
batch of updates, however often it comes back to a row (`Snapshot.fixed_of_checkUpdate`).
-/
namespace EntityStore

namespace Snapshot
variable {s : Snapshot} {k : Kind} {α : Type} {f : Row k → α} {Q : Id → Prop}

theorem fixed_of_checkUpdate
    (keep : ∀ before row, Q (Row.id k before) → Row.Revises s k before row → f row = f before)
    (hstored : ∀ row, f (Row.stored k row) = f row)
    {changes : List Record} {strict : Bool} {checked : CheckResult k}
    (check : s.checkUpdate k changes strict = .ok checked) {i : Id} (hQ : Q i) {a b : Row k}
    (ha : s.find? k i = some a)
    (hb : (s.putRows k (checked.accepted.map (Row.stored k))).find? k i = some b) : f b = f a := by
  rcases find?_putRows_cases hb with ⟨hmem, hid⟩ | ⟨hb, _⟩
  · rcases List.mem_map.1 hmem with ⟨row, hrow, rfl⟩
    have hfixed : Q (Row.id k row) → ∀ a, s.find? k (Row.id k row) = some a → f row = f a := by
      refine accepted_of_checkUpdate
        (P := fun row => Q (Row.id k row) → ∀ a, s.find? k (Row.id k row) = some a → f row = f a)
        ?_ ?_ check row hrow
      · intro row hrow _ a ha
        rw [mem_rows_iff.1 hrow] at ha
        rw [Option.some.inj ha]
      · intro before row hbefore hrevises hQ a ha
        rw [hrevises.id_eq] at hQ ha
        rw [keep before row hQ hrevises, hbefore hQ a ha]
    rw [Row.id_stored] at hid
    rw [← hid] at hQ ha
    rw [hstored, hfixed hQ a ha]
  · rw [ha] at hb
    rw [Option.some.inj hb]

/-- What holds of the row of an id, and outlasts every revision of a row with the id of which it
holds, holds of the row of the id after the update. -/
theorem holds_of_checkUpdate {P : Row k → Prop} {i : Id}
    (start : ∀ row, s.find? k i = some row → P row)
    (step : ∀ before row, Row.id k before = i → P before → Row.Revises s k before row → P row)
    (hstored : ∀ row, P row → P (Row.stored k row))
    {changes : List Record} {strict : Bool} {checked : CheckResult k}
    (check : s.checkUpdate k changes strict = .ok checked) {row : Row k}
    (h : (s.putRows k (checked.accepted.map (Row.stored k))).find? k i = some row) : P row := by
  rcases find?_putRows_cases h with ⟨hmem, hid⟩ | ⟨hthere, _⟩
  · rcases List.mem_map.1 hmem with ⟨accepted, haccepted, rfl⟩
    apply hstored
    have hholds : Row.id k accepted = i → P accepted := by
      refine accepted_of_checkUpdate (P := fun row => Row.id k row = i → P row) ?_ ?_ check
        accepted haccepted
      · intro row hrow hid
        exact start row (find?_eq_some_iff.2 ⟨hrow, hid⟩)
      · intro before row hbefore hrevises hid
        have hsame : Row.id k before = i := hrevises.id_eq.symm.trans hid
        exact step before row hsame (hbefore hsame) hrevises
    rw [Row.id_stored] at hid
    exact hholds hid
  · exact start row hthere

theorem findWhere_eq_none {p : Row k → Bool} (h : s.findWhere k p = none) :
    ∀ row ∈ s.rows k, p row = false :=
  fun row hrow => Bool.not_eq_true _ ▸ List.find?_eq_none.1 h row hrow

end Snapshot

section Kinds
variable {s : Snapshot}

theorem EntityClass.memberClassIds_of_revises {before c : EntityClass}
    (h : Row.Revises s .entityClass before c) : c.memberClassIds = before.memberClassIds := by
  rcases h with ⟨after, _, hfixed, hvalidate⟩
  rcases EntityClass.valid_of_validate hvalidate with ⟨rfl, _⟩
  have hsame : ¬ before.memberClassIds ≠ c.memberClassIds := refuseIf_eq_ok_iff.1 hfixed
  exact (not_not.1 hsame).symm

theorem Entity.classId_of_revises {before e : Entity} (h : Row.Revises s .entity before e) :
    e.classId = before.classId := by
  rcases h with ⟨after, _, hfixed, hvalidate⟩
  rcases Entity.valid_of_validate hvalidate with ⟨_, hclass, _⟩
  have hsame : ¬ before.classId ≠ after.classId := refuseIf_eq_ok_iff.1 hfixed
  rw [hclass, not_not.1 hsame]

namespace ParameterDefinition
variable {before d : ParameterDefinition}

theorem of_revises (h : Row.Revises s .parameterDefinition before d) :
    checkListChange s before d = .ok () ∧ checkOwnerChange s before d = .ok () := by
  rcases h with ⟨after, _, hfixed, hvalidate⟩
  rcases valid_of_validate hvalidate with ⟨rfl, _⟩
  rcases bind_eq_ok_iff.1 hfixed with ⟨⟨⟩, hlist, howner⟩
  exact ⟨hlist, howner⟩

/-- The owner of a definition changes only while it has no values, and only to a class of the other
sort than an owner that still exists. -/
theorem owner_of_revises (h : Row.Revises s .parameterDefinition before d) :
    d.entityClassId = before.entityClassId ∨
      (∀ v ∈ s.rows .parameterValue, v.parameterDefinitionId ≠ before.id) ∧
      ∃ new, s.find? .entityClass d.entityClassId = some new ∧
        ∀ old, s.find? .entityClass before.entityClassId = some old →
          old.isRelationshipClass ≠ new.isRelationshipClass := by
  have howner := (of_revises h).2
  unfold checkOwnerChange at howner
  split at howner
  next hsame => exact Or.inl hsame.symm
  next =>
    right
    simp only [bind_eq_ok_iff, refuseIf_eq_ok_iff] at howner
    rcases howner with ⟨new, hnew, _, hsort, hunused⟩
    refine ⟨fun v hv hid => hunused ?_, new, Snapshot.find?_of_rowAt hnew, fun old hold => ?_⟩
    · exact List.any_eq_true.2 ⟨v, hv, by simpa using hid⟩
    · simpa [hold] using hsort

theorem entityClassId_of_revises (h : Row.Revises s .parameterDefinition before d)
    (hv : ∃ v ∈ s.rows .parameterValue, v.parameterDefinitionId = before.id) :
    d.entityClassId = before.entityClassId := by
  rcases hv with ⟨v, hv, hid⟩
  exact (owner_of_revises h).resolve_right fun howner => howner.1 v hv hid

/-- The list of a definition changes only to one that offers the values of the definition, and not
while a feature is made of it. -/
theorem list_of_revises (h : Row.Revises s .parameterDefinition before d) :
    d.parameterValueListId = before.parameterValueListId ∨
      (∀ f ∈ s.rows .feature, f.parameterDefinitionId ≠ before.id) ∧
      ∀ list, d.parameterValueListId = some list →
        ∀ v ∈ s.rows .parameterValue, v.parameterDefinitionId = before.id →
          s.offers list v.value = true := by
  have hlist := (of_revises h).1
  unfold checkListChange at hlist
  split at hlist
  next hsame => exact Or.inl hsame.symm
  next =>
    right
    split at hlist
    next => cases hlist
    next hfeature =>
      constructor
      · intro f hf
        simpa using Snapshot.findWhere_eq_none hfeature f hf
      · intro list hd v hv hid
        rw [hd] at hlist
        simp only [bind_eq_ok_iff] at hlist
        rcases hlist with ⟨_, _, hlist⟩
        split at hlist
        next => cases hlist
        next hvalue => simpa [hid] using Snapshot.findWhere_eq_none hvalue v hv

end ParameterDefinition

theorem ListValue.of_revises {before v : ListValue} (h : Row.Revises s .listValue before v) :
    v.parameterValueListId = before.parameterValueListId ∧
      s.listUser before ∅ (before.value ≠ v.value) (before.valueIndex ≠ v.valueIndex) = none := by
  rcases h with ⟨after, _, hfixed, hvalidate⟩
  rcases ListValue.valid_of_validate hvalidate with ⟨rfl, _⟩
  rcases bind_eq_ok_iff.1 hfixed with ⟨⟨⟩, hlist, huser⟩
  have hsame : ¬ before.parameterValueListId ≠ v.parameterValueListId := refuseIf_eq_ok_iff.1 hlist
  refine ⟨(not_not.1 hsame).symm, ?_⟩
  dsimp only at huser
  split at huser
  next hnone => exact hnone
  next => cases huser

/-- A value keeps its entity, its definition and the alternative that it has; one without an
alternative takes one called `Base`. -/
theorem ParameterValue.of_revises {before v : ParameterValue}
    (h : Row.Revises s .parameterValue before v) :
    v.entityId = before.entityId ∧ v.parameterDefinitionId = before.parameterDefinitionId ∧
      (before.alternativeId ≠ pendingId → v.alternativeId = before.alternativeId) ∧
      (before.alternativeId = pendingId →
        ∃ a ∈ s.rows .alternative, a.name = "Base" ∧ v.alternativeId = a.id) := by
  rcases h with ⟨after, _, hfixed, hvalidate⟩
  simp only [Row.checkFixed, checkFixed, bind_eq_ok_iff, refuseIf_eq_ok_iff, not_not] at hfixed
  rcases hfixed with ⟨_, hentity, _, hdefinition, halternative⟩
  simp only [Row.validate, validate, bind_eq_ok_iff, pure_eq_ok_iff] at hvalidate
  rcases hvalidate with ⟨_, _, _, _, _, _, _, _, _, _, i, hi, _, _, rfl⟩
  refine ⟨hentity.symm, hdefinition.symm, fun hne => ?_, fun hpending => ?_⟩
  · rw [halternative] at hne ⊢
    rw [alternativeOf, if_neg hne] at hi
    simp only [bind_eq_ok_iff, pure_eq_ok_iff] at hi
    rcases hi with ⟨_, _, rfl⟩
    rfl
  · rw [halternative] at hpending
    rw [alternativeOf, if_pos hpending] at hi
    simp only [bind_eq_ok_iff, pure_eq_ok_iff] at hi
    rcases hi with ⟨a, ha, rfl⟩
    exact ⟨a, Snapshot.mem_rows_of_find? (Snapshot.find?_of_firstWhere ha),
      by simpa using Snapshot.of_firstWhere ha, rfl⟩

theorem ScenarioAlternative.scenarioId_of_revises {before a : ScenarioAlternative}
    (h : Row.Revises s .scenarioAlternative before a) : a.scenarioId = before.scenarioId := by
  rcases h with ⟨after, _, hfixed, hvalidate⟩
  rcases ScenarioAlternative.valid_of_validate hvalidate with ⟨rfl, _⟩
  have hsame : ¬ before.scenarioId ≠ a.scenarioId := refuseIf_eq_ok_iff.1 hfixed
  exact (not_not.1 hsame).symm

end Kinds

end EntityStore
