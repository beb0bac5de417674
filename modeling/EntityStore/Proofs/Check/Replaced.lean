import EntityStore.Proofs.Check.Fixed
import EntityStore.Proofs.Check.PlainTable
/-!
# What an update replaces

An accepted update replaces the row that stands under its id when its turn comes: the last one that
the updates before it have put there, or else the row of the snapshot
(`Snapshot.exists_revised_of_updateAnswers`). In whatever way the changes address a field, the
references that a row keeps for life are those of the row replaced, and the owner and the list of a
definition change only when nothing in the snapshot holds them.
-/
namespace EntityStore

section Standing
variable {s : Snapshot} {k : Kind}

/-- The row under an id when the first items of a batch of updates have been answered. -/
def Snapshot.standing? (s : Snapshot) (k : Kind) (changes : List Record) (n : Nat) (i : Id) :
    Option (Row k) :=
  (s.putRows k (Batch.accepted (s.updateAnswers k (changes.take n)))).find? k i

theorem rows_final (w : Working k) (changes : List Record) :
    (Batch.final (updateStep s k) w changes).rows =
      (Batch.accepted (Batch.outcomes (updateStep s k) w changes)).foldl Ascending.insert
        w.rows := by
  induction changes generalizing w with
  | nil => rfl
  | cons item items ih =>
    rw [Batch.accepted_outcomes_cons, List.foldl_append, ← Working.rows_updateStep]
    exact ih (updateStep s k w item).2

theorem standing?_eq (changes : List Record) (n : Nat) (i : Id) :
    s.standing? k changes n i =
      (Batch.final (updateStep s k) (.ofTable (s.table k)) (changes.take n)).rows.find? i := by
  rw [Snapshot.standing?, Snapshot.find?, Snapshot.table_putRows_self, rows_final]
  rfl

theorem revised_of_updateStep {w : Working k} {changes : Record} {after : Row k}
    (h : (updateStep s k w changes).1 = .ok after) :
    ∃ before, changes.int? "id" = some (Row.id k before) ∧
      w.rows.find? (Row.id k before) = some before ∧
      Row.revised s k before changes = .ok after := by
  unfold updateStep Working.target at h
  cases hid : changes.int? "id" with
  | none => simp [hid] at h
  | some i =>
    by_cases hi : i = pendingId
    · simp [hid, hi] at h
    · cases hbefore : w.rows.find? i with
      | none => simp [hid, hi, hbefore] at h
      | some before =>
        simp only [hid, if_neg hi, hbefore, Working.revise_eq] at h
        obtain rfl := Ascending.key_of_find? hbefore
        refine ⟨before, rfl, hbefore, ?_⟩
        cases hafter : Row.revised s k before changes with
        | error v => simp [hafter, bind, Except.bind] at h
        | ok row =>
          cases hunique : (w.remove before).taken.checkUnique k row with
          | error v => simp [hafter, hunique, bind, Except.bind] at h
          | ok => simpa [hafter, hunique, bind, Except.bind, pure, Except.pure] using h

/-- The update answered by a row is for the row that stands under its id, and revises that. -/
theorem Snapshot.exists_revised_of_updateAnswers {changes : List Record} {n : Nat} {after : Row k}
    (h : (s.updateAnswers k changes)[n]? = some (.ok after)) :
    ∃ item before, changes[n]? = some item ∧ item.int? "id" = some (Row.id k after) ∧
      s.standing? k changes n (Row.id k after) = some before ∧
      Row.revised s k before item = .ok after := by
  rw [Snapshot.updateAnswers, Batch.getElem?_outcomes, Option.map_eq_some_iff] at h
  obtain ⟨item, hitem, hanswer⟩ := h
  obtain ⟨before, hid, hbefore, hrevised⟩ := revised_of_updateStep hanswer
  rw [← Row.id_of_revised hrevised] at hid hbefore
  exact ⟨item, before, hitem, hid, by rw [standing?_eq, hbefore], hrevised⟩

theorem Row.revises_of_revised {before after : Row k} {changes : Record}
    (h : Row.revised s k before changes = .ok after) : Row.Revises s k before after := by
  simp only [Row.revised, bind_eq_ok_iff] at h
  obtain ⟨_, _, read, _, ⟨⟩, hfixed, hvalidate⟩ := h
  exact ⟨Row.withId k (Row.id k before) read, Row.id_withId k _ read, hfixed, hvalidate⟩

theorem Snapshot.checkUpdate_eq (hcomplete : s.isComplete = true) {changes : List Record} :
    s.checkUpdate k changes false = .ok (.ofOutcomes (s.updateAnswers k changes)) := by
  rw [checkUpdate, if_pos hcomplete]
  rfl

theorem Snapshot.accepted_eq_of_checkUpdate {changes : List Record} {strict : Bool}
    {checked : CheckResult k} (h : s.checkUpdate k changes strict = .ok checked) :
    checked.accepted = Batch.accepted (s.updateAnswers k changes) := by
  unfold Snapshot.checkUpdate at h
  split at h
  · exact accepted_checkBatch h
  · cases h

/-- What holds of the rows of the snapshot, and outlasts every revision, holds of the row under an
id at any point of a batch. -/
theorem Snapshot.holds_of_standing {P : Row k → Prop} (hcomplete : s.isComplete = true)
    (start : ∀ row ∈ s.rows k, P row)
    (step : ∀ before row, P before → Row.Revises s k before row → P row)
    {changes : List Record} {n : Nat} {i : Id} {row : Row k}
    (h : s.standing? k changes n i = some row) : P row := by
  rcases find?_putRows_cases h with ⟨haccepted, _⟩ | ⟨hthere, _⟩
  · apply accepted_of_checkUpdate start step (checkUpdate_eq hcomplete) row
    rwa [CheckResult.accepted_ofOutcomes]
  · exact start row (mem_rows_of_find? hthere)

end Standing

/-- What is fixed for a row is in `after` as it is in the row `before` that it replaces. A value
without an alternative is given one called `Base`. The owner of a definition differs only when no
value uses the definition and the new owner is of the other sort than an old one that exists; its
list only when no feature is made of it and a new list exists and offers each of its values. -/
def Row.KeepsFixed (s : Snapshot) : (k : Kind) → (before after : Row k) → Prop
  | .entityClass => fun before after => after.memberClassIds = before.memberClassIds
  | .entity => fun before after => after.classId = before.classId
  | .parameterDefinition => fun before after =>
    (after.entityClassId = before.entityClassId ∨
      (∀ v ∈ s.rows .parameterValue, v.parameterDefinitionId ≠ before.id) ∧
      ∃ new, s.find? .entityClass after.entityClassId = some new ∧
        ∀ old, s.find? .entityClass before.entityClassId = some old →
          old.isRelationshipClass ≠ new.isRelationshipClass) ∧
    (after.parameterValueListId = before.parameterValueListId ∨
      (∀ f ∈ s.rows .feature, f.parameterDefinitionId ≠ before.id) ∧
      ∀ list, after.parameterValueListId = some list → s.contains .valueList list = true ∧
        ∀ v ∈ s.rows .parameterValue, v.parameterDefinitionId = before.id →
          ∃ lv ∈ s.rows .listValue, lv.parameterValueListId = list ∧ lv.value = v.value)
  | .parameterValue => fun before after =>
    after.entityId = before.entityId ∧
    after.parameterDefinitionId = before.parameterDefinitionId ∧
    (before.alternativeId ≠ pendingId → after.alternativeId = before.alternativeId) ∧
    (before.alternativeId = pendingId →
      ∃ a ∈ s.rows .alternative, a.name = "Base" ∧ after.alternativeId = a.id)
  | .listValue => fun before after => after.parameterValueListId = before.parameterValueListId
  | .scenarioAlternative => fun before after => after.scenarioId = before.scenarioId
  | .entityGroup | .valueList | .alternative | .scenario | .parameterTag | .definitionTag
  | .feature | .tool | .toolFeature | .toolFeatureMethod | .metadata | .entityMetadata
  | .valueMetadata => fun _ _ => True

theorem Row.keepsFixed_of_revises {s : Snapshot} {k : Kind} {before after : Row k}
    (h : Row.Revises s k before after) : Row.KeepsFixed s k before after := by
  cases k with
  | entityClass => exact EntityClass.memberClassIds_of_revises h
  | entity => exact Entity.classId_of_revises h
  | parameterDefinition =>
    refine ⟨ParameterDefinition.owner_of_revises h,
      (ParameterDefinition.list_of_revises h).imp_right fun ⟨hfeature, hvalues⟩ => ?_⟩
    refine ⟨hfeature, fun list hlist => ⟨(h.valid.2.2 list hlist).1, fun v hv hid => ?_⟩⟩
    exact Snapshot.offers_iff.1 (hvalues list hlist v hv hid)
  | parameterValue => exact ParameterValue.of_revises h
  | listValue => exact (ListValue.of_revises h).1
  | scenarioAlternative => exact ScenarioAlternative.scenarioId_of_revises h
  | entityGroup | valueList | alternative | scenario | parameterTag | definitionTag | feature
  | tool | toolFeature | toolFeatureMethod | metadata | entityMetadata | valueMetadata =>
    trivial

namespace Snapshot

/-- Every update that a check accepts keeps what is fixed for the row that it replaces. -/
theorem updateAnswers_keepFixed {s : Snapshot} {k : Kind} (hcomplete : s.isComplete = true)
    (changes : List Record) :
    s.checkUpdate k changes false = .ok (.ofOutcomes (s.updateAnswers k changes)) ∧
      (∀ checked, s.checkUpdate k changes true = .ok checked →
        checked.accepted = Batch.accepted (s.updateAnswers k changes)) ∧
      ∀ n after, (s.updateAnswers k changes)[n]? = some (.ok after) →
        ∃ item before, changes[n]? = some item ∧ item.int? "id" = some (Row.id k after) ∧
          s.standing? k changes n (Row.id k after) = some before ∧
          Row.KeepsFixed s k before after := by
  refine ⟨checkUpdate_eq hcomplete, fun _ => accepted_eq_of_checkUpdate, ?_⟩
  intro n after hafter
  obtain ⟨item, before, hitem, hid, hbefore, hrevised⟩ := exists_revised_of_updateAnswers hafter
  exact ⟨item, before, hitem, hid, hbefore,
    Row.keepsFixed_of_revises (Row.revises_of_revised hrevised)⟩

/-- A definition of the tanks, and a list that it could be bound to. -/
def modeOfTanks : Snapshot :=
  (((empty.putRows .entityClass [⟨1, "tank", none, []⟩, ⟨2, "pipe", none, [1, 1]⟩]).putRows
    .parameterDefinition [⟨1, 1, "mode", none, none, none, .any⟩]).putRows
      .valueList [⟨1, "modes"⟩]).putRows .listValue [⟨1, 1, 0, "on"⟩]

/-- The definition goes to the pipes, under the name of the variant, and then gets its list by
name. -/
def moves : List Record :=
  [.ofFields [("id", some (.int 1)), ("relationship_class_id", some (.int 2))],
    .ofFields [("id", some (.int 1)), ("value_list_name", some (.text "modes"))]]

/-- Both moves are accepted. The second one replaces what the first one made, not the row of the
snapshot, and gives it a list that is there, while no feature is made of it. -/
theorem updateAnswers_modeOfTanks :
    modeOfTanks.isComplete = true ∧
      modeOfTanks.updateAnswers .parameterDefinition moves =
        [.ok ⟨1, 2, "mode", none, none, none, .relationship⟩,
          .ok ⟨1, 2, "mode", none, some 1, none, .any⟩] ∧
      modeOfTanks.standing? .parameterDefinition moves 1 1 =
        some ⟨1, 2, "mode", none, none, none, .relationship⟩ ∧
      Row.KeepsFixed modeOfTanks .parameterDefinition
        ⟨1, 2, "mode", none, none, none, .relationship⟩
        ⟨1, 2, "mode", none, some 1, none, .any⟩ := by
  have hanswers : modeOfTanks.updateAnswers .parameterDefinition moves =
      [.ok ⟨1, 2, "mode", none, none, none, .relationship⟩,
        .ok ⟨1, 2, "mode", none, some 1, none, .any⟩] := by decide
  have hstanding : modeOfTanks.standing? .parameterDefinition moves 1 1 =
      some ⟨1, 2, "mode", none, none, none, .relationship⟩ := by decide
  obtain ⟨_, _, hkeeps⟩ := updateAnswers_keepFixed (s := modeOfTanks) (k := .parameterDefinition)
    (by decide) moves
  obtain ⟨_, before, _, _, hbefore, hfixed⟩ :=
    hkeeps 1 ⟨1, 2, "mode", none, some 1, none, .any⟩ (by rw [hanswers]; rfl)
  obtain rfl := Option.some.inj (hbefore.symm.trans hstanding)
  exact ⟨by decide, hanswers, hstanding, hfixed⟩

/-- A value that was stored without an alternative, next to the base alternative. -/
def valueOfNoAlternative : Snapshot :=
  ((((empty.putRows .entityClass [⟨1, "tank", none, []⟩]).putRows .entity
    [⟨1, 1, "T1", none, []⟩]).putRows .parameterDefinition
      [⟨1, 1, "mode", none, none, none, .any⟩]).putRows .alternative
        [⟨1, "Base", none⟩]).putRows .parameterValue [⟨1, 1, 1, 1, pendingId, "on", .any⟩]

/-- The alternative of a value is not always kept: an update that says nothing of it gives one to a
value that has none. -/
theorem not_alternativeId_fixed :
    ¬ ∀ (s : Snapshot) (changes : List Record) (n : Nat) (before after : ParameterValue),
      s.isComplete = true →
      (s.updateAnswers .parameterValue changes)[n]? = some (.ok after) →
      s.standing? .parameterValue changes n after.id = some before →
      after.alternativeId = before.alternativeId := by
  intro h
  have hkept := h valueOfNoAlternative
    [.ofFields [("id", some (.int 1)), ("value", some (.text "off"))]] 0
    ⟨1, 1, 1, 1, pendingId, "on", .any⟩ ⟨1, 1, 1, 1, 1, "off", .any⟩
    (by decide) (by decide) (by decide)
  cases hkept

end Snapshot

end EntityStore
