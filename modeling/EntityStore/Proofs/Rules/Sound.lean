import EntityStore.Proofs.Check.Keys
import EntityStore.Proofs.Rules.Frame
/-!
# Sound snapshots

A snapshot is sound when all its rows keep the rules of their kinds against it, have ids of their
own and share no key (`Snapshot.Sound`). The rules let every row of a sound snapshot through as it
is (`Snapshot.Sound.validate_stored`), so soundness can be decided; and no row differs from itself
in what is fixed (`Row.checkFixed_self`).
-/
namespace EntityStore

/-- All rows keep the rules of their kinds, down to the names of relationships. -/
structure Snapshot.Sound (s : Snapshot) : Prop where
  ids : ∀ k, ∀ row ∈ s.rows k, Row.id k row ≠ pendingId
  keys : s.KeysDiffer
  valid : ∀ k, ∀ row ∈ s.rows k, Row.Valid s k row
  named : ∀ e ∈ s.rows .entity, e.name ≠ ""

section Lookup
variable {s : Snapshot} {k : Kind}

theorem Snapshot.rowAt_of_find? {i : Id} {row : Row k} (h : s.find? k i = some row)
    (field role : String) : s.rowAt k i field role = .ok row := by
  rw [rowAt, h]

theorem Snapshot.exists_rowAt {i : Id} (h : s.contains k i = true) (field role : String) :
    ∃ row, s.rowAt k i field role = .ok row :=
  (contains_iff.1 h).imp fun _ hrow => rowAt_of_find? hrow field role

end Lookup

section Kinds
variable {s : Snapshot}

theorem EntityClass.validate_of_valid {c : EntityClass} (h : Row.Valid s .entityClass c) :
    validate s c = .ok c := by
  simp only [validate, requireText, bind_eq_ok_iff, refuseIf_eq_ok_iff]
  refine ⟨(), h.1, (), forM_eq_ok_of_forall fun member hmember => ?_, rfl⟩
  obtain ⟨m, hm, hobject⟩ := h.2 member hmember
  simp only [requireObjectClass, bind_eq_ok_iff, refuseIf_eq_ok_iff]
  exact ⟨m, Snapshot.rowAt_of_find? hm _ _, by simp [isRelationshipClass, hobject]⟩

theorem Entity.exists_memberNames {members classes : List Id} (h : s.MembersOf members classes)
    (position : Nat) : ∃ names, memberNames s position members classes = .ok names := by
  induction h generalizing position with
  | nil => exact ⟨[], rfl⟩
  | cons hfirst _ ih =>
    obtain ⟨m, hm, hclass⟩ := hfirst
    obtain ⟨names, hnames⟩ := ih (position + 1)
    refine ⟨m.name :: names, ?_⟩
    simp only [memberNames, bind_eq_ok_iff, refuseIf_eq_ok_iff]
    exact ⟨m, Snapshot.rowAt_of_find? hm _ _, (), not_not.2 hclass, names, hnames, rfl⟩

theorem Entity.validate_of_valid {e : Entity} (h : Row.Valid s .entity e) (hname : e.name ≠ "") :
    validate s e = .ok e := by
  obtain ⟨c, hc, ⟨hobject, hmembers, _⟩ | ⟨hrelationship, hmembers⟩⟩ := h
  · have hsort : c.isRelationshipClass = false := by simp [EntityClass.isRelationshipClass, hobject]
    refine bind_eq_ok_iff.2 ⟨c, Snapshot.rowAt_of_find? hc _ _, ?_⟩
    rw [if_neg (by simp [hsort])]
    refine bind_eq_ok_iff.2 ⟨(), ?_, bind_eq_ok_iff.2 ⟨(), ?_, rfl⟩⟩
    · exact refuseIf_eq_ok_iff.2 (by simp [isRelationship, hmembers])
    · exact refuseIf_eq_ok_iff.2 hname
  · have hsort : c.isRelationshipClass = true := by
      simpa [EntityClass.isRelationshipClass] using hrelationship
    obtain ⟨names, hnames⟩ := exists_memberNames hmembers 1
    refine bind_eq_ok_iff.2 ⟨c, Snapshot.rowAt_of_find? hc _ _, ?_⟩
    rw [if_pos hsort]
    refine bind_eq_ok_iff.2 ⟨(), ?_, bind_eq_ok_iff.2 ⟨names, hnames, ?_⟩⟩
    · exact refuseIf_eq_ok_iff.2 (not_not.2 hmembers.length_eq)
    · rw [if_neg hname]
      rfl

theorem EntityGroup.validate_of_valid {g : EntityGroup} (h : Row.Valid s .entityGroup g) :
    validate s g = .ok g := by
  obtain ⟨hclass, ⟨e, he, hentity⟩, ⟨m, hm, hmember⟩, hne⟩ := h
  obtain ⟨c, hc⟩ := Snapshot.exists_rowAt hclass "entity_class_id" "Entity class"
  simp only [validate, bind_eq_ok_iff, refuseIf_eq_ok_iff, not_not]
  exact ⟨c, hc, e, Snapshot.rowAt_of_find? he _ _, m, Snapshot.rowAt_of_find? hm _ _, (), hentity,
    (), hmember, (), hne, rfl⟩

theorem ParameterDefinition.checkList_of_valid {d : ParameterDefinition}
    (h : Row.Valid s .parameterDefinition d) : checkList s d = .ok () := by
  cases hlist : d.parameterValueListId with
  | none => simp only [checkList, hlist]
  | some list =>
    obtain ⟨hcontains, hoffers⟩ := h.2.2 list hlist
    simp only [checkList, hlist, bind_eq_ok_iff]
    obtain ⟨l, hl⟩ := Snapshot.exists_rowAt hcontains "parameter_value_list_id" "Value list"
    refine ⟨l, hl, ?_⟩
    cases hdefault : d.defaultValue with
    | none => rfl
    | some text => exact refuseIf_eq_ok_iff.2 (by simp [hoffers text hdefault])

theorem ParameterDefinition.validate_of_valid {d : ParameterDefinition}
    (h : Row.Valid s .parameterDefinition d) (hvariant : d.ownerVariant = .any) :
    validate s d = .ok d := by
  obtain ⟨owner, howner⟩ := Snapshot.exists_rowAt h.1 "entity_class_id" "Entity class"
  simp only [validate, requireText, bind_eq_ok_iff, refuseIf_eq_ok_iff]
  exact ⟨owner, howner, (), by simp [hvariant], (), by simp [hvariant], (), h.2.1, (),
    checkList_of_valid h, rfl⟩

theorem ParameterValue.validate_of_valid {v : ParameterValue} (h : Row.Valid s .parameterValue v)
    (hvariant : v.entityVariant = .any) (halternative : v.alternativeId ≠ pendingId) :
    validate s v = .ok v := by
  obtain ⟨hcontains, ⟨e, he, hclass⟩, d, hd, hdefinition, hlist⟩ := h
  obtain ⟨a, ha⟩ := Snapshot.exists_rowAt hcontains "alternative_id" "Alternative"
  simp only [validate, bind_eq_ok_iff, refuseIf_eq_ok_iff, not_not]
  refine ⟨d, Snapshot.rowAt_of_find? hd _ _, e, Snapshot.rowAt_of_find? he _ _, (),
    by simp [hvariant], (), by simp [hvariant], (), hclass.trans hdefinition.symm,
    v.alternativeId, ?_, (), ?_, ?_⟩
  · rw [alternativeOf, if_neg halternative]
    exact bind_eq_ok_iff.2 ⟨a, ha, rfl⟩
  · cases hbound : d.parameterValueListId with
    | none => simp
    | some list => simp [hlist list hbound]
  · rw [hclass]
    rfl

theorem ListValue.validate_of_valid {v : ListValue} (h : Row.Valid s .listValue v) :
    validate s v = .ok v := by
  obtain ⟨l, hl⟩ := Snapshot.exists_rowAt h.1 "parameter_value_list_id" "Value list"
  simp only [validate, bind_eq_ok_iff, refuseIf_eq_ok_iff]
  exact ⟨l, hl, (), Int.not_lt.2 h.2, rfl⟩

theorem ScenarioAlternative.validate_of_valid {a : ScenarioAlternative}
    (h : Row.Valid s .scenarioAlternative a) : validate s a = .ok a := by
  obtain ⟨c, hc⟩ := Snapshot.exists_rowAt h.1 "scenario_id" "Scenario"
  obtain ⟨b, hb⟩ := Snapshot.exists_rowAt h.2.1 "alternative_id" "Alternative"
  simp only [validate, bind_eq_ok_iff, refuseIf_eq_ok_iff]
  exact ⟨c, hc, b, hb, (), Int.not_lt.2 h.2.2, rfl⟩

theorem Feature.validate_of_valid {f : Feature} (h : Row.Valid s .feature f) :
    validate s f = .ok f := by
  obtain ⟨d, hd, hlist⟩ := h
  simp only [validate, bind_eq_ok_iff]
  refine ⟨d, Snapshot.rowAt_of_find? hd _ _, ?_⟩
  rw [hlist]
  rfl

theorem ToolFeatureMethod.validate_of_valid {m : ToolFeatureMethod}
    (h : Row.Valid s .toolFeatureMethod m) : validate s m = .ok m := by
  obtain ⟨t, f, ht, hf, hindex⟩ := h
  simp only [validate, bind_eq_ok_iff, refuseIf_eq_ok_iff]
  exact ⟨t, Snapshot.rowAt_of_find? ht _ _, f, Snapshot.rowAt_of_find? hf _ _, (), by simp [hindex],
    rfl⟩

end Kinds

theorem Snapshot.Sound.alternativeId_ne {s : Snapshot} (h : s.Sound) {v : ParameterValue}
    (hvalid : Row.Valid s .parameterValue v) : v.alternativeId ≠ pendingId := by
  obtain ⟨a, ha⟩ := contains_iff.1 hvalid.1
  rw [← id_of_find? ha]
  exact h.ids .alternative a (mem_rows_of_find? ha)

/-- The rules let the rows of a sound snapshot through as they are. -/
theorem Snapshot.Sound.validate_stored {s : Snapshot} (h : s.Sound) {k : Kind} {row : Row k}
    (hrow : row ∈ s.rows k) : Row.validate k s (Row.stored k row) = .ok (Row.stored k row) := by
  have hvalid : Row.Valid s k (Row.stored k row) := Row.valid_stored.2 (h.valid k row hrow)
  cases k with
  | entityClass => exact EntityClass.validate_of_valid hvalid
  | entity => exact Entity.validate_of_valid hvalid (h.named row hrow)
  | entityGroup => exact EntityGroup.validate_of_valid hvalid
  | parameterDefinition => exact ParameterDefinition.validate_of_valid hvalid rfl
  | parameterValue =>
    exact ParameterValue.validate_of_valid hvalid rfl (h.alternativeId_ne hvalid)
  | listValue => exact ListValue.validate_of_valid hvalid
  | scenarioAlternative => exact ScenarioAlternative.validate_of_valid hvalid
  | feature => exact Feature.validate_of_valid hvalid
  | toolFeatureMethod => exact ToolFeatureMethod.validate_of_valid hvalid
  | definitionTag | toolFeature | entityMetadata | valueMetadata =>
    obtain ⟨a, ha⟩ := contains_iff.1 hvalid.1
    obtain ⟨b, hb⟩ := contains_iff.1 hvalid.2
    exact bind_eq_ok_iff.2 ⟨a, rowAt_of_find? ha _ _,
      bind_eq_ok_iff.2 ⟨b, rowAt_of_find? hb _ _, rfl⟩⟩
  | valueList | alternative | scenario | parameterTag | tool | metadata =>
    exact bind_eq_ok_iff.2 ⟨(), refuseIf_eq_ok_iff.2 hvalid, rfl⟩

theorem Snapshot.sound_iff {s : Snapshot} : s.Sound ↔
    (∀ k ∈ Kind.all, ∀ row ∈ s.rows k, Row.id k row ≠ pendingId ∧
      Row.validate k s (Row.stored k row) = .ok (Row.stored k row)) ∧
    s.KeysDiffer ∧ ∀ e ∈ s.rows .entity, e.name ≠ "" := by
  constructor
  · intro h
    exact ⟨fun k _ row hrow => ⟨h.ids k row hrow, h.validate_stored hrow⟩, h.keys, h.named⟩
  · rintro ⟨hrows, hkeys, hnamed⟩
    refine ⟨fun k row hrow => (hrows k (Kind.mem_all k) row hrow).1, hkeys, fun k row hrow => ?_,
      hnamed⟩
    exact Row.valid_stored.1 (Row.valid_of_validate (hrows k (Kind.mem_all k) row hrow).2).2

instance (s : Snapshot) : Decidable s.Sound := decidable_of_iff _ Snapshot.sound_iff.symm

theorem Row.checkFixed_self {k : Kind} (s : Snapshot) (row : Row k) :
    checkFixed k s row row = .ok () := by
  cases k with
  | entityClass | entity | scenarioAlternative => exact refuseIf_eq_ok_iff.2 (not_not.2 rfl)
  | parameterDefinition =>
    refine bind_eq_ok_iff.2 ⟨(), ?_, ?_⟩
    · exact if_pos rfl
    · exact if_pos rfl
  | parameterValue =>
    exact bind_eq_ok_iff.2 ⟨(), refuseIf_eq_ok_iff.2 (not_not.2 rfl),
      bind_eq_ok_iff.2 ⟨(), refuseIf_eq_ok_iff.2 (not_not.2 rfl),
        refuseIf_eq_ok_iff.2 (not_not.2 rfl)⟩⟩
  | listValue =>
    have huser : s.listUser row ∅ (decide (row.value ≠ row.value))
        (decide (row.valueIndex ≠ row.valueIndex)) = none := by simp [Snapshot.listUser]
    refine bind_eq_ok_iff.2 ⟨(), refuseIf_eq_ok_iff.2 (not_not.2 rfl), ?_⟩
    simp only [huser, pure, Except.pure]
  | _ => rfl

end EntityStore
