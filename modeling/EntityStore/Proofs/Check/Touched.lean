import EntityStore.Proofs.Check.Replaced
import EntityStore.Proofs.Check.Resubmission
import EntityStore.Proofs.Rules.Completion
/-!
# What updates touch

An update touches the fields that it addresses: under their own names, under the name of a variant,
or by a name reference that leads to them (`Row.Addresses`). `Row.Updates` says what becomes of
every field of the row. It holds of every update that is accepted against a sound snapshot, with
respect to the row that stood under the id at that point of the batch
(`Snapshot.updateAnswers_updates`).
-/
namespace EntityStore

namespace Row

/-- The changes give the value of a field under the name of a variant, or name the row whose id it
holds. -/
def Redirects (k : Kind) (changes : Record) (f : String) : Prop :=
  (∃ c ∈ columns k, c.field = f ∧ ∃ g ∈ c.variants, changes.has g = true) ∨
    ∃ ref ∈ nameReferences k, ref.target = f ∧ ref.Given changes

/-- The changes say something of a field, in whatever way. -/
def Addresses (k : Kind) (changes : Record) (f : String) : Prop :=
  changes.get? f ≠ none ∨ Redirects k changes f

/-- The value of a field is computed, whatever the changes say: the class of a value, the list of a
feature, and the name of an entity that is emptied. -/
def Computes : Kind → Record → String → Prop
  | .entity, changes, f =>
    f = "name" ∧ (changes.get? "name" = some .null ∨ changes.get? "name" = some (.text ""))
  | .parameterValue, _, f => f = "entity_class_id"
  | .feature, _, f => f = "parameter_value_list_id"
  | _, _, _ => False

/-- What is computed of a row has the value that it should have. -/
def Computed (s : Snapshot) : (k : Kind) → Record → Row k → Prop
  | .entity => fun changes e =>
    Computes .entity changes "name" → Entity.NamedAfterMembers s e
  | .parameterValue => fun _ v => ∃ e, s.find? .entity v.entityId = some e ∧
    v.entityClassId = e.classId
  | .feature => fun _ f => ∃ d, s.find? .parameterDefinition f.parameterDefinitionId = some d ∧
    d.parameterValueListId = some f.parameterValueListId
  | _ => fun _ _ => True

/-- `Row.Updates s k before changes after`: the changes make the row `after` of the row `before`. -/
structure Updates (s : Snapshot) (k : Kind) (before : Row k) (changes : Record) (after : Row k) :
    Prop where
  id_eq : Row.id k after = Row.id k before
  /-- What is not addressed is kept. The list of a feature goes with its definition. -/
  kept : ∀ f, ¬Addresses k changes f →
    (k = .feature → f = "parameter_value_list_id" →
      ¬Addresses k changes "parameter_definition_id") →
    (toRecord k after).get? f = (toRecord k before).get? f
  /-- What is addressed by its own name only is what is stored of the value given. -/
  given : ∀ c ∈ columns k, changes.get? c.field ≠ none → ¬Redirects k changes c.field →
    ¬Computes k changes c.field →
    (toRecord k after).get? c.field = c.form.stored (changes.given? c.field)
  /-- The value given under the name of a variant takes the place of the plain one. -/
  variant : ∀ c ∈ columns k, ∀ g ∈ c.variants, ∀ v, changes.given? g = some v →
    (toRecord k after).get? c.field = c.form.stored (some v)
  /-- The id of what is named is set, over an id given beside the name. -/
  named : ∀ c ∈ columns k, ∀ ref ∈ nameReferences k, ref.target = c.field → ref.Given changes →
    ¬Computes k changes c.field →
    ∃ v, ref.Names s ((toRecord k before).union changes) v ∧
      (toRecord k after).get? c.field = c.form.stored (some v)
  computed : Computed s k changes after

/-- A row that is not an entity, or is one that has a name. -/
def Named : (k : Kind) → Row k → Prop
  | .entity => fun e => e.name ≠ ""
  | _ => fun _ => True

theorem named_of_mem {s : Snapshot} (hsound : s.Sound) {k : Kind} {row : Row k}
    (hrow : row ∈ s.rows k) : Named k row := by
  cases k with
  | entity => exact hsound.named row hrow
  | _ => trivial

theorem Revises.named {s : Snapshot} {k : Kind} {before after : Row k}
    (h : Revises s k before after) : Named k after := by
  obtain ⟨_, _, _, hvalidate⟩ := h
  cases k with
  | entity => exact Entity.name_ne_of_validate hvalidate
  | _ => trivial

section Merge
variable {k : Kind} {before : Row k} {changes : Record}

theorem variant_notMem {c : Column} (hc : c ∈ columns k) {g : String} (hg : g ∈ c.variants) :
    g ∉ "id" :: fields k ∧ g ∉ (nameReferences k).map NameReference.target := by
  revert c g
  cases k <;> decide

theorem nameField_notMem {f : String} (hf : f ∈ Record.nameFields) :
    f ∉ "id" :: fields k ∧ ∀ group ∈ [ReferenceFields.owner, .subject], f ∉ group.names := by
  revert f
  cases k <;> decide

theorem given?_overlay_of_name {f : String} (hf : f ∈ Record.nameFields) :
    ((toRecord k before).overlay changes).given? f = changes.given? f := by
  rw [Record.given?, Record.get?_overlay, get?_toRecord_eq_none before (nameField_notMem hf).1,
    ite_self, Option.or_none, Record.given?]

theorem given_overlay_iff {ref : NameReference} :
    ref.Given ((toRecord k before).overlay changes) ↔ ref.Given changes := by
  unfold NameReference.Given Record.has
  refine exists_congr fun f => and_congr_right fun hf => ?_
  rw [given?_overlay_of_name (ref.fields_subset hf)]

/-- Laying changes over a record takes nothing but other names of a reference away. -/
theorem sameNames_union : ((toRecord k before).overlay changes).SameNames
    ((toRecord k before).union changes) := by
  constructor
  · intro f hf
    rw [given?_overlay_of_name hf, Record.given?, SortedMap.get?_union,
      get?_toRecord_eq_none before (nameField_notMem hf).1, Option.or_none, Record.given?]
  · intro scope _ _ i hi
    have hget : ((toRecord k before).overlay changes).get? scope.2 = some (.int i) := by
      unfold Record.int? at hi
      split at hi <;> simp_all
    apply Record.int?_of_get?
    rw [Record.get?_overlay] at hget
    rw [SortedMap.get?_union]
    cases hchanged : changes.get? scope.2 with
    | some v => simpa [hchanged] using hget
    | none =>
      rw [hchanged, Option.none_or] at hget
      split at hget
      next => cases hget
      next => rw [Option.none_or, hget]

variable {s : Snapshot} {resolved : Record}
  (h : Record.Filled (fields k) s ((toRecord k before).overlay changes) (nameReferences k) resolved)
  {c : Column} (hc : c ∈ columns k)
include h

theorem get?_resolved {f : String}
    (hf : ∀ ref ∈ nameReferences k, ref.target = f → ¬ref.Given changes) :
    resolved.get? f = ((toRecord k before).overlay changes).get? f :=
  h.kept f fun ref href hgiven hsame => hf ref href hsame.symm (given_overlay_iff.1 hgiven)

include hc

theorem given?_resolved_of_variant {g : String} (hg : g ∈ c.variants) :
    resolved.given? g = changes.given? g := by
  obtain ⟨hstored, htarget⟩ := variant_notMem hc hg
  rw [Record.given?, get?_resolved h fun ref href hsame =>
    absurd (List.mem_map.2 ⟨ref, href, hsame⟩) htarget, Record.get?_overlay,
    get?_toRecord_eq_none before hstored, ite_self, Option.or_none, Record.given?]

theorem given?_resolved_of_not_redirects (hredirects : ¬Redirects k changes c.field) :
    c.given? resolved = ((toRecord k before).overlay changes).given? c.field := by
  rw [Column.given?_of_variants, Record.given?, get?_resolved h, Record.given?]
  · exact fun ref href hsame hgiven => hredirects (Or.inr ⟨ref, href, hsame, hgiven⟩)
  · intro g hg
    rw [given?_resolved_of_variant h hc hg]
    by_contra hgiven
    exact hredirects (Or.inl ⟨c, hc, rfl, g, hg, Option.isSome_iff_ne_none.2 hgiven⟩)

end Merge

theorem read_eq_ok_iff {k : Kind} {r : Record} {row : Row k} :
    read k r = .ok row ↔ ofRecord k r = .ok row := by
  unfold read
  cases ofRecord k r <;> simp [Except.mapError]

theorem name_eq_iff_computes {s : Snapshot} {before row : Entity} {changes resolved : Record}
    (h : Record.Filled (fields .entity) s ((toRecord .entity before).overlay changes)
      (nameReferences .entity) resolved)
    (hnamed : before.name ≠ "") (hread : ofRecord .entity resolved = .ok row) :
    row.name = "" ↔ Computes .entity changes "name" := by
  have hplain : ∀ group ∈ [ReferenceFields.owner, .subject], "name" ∉ group.names := by decide
  have hget : resolved.get? "name" = (changes.get? "name").or (some (.text before.name)) := by
    rw [get?_resolved h fun ref href hname =>
      absurd (List.mem_map.2 ⟨ref, href, hname⟩) (by decide), Record.get?_overlay, if_neg]
    · simp [toRecord, Entity.toRecord, Record.get?_ofFields]
    · intro hgave
      obtain ⟨group, hgroup, hmem, _⟩ := Record.gaveWay_eq_true_iff.1 hgave
      exact hplain group hgroup hmem
  have hreads := reads_of_ofRecord hread ⟨"name", .orElse (.text ""), []⟩ (by simp [columns])
  have hname : .text row.name = (resolved.given? "name").getD (.text "") := by
    have hstored := hreads.stored
    rw [Column.given?_of_variants (by simp)] at hstored
    simpa [toRecord, Entity.toRecord, Record.get?_ofFields, Column.Form.stored] using hstored
  rw [Record.given?, hget] at hname
  cases hchanged : changes.get? "name" with
  | none =>
    have hsame : row.name = before.name := by
      simpa [hchanged, Option.filter, Field.isNull] using hname
    simp [hsame, hnamed, Computes, hchanged]
  | some v =>
    rw [hchanged, Option.some_or] at hname
    cases v <;> simp_all [Option.filter, Field.isNull, Computes]

theorem notMem_completed {s : Snapshot} {k : Kind} (hsound : s.Sound) {before row : Row k}
    (hvalid : Row.Valid s k before) (hnamed : Named k before) {changes resolved : Record}
    (h : Record.Filled (fields k) s ((toRecord k before).overlay changes) (nameReferences k)
      resolved)
    (hread : ofRecord k resolved = .ok row) {i : Id}
    (hfixed : checkFixed k s before (withId k i row) = .ok ()) {f : String}
    (hf : ¬Computes k changes f) : f ∉ completed k (withId k i row) := by
  cases k with
  | entity =>
    intro hmem
    by_cases hempty : row.name = ""
    · have hname : f = "name" := by simpa [completed, withId, hempty] using hmem
      exact hf (hname ▸ (name_eq_iff_computes h hnamed hread).1 hempty)
    · simp [completed, withId, hempty] at hmem
  | parameterValue =>
    simp only [checkFixed, ParameterValue.checkFixed, bind_eq_ok_iff, refuseIf_eq_ok_iff, not_not]
      at hfixed
    obtain ⟨_, _, _, _, halternative⟩ := hfixed
    have hne := hsound.alternativeId_ne hvalid
    rw [halternative] at hne
    intro hmem
    have hclass : f = "entity_class_id" := by simpa [completed, hne] using hmem
    exact hf hclass
  | feature => exact fun hmem => hf (List.mem_singleton.1 hmem)
  | _ => exact List.not_mem_nil

theorem exists_resolved {s : Snapshot} {k : Kind} (hsound : s.Sound) {before after : Row k}
    (hvalid : Row.Valid s k before) (hnamed : Named k before) {changes : Record}
    (h : revised s k before changes = .ok after) :
    ∃ resolved, Record.Filled (fields k) s ((toRecord k before).overlay changes) (nameReferences k)
        resolved ∧
      ∀ c ∈ columns k, ¬Computes k changes c.field →
        c.Reads resolved ((toRecord k after).get? c.field) := by
  simp only [revised, bind_eq_ok_iff, read_eq_ok_iff] at h
  obtain ⟨resolved, hresolved, row, hread, _, hfixed, hvalidate⟩ := h
  have hfilled := (fills_resolveNames k s _).filled resolved hresolved
  refine ⟨resolved, hfilled, fun c hc hcomputes => ?_⟩
  have hid : c.field ≠ "id" := fun hid =>
    (List.nodup_cons.1 (nodup_fields k)).1 (hid ▸ List.mem_map_of_mem hc)
  have hleft := notMem_completed hsound hvalid hnamed hfilled hread hfixed hcomputes
  rw [get?_toRecord_of_validate hvalidate hleft, get?_toRecord_withId _ _ hid]
  exact reads_of_ofRecord hread c hc

section Revised
variable {s : Snapshot} {k : Kind} {before after : Row k} {changes : Record}

theorem not_computes_of_variant {c : Column} (hc : c ∈ columns k) {g : String}
    (hg : g ∈ c.variants) : ¬Computes k changes c.field := by
  have hfield : k = .parameterDefinition ∨ k = .parameterValue ∧ c.field = "entity_id" := by
    revert c g
    cases k <;> decide
  rcases hfield with rfl | ⟨rfl, hentity⟩
  · exact not_false
  · simp [Computes, hentity]

theorem required_of_plain {c : Column} (hc : c ∈ columns k) {group : ReferenceFields}
    (hgroup : group ∈ [ReferenceFields.owner, .subject]) (hplain : c.field = group.plain)
    (hcomputes : ¬Computes k changes c.field) : c.form = .required := by
  have hform : c.form = .required ∨ k = .parameterValue ∧ c.field = "entity_class_id" := by
    clear hcomputes
    revert c group
    cases k <;> decide
  rcases hform with hform | ⟨rfl, hclass⟩
  · exact hform
  · exact absurd hclass hcomputes

theorem get?_toRecord_eq_stored (row : Row k) {c : Column} (hc : c ∈ columns k) :
    (toRecord k row).get? c.field = c.form.stored ((toRecord k row).given? c.field) := by
  have hreads := reads_of_ofRecord (ofRecord_toRecord k row) c hc
  have hgiven : c.given? (toRecord k row) = (toRecord k row).given? c.field := by
    refine Column.given?_of_variants fun g hg => ?_
    rw [Record.given?, get?_toRecord_eq_none row (variant_notMem hc hg).1]
    rfl
  rw [← hgiven, ← hreads.stored, toRecord_stored]

theorem computed_of_revised (hnamed : Named k before) (h : revised s k before changes = .ok after) :
    Computed s k changes after := by
  have hafter := (revises_of_revised h).valid
  cases k with
  | entity =>
    simp only [revised, bind_eq_ok_iff] at h
    obtain ⟨resolved, hresolved, row, hread, _, _, hvalidate⟩ := h
    intro hcomputes
    have hfilled := (fills_resolveNames .entity s _).filled resolved hresolved
    have hempty := (name_eq_iff_computes hfilled hnamed (read_eq_ok_iff.1 hread)).2 hcomputes
    obtain ⟨hname, _⟩ | ⟨_, _, hderived⟩ := Entity.cases_of_validate hvalidate
    · exact absurd hempty hname
    · exact hderived
  | parameterValue =>
    obtain ⟨_, ⟨e, he, hclass⟩, _⟩ := hafter
    exact ⟨e, he, hclass.symm⟩
  | feature => exact hafter
  | _ => trivial

variable (hsound : s.Sound) (hvalid : Row.Valid s k before) (hnamed : Named k before)
  (h : revised s k before changes = .ok after)
include hsound hvalid hnamed h

theorem kept_of_not_computes {c : Column} (hc : c ∈ columns k)
    (haddresses : ¬Addresses k changes c.field) (hcomputes : ¬Computes k changes c.field) :
    (toRecord k after).get? c.field = (toRecord k before).get? c.field := by
  obtain ⟨resolved, hfilled, hreads⟩ := exists_resolved hsound hvalid hnamed h
  obtain ⟨hchanged, hredirects⟩ := not_or.1 haddresses
  have hread := hreads c hc hcomputes
  have hgiven := given?_resolved_of_not_redirects hfilled hc hredirects
  rw [Record.given?, Record.get?_overlay, not_not.1 hchanged, Option.none_or] at hgiven
  have hstays : Record.gaveWay changes c.field = false := by
    by_contra hgave
    rw [Bool.not_eq_false] at hgave
    obtain ⟨group, hgroup, hmem, _⟩ := Record.gaveWay_eq_true_iff.1 hgave
    have hplain := eq_plain_of_mem (k := k) hgroup hmem
      (List.mem_cons_of_mem _ (List.mem_map_of_mem hc))
    refine hread.given (required_of_plain hc hgroup hplain hcomputes) ?_
    rw [hgiven, if_pos hgave]
    rfl
  rw [if_neg (by simp [hstays])] at hgiven
  rw [hread.stored, hgiven]
  exact (get?_toRecord_eq_stored before hc).symm

theorem kept_of_computes {f : String} (hcomputes : Computes k changes f)
    (haddresses : ¬Addresses k changes f)
    (hfeature : k = .feature → ¬Addresses k changes "parameter_definition_id") :
    (toRecord k after).get? f = (toRecord k before).get? f := by
  have hrevises := revises_of_revised h
  cases k with
  | entity =>
    obtain ⟨rfl, hgiven⟩ := hcomputes
    exact absurd (Or.inl (by rcases hgiven with hgiven | hgiven <;> simp [hgiven])) haddresses
  | parameterValue =>
    obtain ⟨_, ⟨e, he, hclass⟩, _⟩ := hvalid
    obtain ⟨_, ⟨e', he', hclass'⟩, _⟩ := hrevises.valid
    rw [(ParameterValue.of_revises hrevises).1, he] at he'
    obtain rfl := Option.some.inj he'
    have hsame : after.entityClassId = before.entityClassId := hclass'.symm.trans hclass
    obtain rfl : f = "entity_class_id" := hcomputes
    simp [toRecord, ParameterValue.toRecord, Record.get?_ofFields, hsame]
  | feature =>
    have hdefinition := kept_of_not_computes hsound hvalid hnamed h
      (c := ⟨"parameter_definition_id", .required, []⟩) (by simp [columns]) (hfeature rfl)
      (by simp [Computes])
    have hsame : after.parameterDefinitionId = before.parameterDefinitionId := by
      simpa [toRecord, Feature.toRecord, Record.get?_ofFields] using hdefinition
    obtain ⟨d, hd, hlist⟩ := hvalid
    obtain ⟨d', hd', hlist'⟩ := hrevises.valid
    rw [hsame, hd] at hd'
    obtain rfl := Option.some.inj hd'
    have hlists : after.parameterValueListId = before.parameterValueListId :=
      Option.some.inj (hlist'.symm.trans hlist)
    obtain rfl : f = "parameter_value_list_id" := hcomputes
    simp [toRecord, Feature.toRecord, Record.get?_ofFields, hlists]
  | _ => exact hcomputes.elim

theorem kept_of_revised {f : String} (haddresses : ¬Addresses k changes f)
    (hfeature : k = .feature → f = "parameter_value_list_id" →
      ¬Addresses k changes "parameter_definition_id") :
    (toRecord k after).get? f = (toRecord k before).get? f := by
  by_cases hcomputes : Computes k changes f
  · refine kept_of_computes hsound hvalid hnamed h hcomputes haddresses fun hk => hfeature hk ?_
    subst hk
    exact hcomputes
  by_cases hstored : f ∈ "id" :: fields k
  · rcases List.mem_cons.1 hstored with rfl | hstored
    · rw [get?_toRecord_id, get?_toRecord_id, (revises_of_revised h).id_eq]
    · obtain ⟨c, hc, rfl⟩ := List.mem_map.1 hstored
      exact kept_of_not_computes hsound hvalid hnamed h hc haddresses hcomputes
  · rw [get?_toRecord_eq_none _ hstored, get?_toRecord_eq_none _ hstored]

/-- An update that is let through touches what it addresses, and nothing else. -/
theorem updates_of_revised : Updates s k before changes after := by
  obtain ⟨resolved, hfilled, hreads⟩ := exists_resolved hsound hvalid hnamed h
  refine ⟨(revises_of_revised h).id_eq, fun f => kept_of_revised hsound hvalid hnamed h, ?given,
    ?variant, ?named, computed_of_revised hnamed h⟩
  case given =>
    intro c hc hchanged hredirects hcomputes
    obtain ⟨v, hv⟩ := Option.ne_none_iff_exists'.1 hchanged
    rw [(hreads c hc hcomputes).stored, given?_resolved_of_not_redirects hfilled hc hredirects,
      Record.given?, Record.get?_overlay, Record.given?, hv, Option.some_or]
  case variant =>
    intro c hc g hg v hv
    have hgiven : resolved.given? g = some v := by
      rw [given?_resolved_of_variant hfilled hc hg, hv]
    have hread := hreads c hc (not_computes_of_variant hc hg)
    have hone := hread.one g (List.mem_cons_of_mem _ hg) (Record.has_of_given? hgiven)
    rw [hread.stored, ← hone, hgiven]
  case named =>
    intro c hc ref href hsame hgiven hcomputes
    obtain ⟨v, hv, hget⟩ := hfilled.named ref href (hsame ▸ List.mem_map_of_mem hc)
      (given_overlay_iff.2 hgiven)
    have hresolved : resolved.given? c.field = some v := by
      rw [Record.given?, ← hsame, hget]
      simp [Option.filter, ref.isNull_of_names hv]
    have hread := hreads c hc hcomputes
    have hone := hread.one c.field List.mem_cons_self (Record.has_of_given? hresolved)
    refine ⟨v, ref.names_of_sameNames sameNames_union hv, ?_⟩
    rw [hread.stored, ← hone, hresolved]

end Revised

end Row

namespace Snapshot
variable {s : Snapshot} {k : Kind}

/-- Every update that a check accepts against a sound snapshot touches what it addresses, and
nothing else. -/
theorem updateAnswers_updates (hcomplete : s.isComplete = true) (hsound : s.Sound)
    (changes : List Record) :
    s.checkUpdate k changes false = .ok (.ofOutcomes (s.updateAnswers k changes)) ∧
      (∀ checked, s.checkUpdate k changes true = .ok checked →
        checked.accepted = Batch.accepted (s.updateAnswers k changes)) ∧
      ∀ n after, (s.updateAnswers k changes)[n]? = some (.ok after) →
        ∃ item before, changes[n]? = some item ∧ item.int? "id" = some (Row.id k after) ∧
          s.standing? k changes n (Row.id k after) = some before ∧
          Row.Updates s k before item after := by
  refine ⟨checkUpdate_eq hcomplete, fun _ => accepted_eq_of_checkUpdate, ?_⟩
  intro n after hafter
  obtain ⟨item, before, hitem, hid, hbefore, hrevised⟩ := exists_revised_of_updateAnswers hafter
  have hkeeps : Row.Valid s k before ∧ Row.Named k before :=
    holds_of_standing (P := fun row => Row.Valid s k row ∧ Row.Named k row) hcomplete
      (fun row hrow => ⟨hsound.valid k row hrow, Row.named_of_mem hsound hrow⟩)
      (fun _ _ _ hrevises => ⟨hrevises.valid, hrevises.named⟩) hbefore
  exact ⟨item, before, hitem, hid, hbefore,
    Row.updates_of_revised hsound hkeeps.1 hkeeps.2 hrevised⟩

/-- The default of the definition goes, while its list is given by name, over an id beside it. Then
the owner is given under the name of a variant. -/
def levelChanges : List Record :=
  [.ofFields [("id", some (.int 1)), ("default_value", some .null),
      ("value_list_name", some (.text "levels")), ("parameter_value_list_id", some (.int 7))],
    .ofFields [("id", some (.int 1)), ("object_class_id", some (.int 1)),
      ("description", some (.text "of a tank"))]]

/-- Both are accepted. The second one leaves the default and the list as the first one has left
them. -/
theorem updateAnswers_levelChanges :
    levels.isComplete = true ∧ levels.Sound ∧
      levels.updateAnswers .parameterDefinition levelChanges =
        [.ok ⟨1, 1, "level", none, some 1, none, .any⟩,
          .ok ⟨1, 1, "level", none, some 1, some "of a tank", .object⟩] ∧
      Row.Updates levels .parameterDefinition ⟨1, 1, "level", none, some 1, none, .any⟩
        (.ofFields [("id", some (.int 1)), ("object_class_id", some (.int 1)),
          ("description", some (.text "of a tank"))])
        ⟨1, 1, "level", none, some 1, some "of a tank", .object⟩ := by
  have hsound : levels.Sound := by decide
  have hanswers : levels.updateAnswers .parameterDefinition levelChanges =
      [.ok ⟨1, 1, "level", none, some 1, none, .any⟩,
        .ok ⟨1, 1, "level", none, some 1, some "of a tank", .object⟩] := by decide
  have hstanding : levels.standing? .parameterDefinition levelChanges 1 1 =
      some ⟨1, 1, "level", none, some 1, none, .any⟩ := by decide
  obtain ⟨_, _, hupdates⟩ :=
    updateAnswers_updates (k := .parameterDefinition) (by decide) hsound levelChanges
  obtain ⟨item, before, hitem, _, hbefore, hupdated⟩ :=
    hupdates 1 ⟨1, 1, "level", none, some 1, some "of a tank", .object⟩ (by rw [hanswers]; rfl)
  obtain rfl := Option.some.inj (hbefore.symm.trans hstanding)
  obtain rfl := Option.some.inj hitem
  exact ⟨by decide, hsound, hanswers, hupdated⟩

end Snapshot

end EntityStore
