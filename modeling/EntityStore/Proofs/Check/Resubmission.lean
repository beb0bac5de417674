import EntityStore.Proofs.Check.NamesOrIds
import EntityStore.Proofs.Check.PlainTable
import EntityStore.Proofs.Rules.Sound
/-!
# Updates that change nothing

An update that repeats what is stored of a row, or a part of it, lays nothing new over the record of
the row (`Row.Resubmits.overlay_eq`). Against a sound snapshot it is accepted and leaves the row as
it is stored, whatever updates of that sort went before it in the batch
(`Snapshot.checkUpdate_resubmitted`).
-/
namespace EntityStore

namespace Record

theorem get?_overlay (current changes : Record) (f : String) :
    (current.overlay changes).get? f =
      (changes.get? f).or (if gaveWay changes f then none else current.get? f) := by
  rw [overlay, SortedMap.get?_union, SortedMap.get?_filter current fun f => !gaveWay changes f]
  cases gaveWay changes f <;> rfl

theorem gaveWay_eq_true_iff {changes : Record} {f : String} :
    gaveWay changes f = true ↔ ∃ group ∈ [ReferenceFields.owner, .subject], f ∈ group.names ∧
      (∃ g ∈ group.names, changes.has g = true) ∧ changes.get? f = none := by
  have habsent : changes.contains f = false ↔ changes.get? f = none := by
    rw [Ascending.contains, SortedMap.get?, Option.map_eq_none_iff, Option.isSome_eq_false_iff,
      Option.isNone_iff_eq_none]
  simp only [gaveWay, List.any_eq_true, Bool.and_eq_true, List.contains_iff_mem, Bool.not_eq_true',
    habsent, and_assoc]

end Record

namespace Row
variable {k : Kind}

theorem eq_plain_of_mem {group : ReferenceFields}
    (hgroup : group ∈ [ReferenceFields.owner, .subject]) {f : String} (hf : f ∈ group.names)
    (hstored : f ∈ "id" :: fields k) : f = group.plain := by
  revert group f
  cases k <;> decide

theorem fields_subset_sources : "id" :: fields k ⊆ sources k := by
  cases k <;> decide

theorem resolveNames_toRecord {s : Snapshot} (hkeys : s.KeysDiffer) (row : Row k) :
    resolveNames k s (toRecord k row) = .ok (toRecord k row) := by
  refine resolveNames_eq_self hkeys fun ref _ => ?_
  rintro ⟨f, hf, hhas⟩
  have hname : f ∉ "id" :: fields k := fun hmem =>
    notMem_nameFields (fields_subset_sources hmem) (ref.fields_subset hf)
  simp [Record.has, Record.given?, get?_toRecord_eq_none row hname] at hhas

theorem withId_self (row : Row k) : withId k (Row.id k row) row = row := by
  cases k <;> rfl

/-- `Row.Resubmits k row changes`: the changes name a row and repeat some of what is stored of
it. -/
structure Resubmits (k : Kind) (row : Row k) (changes : Record) : Prop where
  id : changes.get? "id" = some (.int (Row.id k row))
  repeats : ∀ f v, changes.get? f = some v → (toRecord k row).get? f = some v

variable {row : Row k} {changes : Record}

instance : Decidable (Resubmits k row changes) :=
  decidable_of_iff (changes.get? "id" = some (.int (Row.id k row)) ∧
      ∀ e ∈ changes.toList, (toRecord k row).get? e.1 = some e.2)
    ⟨fun h => ⟨h.1, fun f v hv => h.2 (f, v) (SortedMap.get?_eq_some_iff.1 hv)⟩,
      fun h => ⟨h.id, fun e he => h.repeats e.1 e.2 (SortedMap.get?_eq_some_iff.2 he)⟩⟩

theorem Resubmits.overlay_eq (h : Resubmits k row changes) :
    (toRecord k row).overlay changes = toRecord k row := by
  apply SortedMap.ext_get?
  intro f
  rw [Record.get?_overlay]
  cases hf : changes.get? f with
  | some v => rw [h.repeats f v hf]; rfl
  | none =>
    cases hgave : Record.gaveWay changes f with
    | false => rfl
    | true =>
      obtain ⟨group, hgroup, hf', ⟨g, hg, hhas⟩, _⟩ := Record.gaveWay_eq_true_iff.1 hgave
      have hstored (g : String) (hg : (toRecord k row).get? g ≠ none) : g ∈ "id" :: fields k := by
        by_contra hnot
        exact hg (get?_toRecord_eq_none row hnot)
      obtain ⟨v, hv⟩ := Option.isSome_iff_exists.1 hhas
      have hchanged : changes.get? g = some v := (Option.filter_eq_some_iff.1 hv).1
      have hplain := eq_plain_of_mem hgroup hg (hstored g (by simp [h.repeats g v hchanged]))
      by_contra hne
      have hsame := eq_plain_of_mem hgroup hf' (hstored f (Ne.symm hne))
      rw [hsame, ← hplain, hchanged] at hf
      cases hf

theorem Resubmits.revised_eq (h : Resubmits k row changes) {s : Snapshot} (hsound : s.Sound)
    {before : Row k} (hrow : row ∈ s.rows k) (hbefore : stored k before = stored k row) :
    revised s k before changes = .ok (stored k row) := by
  have hrecord : toRecord k before = toRecord k row := by
    rw [← toRecord_stored, hbefore, toRecord_stored]
  have hid : Row.id k before = Row.id k row := by rw [← id_stored, hbefore, id_stored]
  have hread : read k (toRecord k row) = .ok (stored k row) := by
    rw [read, ofRecord_toRecord]
    rfl
  have hafter : withId k (Row.id k before) (stored k row) = stored k row := by
    rw [hid, ← id_stored, withId_self]
  have hfixed : checkFixed k s before (stored k row) = .ok () := by
    rw [← checkFixed_stored, hbefore]
    exact checkFixed_self s _
  rw [revised, hrecord, h.overlay_eq, resolveNames_toRecord hsound.keys]
  refine bind_eq_ok_iff.2 ⟨_, rfl, bind_eq_ok_iff.2 ⟨_, hread, ?_⟩⟩
  rw [hafter]
  exact bind_eq_ok_iff.2 ⟨(), hfixed, hsound.validate_stored hrow⟩

end Row

/-- A resubmission is answered with the row as it is stored, and leaves the rows as they are
stored. -/
theorem Table.update_resubmitted {s : Snapshot} (hsound : s.Sound) {k : Kind} {t : Table k}
    (ht : ∀ i, (t.find? i).map (Row.stored k) = (s.find? k i).map (Row.stored k)) {row : Row k}
    (hrow : row ∈ s.rows k) {changes : Record} (h : Row.Resubmits k row changes) :
    t.update s changes = (.ok (Row.stored k row), t.insert (Row.stored k row)) := by
  have hfind := ht (Row.id k row)
  rw [Snapshot.mem_rows_iff.1 hrow] at hfind
  obtain ⟨before, hbefore, hsame⟩ := Option.map_eq_some_iff.1 hfind
  have hid : Row.id k before = Row.id k row := Ascending.key_of_find? hbefore
  have hdiffer : t.KeysDiffer :=
    Working.keysDiffer_of_stored_eq (hsound.keys k) fun i => (ht i).symm
  have hreplace : t.replace s before changes = .ok (Row.stored k row) := by
    refine replace_eq_ok_iff.2
      ⟨h.revised_eq hsound hrow hsame, fun other hother hne key hkey hkey' => ?_⟩
    rw [← hsame, Row.keys_stored] at hkey'
    rw [hdiffer other hother before (Ascending.mem_of_find? hbefore) key hkey hkey'] at hne
    exact hne rfl
  have hrevise : t.revise s changes = .ok (Row.stored k row) := by
    simp only [revise, Record.int?_of_get? h.id, if_neg (hsound.ids k row hrow), hbefore, hreplace]
  rw [update, hrevise]

namespace Batch
variable {ι ε α : Type} (f : ι → α) (items : List ι)

@[simp] theorem accepted_map_ok :
    accepted (items.map fun i => (.ok (f i) : Except ε α)) = items.map f := by
  simp [accepted, List.filterMap_map, Function.comp_def, Except.toOption]

@[simp] theorem refused_map_ok : refused (items.map fun i => (.ok (f i) : Except ε α)) = [] := by
  simp [refused, refusal?]

end Batch

theorem Working.outcomes_resubmitted {s : Snapshot} (hsound : s.Sound) {k : Kind} {w : Working k}
    {t : Table k} (hplain : w.Plain t)
    (ht : ∀ i, (t.find? i).map (Row.stored k) = (s.find? k i).map (Row.stored k))
    {rows : List (Row k)} {changes : List Record} (hrows : ∀ row ∈ rows, row ∈ s.rows k)
    (h : List.Forall₂ (Row.Resubmits k) rows changes) :
    Batch.outcomes (updateStep s k) w changes = rows.map fun row => .ok (Row.stored k row) := by
  induction h generalizing w t with
  | nil => rfl
  | @cons row item rows items hfirst _ ih =>
    obtain ⟨hrow, hrest⟩ := List.forall_mem_cons.1 hrows
    have hupdate := Table.update_resubmitted hsound ht hrow hfirst
    obtain ⟨hanswer, hnext⟩ := hplain.step (s := s) item
    rw [hupdate] at hanswer hnext
    have htable (i : Id) : ((t.insert (Row.stored k row)).find? i).map (Row.stored k) =
        (s.find? k i).map (Row.stored k) := by
      rw [Ascending.find?_insert, Row.id_stored]
      split
      next hi => rw [← hi, Snapshot.mem_rows_iff.1 hrow, Option.map_some, Row.stored_stored]; rfl
      next => exact ht i
    simp only [Batch.outcomes, List.map_cons, hanswer, ih hnext htable hrest]

namespace Snapshot

/-- What is stored can always be submitted again. -/
theorem checkUpdate_resubmitted {s : Snapshot} {k : Kind} (hcomplete : s.isComplete = true)
    (hsound : s.Sound) {rows : List (Row k)} {changes : List Record}
    (hrows : ∀ row ∈ rows, row ∈ s.rows k) (h : List.Forall₂ (Row.Resubmits k) rows changes)
    (strict : Bool) :
    ∃ accepted, s.checkUpdate k changes strict = .ok ⟨accepted, [], ∅⟩ ∧
      accepted.map (Row.toRecord k) = rows.map (Row.toRecord k) := by
  have hplain : (Working.ofTable (s.table k)).Plain (s.table k) :=
    ⟨Working.exact_ofTable (hsound.keys k), rfl, hsound.ids k⟩
  have houtcomes := Working.outcomes_resubmitted hsound hplain (fun _ => rfl) hrows h
  refine ⟨rows.map (Row.stored k), ?_, by simp [Function.comp_def]⟩
  rw [checkUpdate, if_pos hcomplete, checkBatch, Batch.strict_eq, houtcomes,
    CheckResult.ofOutcomes_eq, Batch.refused_map_ok, Batch.accepted_map_ok]
  cases strict <;> rfl

/-- Tanks and a pipe between them, with the level of a tank taken from a list. -/
def levels : Snapshot :=
  ((((((tanks.putRows .entity [⟨3, 2, "pipe_north__south", none, [1, 2]⟩]).putRows .valueList
    [⟨1, "levels"⟩]).putRows .listValue [⟨1, 1, 0, "low"⟩, ⟨2, 1, 1, "high"⟩]).putRows
      .parameterDefinition [⟨1, 1, "level", some "low", some 1, none, .any⟩]).putRows .alternative
        [⟨1, "Base", none⟩]).putRows .parameterValue
          [⟨1, 1, 1, 1, 1, "high", .object⟩, ⟨2, 1, 2, 1, 1, "low", .any⟩])

/-- The text of the second value, the entity of the first with its class, and the second value
again. -/
def levelsAgain : List Record :=
  [.ofFields [("id", some (.int 2)), ("value", some (.text "low"))],
    .ofFields [("id", some (.int 1)), ("entity_id", some (.int 1)),
      ("entity_class_id", some (.int 1))],
    .ofFields [("id", some (.int 2)), ("value", some (.text "low"))]]

/-- The values are accepted as they are stored, in the order in which they are submitted. -/
theorem checkUpdate_levelsAgain :
    levels.isComplete = true ∧ levels.Sound ∧
      ∃ accepted, levels.checkUpdate .parameterValue levelsAgain true = .ok ⟨accepted, [], ∅⟩ ∧
        accepted.map ParameterValue.toRecord =
          [⟨2, 1, 2, 1, 1, "low", .any⟩, ⟨1, 1, 1, 1, 1, "high", .object⟩,
            ⟨2, 1, 2, 1, 1, "low", .any⟩].map ParameterValue.toRecord := by
  have hsound : levels.Sound := by decide
  refine ⟨by decide, hsound, ?_⟩
  exact checkUpdate_resubmitted (k := .parameterValue) (by decide) hsound (by decide)
    (.cons (by decide) (.cons (by decide) (.cons (by decide) .nil))) true

end Snapshot

end EntityStore
