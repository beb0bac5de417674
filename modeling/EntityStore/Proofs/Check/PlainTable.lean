import EntityStore.Proofs.Check.Continued
import EntityStore.Proofs.Rules.Collision
/-!
# Updates on a plain table

What a batch of updates means can be said with nothing but a table of rows (`Table.update`): an
update revises a row of the table, and is refused when the revised row has a key of another row of
the table, whichever that is. A check never searches the table for keys. It keeps an index, takes
the keys of a row out before the row is revised, and puts either the old or the new ones back. It
answers every batch as the plain table does (`updateAnswers_eq`).
-/
namespace EntityStore

/-- The row that an update makes of a row, whatever keys other rows have. -/
def Row.revised (s : Snapshot) (k : Kind) (before : Row k) (changes : Record) :
    Except Violation (Row k) := do
  let resolved ← Row.resolveNames k s ((Row.toRecord k before).overlay changes)
  let row ← Row.read k resolved
  let after := Row.withId k (Row.id k before) row
  Row.checkFixed k s before after
  Row.validate k s after

theorem Row.id_of_revised {s : Snapshot} {k : Kind} {before after : Row k} {changes : Record}
    (h : Row.revised s k before changes = .ok after) : Row.id k after = Row.id k before := by
  simp only [Row.revised, bind_eq_ok_iff] at h
  obtain ⟨_, _, read, _, ⟨⟩, _, hvalidate⟩ := h
  rw [(Row.valid_of_validate hvalidate).1, Row.id_withId]

theorem Row.uncolliding_revised {s : Snapshot} {k : Kind} (before : Row k) (changes : Record) :
    Uncolliding (Row.revised s k before changes) :=
  .bind (Row.uncolliding_resolveNames _) fun _ => .bind (Row.uncolliding_read _) fun _ =>
    .bind (Row.uncolliding_checkFixed _ _) fun _ => Row.uncolliding_validate _

namespace Table
variable {k : Kind}

/-- A row of the table that has a key and is not the row `i`. -/
def holder? (t : Table k) (i : Id) (key : UniqueKey) : Option (Row k) :=
  t.findWhere fun other => Row.id k other ≠ i ∧ key ∈ Row.keys k other

/-- The first key of a row that another row of the table has, and the id of that row. -/
def collision? (t : Table k) (row : Row k) : Option (UniqueKey × Id) :=
  (Row.keys k row).findSome? fun key =>
    (t.holder? (Row.id k row) key).map fun other => (key, Row.id k other)

/-- The row that an update puts in the place of a row of the table, if no other row of the table has
a key of it. -/
def replace (s : Snapshot) (t : Table k) (before : Row k) (changes : Record) :
    Except Violation (Row k) := do
  let after ← Row.revised s k before changes
  match t.collision? after with
  | none => return after
  | some (key, other) => .error (.duplicateKey k key (some other))

/-- The row that an update makes, of the row that it names. -/
def revise (s : Snapshot) (t : Table k) (changes : Record) : Except Violation (Row k) :=
  match changes.int? "id" with
  | none => .error (.missingId k)
  | some i =>
    if i = pendingId then .error (.missingId k)
    else match t.find? i with
      | none => .error (.unknownId k i)
      | some before => t.replace s before changes

/-- Answers one update. -/
def update (s : Snapshot) (t : Table k) (changes : Record) :
    Except Rejection (Row k) × Table k :=
  match t.revise s changes with
  | .error v => (.error ⟨k, .update, changes.int? "id", v⟩, t)
  | .ok after => (.ok after, t.insert after)

theorem update_snd (s : Snapshot) (t : Table k) (changes : Record) :
    (t.update s changes).2 =
      (t.update s changes).1.toOption.toList.foldl Ascending.insert t := by
  unfold update
  split <;> rfl

theorem holder?_eq_some {t : Table k} {i : Id} {key : UniqueKey} {other : Row k}
    (h : t.holder? i key = some other) :
    other ∈ t.toList ∧ Row.id k other ≠ i ∧ key ∈ Row.keys k other := by
  have hother := List.find?_some h
  simp only [decide_eq_true_eq] at hother
  exact ⟨List.mem_of_find?_eq_some h, hother⟩

theorem collision?_eq_none_iff {t : Table k} {row : Row k} :
    t.collision? row = none ↔ ∀ other ∈ t.toList, Row.id k other ≠ Row.id k row →
      List.Disjoint (Row.keys k other) (Row.keys k row) := by
  simp only [collision?, List.findSome?_eq_none_iff, Option.map_eq_none_iff, holder?,
    Ascending.findWhere, List.find?_eq_none, decide_eq_true_eq, not_and]
  exact ⟨fun h other hother hid key hkey hkey' => h key hkey' other hother hid hkey,
    fun h key hkey' other hother hid hkey => h other hother hid hkey hkey'⟩

theorem collision?_eq_some {t : Table k} {row : Row k} {key : UniqueKey} {i : Id}
    (h : t.collision? row = some (key, i)) : key ∈ Row.keys k row ∧
      ∃ other ∈ t.toList, Row.id k other = i ∧ i ≠ Row.id k row ∧ key ∈ Row.keys k other := by
  obtain ⟨key', hkey, hfound⟩ := List.exists_of_findSome?_eq_some h
  obtain ⟨other, hother, hsame⟩ := Option.map_eq_some_iff.1 hfound
  obtain ⟨rfl, rfl⟩ := Prod.mk.inj hsame
  obtain ⟨hmem, hid, hkey'⟩ := holder?_eq_some hother
  exact ⟨hkey, other, hmem, rfl, hid, hkey'⟩

theorem replace_eq_ok_iff {s : Snapshot} {t : Table k} {before after : Row k} {changes : Record} :
    t.replace s before changes = .ok after ↔ Row.revised s k before changes = .ok after ∧
      ∀ other ∈ t.toList, Row.id k other ≠ Row.id k before →
        List.Disjoint (Row.keys k other) (Row.keys k after) := by
  rw [replace, bind_eq_ok_iff]
  constructor
  · rintro ⟨after', hafter, hlast⟩
    split at hlast
    next hnone =>
      obtain rfl := pure_eq_ok_iff.1 hlast
      rw [collision?_eq_none_iff, Row.id_of_revised hafter] at hnone
      exact ⟨hafter, hnone⟩
    next => cases hlast
  · rintro ⟨hafter, hdisjoint⟩
    rw [← Row.id_of_revised hafter, ← collision?_eq_none_iff] at hdisjoint
    exact ⟨after, hafter, by rw [hdisjoint]; rfl⟩

theorem holder_of_replace_eq_error {s : Snapshot} {t : Table k} {before : Row k} {changes : Record}
    {kind : Kind} {key : UniqueKey} {conflict : Option Id}
    (h : t.replace s before changes = .error (.duplicateKey kind key conflict)) :
    kind = k ∧ ∃ other ∈ t.toList, conflict = some (Row.id k other) ∧
      Row.id k other ≠ Row.id k before ∧ key ∈ Row.keys k other := by
  rw [replace] at h
  cases hafter : Row.revised s k before changes with
  | error v =>
    rw [hafter] at h
    obtain rfl := Except.error.inj h
    cases Row.uncolliding_revised before changes _ hafter
  | ok after =>
    simp only [hafter, bind, Except.bind] at h
    split at h
    next => cases h
    next key' i hfound =>
      cases h
      obtain ⟨_, other, hother, rfl, hne, hkey⟩ := collision?_eq_some hfound
      rw [Row.id_of_revised hafter] at hne
      exact ⟨rfl, other, hother, rfl, hne, hkey⟩

theorem revise_cases (s : Snapshot) (t : Table k) (changes : Record) :
    (∃ v, v.isCollision = false ∧ t.revise s changes = .error v) ∨
      ∃ before, changes.int? "id" = some (Row.id k before) ∧ before ∈ t.toList ∧
        t.revise s changes = t.replace s before changes := by
  unfold revise
  cases changes.int? "id" with
  | none => exact Or.inl ⟨_, rfl, rfl⟩
  | some i =>
    by_cases hi : i = pendingId
    · exact Or.inl ⟨.missingId k, rfl, if_pos hi⟩
    · simp only [if_neg hi]
      cases hbefore : t.find? i with
      | none => exact Or.inl ⟨_, rfl, rfl⟩
      | some before =>
        obtain rfl := Ascending.key_of_find? hbefore
        exact Or.inr ⟨before, rfl, Ascending.mem_of_find? hbefore, rfl⟩

theorem id_ne_of_update {s : Snapshot} {t : Table k} {changes : Record} {i : Id}
    (h : ∀ row ∈ t.toList, Row.id k row ≠ i) :
    ∀ row ∈ (t.update s changes).2.toList, Row.id k row ≠ i := by
  unfold update
  split
  next => exact h
  next after hafter =>
    intro row hrow
    rw [Ascending.mem_iff_find?, Ascending.find?_insert] at hrow
    split at hrow
    next hid =>
      obtain ⟨v, _, hv⟩ | ⟨before, _, hbefore, hreplace⟩ := t.revise_cases s changes
      · rw [hv] at hafter
        cases hafter
      · rw [hreplace] at hafter
        rw [← hid, Row.id_of_revised (replace_eq_ok_iff.1 hafter).1]
        exact h before hbefore
    next => exact h row (Ascending.mem_of_find? hrow)

theorem holder_of_update_eq_error {s : Snapshot} {t : Table k} {changes : Record} {r : Rejection}
    (h : (t.update s changes).1 = .error r) {kind : Kind} {key : UniqueKey} {conflict : Option Id}
    (hr : r.violation = .duplicateKey kind key conflict) :
    kind = k ∧ ∃ i, changes.int? "id" = some i ∧
      ∃ other ∈ t.toList, conflict = some (Row.id k other) ∧ Row.id k other ≠ i ∧
        key ∈ Row.keys k other := by
  have hrevise : t.revise s changes = .error (.duplicateKey kind key conflict) := by
    unfold update at h
    split at h
    next v hv =>
      obtain rfl := Except.error.inj h
      rw [hv, ← hr]
    next => cases h
  obtain ⟨v, hnot, hv⟩ | ⟨before, hid, _, hreplace⟩ := t.revise_cases s changes
  · rw [hv] at hrevise
    obtain rfl := Except.error.inj hrevise
    cases hnot
  · rw [hreplace] at hrevise
    obtain ⟨hkind, hother⟩ := holder_of_replace_eq_error hrevise
    exact ⟨hkind, _, hid, hother⟩

end Table

namespace Working
variable {s : Snapshot} {k : Kind} {w : Working k}

theorem Exact.find?_remove (h : w.Exact) {before : Row k}
    (hbefore : w.rows.find? (Row.id k before) = some before) (key : UniqueKey) :
    (w.remove before).taken.find? key =
      (w.rows.holder? (Row.id k before) key).map (Row.id k) := by
  have hrest := h.remove hbefore
  have hrows (i : Id) (hi : i ≠ Row.id k before) :
      (w.remove before).rows.find? i = w.rows.find? i := by
    rw [Working.remove, Ascending.find?_erase, if_neg hi.symm]
  cases hholder : w.rows.holder? (Row.id k before) key with
  | some other =>
    obtain ⟨hmem, hid, hkey⟩ := Table.holder?_eq_some hholder
    refine (hrest key (Row.id k other)).2 ⟨other, ?_, hkey⟩
    rw [hrows _ hid, Ascending.mem_iff_find?.1 hmem]
  | none =>
    refine Option.eq_none_iff_forall_ne_some.2 fun i hi => ?_
    obtain ⟨other, hother, hkey⟩ := (hrest key i).1 hi
    obtain rfl := Ascending.key_of_find? hother
    have hid : Row.id k other ≠ Row.id k before := by
      intro hid
      rw [hid, Working.remove, Ascending.find?_erase, if_pos rfl] at hother
      cases hother
    rw [hrows _ hid] at hother
    have hnone := List.find?_eq_none.1 hholder other (Ascending.mem_of_find? hother)
    simp [hid, hkey] at hnone

/-- An index that gives every key to the other row that has it finds what the table finds. -/
theorem checkUnique_eq_collision? {t : Table k} {x : KeyIndex} {row : Row k}
    (hpending : ∀ other ∈ t.toList, Row.id k other ≠ pendingId)
    (h : ∀ key, x.find? key = (t.holder? (Row.id k row) key).map (Row.id k)) :
    x.checkUnique k row = match t.collision? row with
      | none => .ok ()
      | some (key, i) => .error (.duplicateKey k key (some i)) := by
  unfold KeyIndex.checkUnique Table.collision?
  induction Row.keys k row with
  | nil => rfl
  | cons key keys ih =>
    rw [List.findSome?_cons]
    simp only [List.forM_eq_forM, List.forM_cons] at ih ⊢
    rw [h key]
    cases hholder : t.holder? (Row.id k row) key with
    | none => exact ih
    | some other =>
      have hid := hpending other (Table.holder?_eq_some hholder).1
      simp [hid, bind, Except.bind]

theorem revise_eq (w : Working k) (s : Snapshot) (before : Row k) (changes : Record) :
    w.revise s before changes = (do
      let after ← Row.revised s k before changes
      w.taken.checkUnique k after
      return after) := by
  simp only [revise, Row.revised, bind_assoc]

/-- What a batch has left of the rows is the plain table, and the index is exact for it. -/
structure Plain (w : Working k) (t : Table k) : Prop where
  exact : w.Exact
  rows : w.rows = t
  ids : ∀ row ∈ t.toList, Row.id k row ≠ pendingId

theorem Plain.revise_remove {t : Table k} (h : w.Plain t) {before : Row k}
    (hbefore : t.find? (Row.id k before) = some before) (changes : Record) :
    (w.remove before).revise s before changes = t.replace s before changes := by
  obtain ⟨hexact, rfl, hids⟩ := h
  rw [revise_eq, Table.replace]
  cases hafter : Row.revised s k before changes with
  | error v => rfl
  | ok after =>
    have hfind := hexact.find?_remove hbefore
    rw [← Row.id_of_revised hafter] at hfind
    simp only [bind, Except.bind, checkUnique_eq_collision? hids hfind]
    cases w.rows.collision? after with
    | none => rfl
    | some found => rfl

theorem Plain.updateStep_eq {t : Table k} (h : w.Plain t) (changes : Record) :
    (updateStep s k w changes).1 = (t.update s changes).1 := by
  have hrows := h.rows
  subst hrows
  unfold updateStep Table.update Table.revise target
  cases hid : changes.int? "id" with
  | none => rfl
  | some i =>
    by_cases hi : i = pendingId
    · simp only [if_pos hi]
    · simp only [if_neg hi]
      cases hbefore : w.rows.find? i with
      | none => rfl
      | some before =>
        obtain rfl := Ascending.key_of_find? hbefore
        simp only [h.revise_remove hbefore]
        cases w.rows.replace s before changes <;> rfl

/-- An update is answered as by the plain table, and leaves the two beside one another. -/
theorem Plain.step {t : Table k} (h : w.Plain t) (changes : Record) :
    (updateStep s k w changes).1 = (t.update s changes).1 ∧
      (updateStep s k w changes).2.Plain (t.update s changes).2 := by
  obtain ⟨hexact, hrows⟩ := h.exact.step (s := s) changes
  have hanswer := h.updateStep_eq (s := s) changes
  refine ⟨hanswer, hexact, ?_, ?_⟩
  · rw [hrows, hanswer, h.rows, Table.update_snd]
  · exact Table.id_ne_of_update h.ids

end Working

namespace Snapshot

/-- A batch of updates is answered as by the plain table of the rows of the snapshot. An update that
is refused for a key names a row that has the key in the table as the earlier updates have left it,
and is not the row to update. -/
theorem updateAnswers_eq {s : Snapshot} {k : Kind} (hcomplete : s.isComplete = true)
    (hids : ∀ row ∈ s.rows k, Row.id k row ≠ pendingId) (hkeys : (s.table k).KeysDiffer)
    (changes : List Record) :
    s.checkUpdate k changes false = .ok (.ofOutcomes (s.updateAnswers k changes)) ∧
      s.updateAnswers k changes = Batch.outcomes (Table.update s) (s.table k) changes ∧
      ∀ n item r kind key conflict, changes[n]? = some item →
        (s.updateAnswers k changes)[n]? = some (.error r) →
        r.violation = .duplicateKey kind key conflict →
        kind = k ∧ ∃ i, item.int? "id" = some i ∧
          ∃ other ∈ (Batch.final (Table.update s) (s.table k) (changes.take n)).toList,
            conflict = some (Row.id k other) ∧ Row.id k other ≠ i ∧ key ∈ Row.keys k other := by
  have hanswers : s.updateAnswers k changes =
      Batch.outcomes (Table.update s) (s.table k) changes := by
    rw [← List.forall₂_eq_eq_eq]
    exact Batch.forall₂_outcomes_of_related (R := Working.Plain)
      (fun _ _ item h => h.step item) ⟨Working.exact_ofTable hkeys, rfl, hids⟩ changes
  refine ⟨by rw [checkUpdate, if_pos hcomplete]; rfl, hanswers, ?_⟩
  intro n item r kind key conflict hitem hanswer hr
  rw [hanswers, Batch.getElem?_outcomes, hitem, Option.map_some, Option.some.injEq] at hanswer
  exact Table.holder_of_update_eq_error hanswer hr

def baseAndHigh : Snapshot :=
  empty.putRows .alternative [⟨1, "base", none⟩, ⟨2, "high", none⟩]

/-- A name that is refused while another row has it, and accepted once that row gave it up. -/
def renames : List Record :=
  [.ofFields [("id", some (.int 1)), ("name", some (.text "high"))],
    .ofFields [("id", some (.int 2)), ("name", some (.text "low"))],
    .ofFields [("id", some (.int 1)), ("name", some (.text "high"))],
    .ofFields [("name", some (.text "mid"))]]

/-- The answers to the renames, and the row that the first one is refused for. -/
theorem updateAnswers_baseAndHigh :
    baseAndHigh.updateAnswers .alternative renames =
      [.error ⟨.alternative, .update, some 1,
          .duplicateKey .alternative ⟨"name", [.text "high"]⟩ (some 2)⟩,
        .ok ⟨2, "low", none⟩, .ok ⟨1, "high", none⟩,
        .error ⟨.alternative, .update, none, .missingId .alternative⟩] ∧
      ∃ other ∈ baseAndHigh.rows .alternative, Row.id .alternative other = 2 ∧
        ⟨"name", [.text "high"]⟩ ∈ Row.keys .alternative other := by
  obtain ⟨_, hanswers, hcollides⟩ := updateAnswers_eq (s := baseAndHigh) (k := .alternative)
    (by decide) (by decide) (by decide) renames
  constructor
  · rw [hanswers]
    rfl
  · obtain ⟨_, _, _, other, hother, hid, _, hkey⟩ := hcollides 0 _
      ⟨.alternative, .update, some 1, .duplicateKey .alternative ⟨"name", [.text "high"]⟩ (some 2)⟩
      _ _ _ rfl (by rw [hanswers]; rfl) rfl
    exact ⟨other, hother, (Option.some.inj hid).symm, hkey⟩

end Snapshot

end EntityStore
