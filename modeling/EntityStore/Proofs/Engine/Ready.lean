import EntityStore.Proofs.Check.Continued
import EntityStore.Proofs.Invariant.Keys
/-!
# Calls that nothing but the rules stands against

A workspace is ready when its session is in step with the store, its rows have positive ids and keys
that differ, nobody holds the cursor, and no failure is set up (`Workspace.Ready`). Lenient inserts
and updates then succeed, and what they leave is a function of the rows that the check accepts
(`Workspace.inserted`, `Workspace.updated`), which is ready again. Rows that are written in two
calls are where one call would have put them.
-/
namespace EntityStore

theorem numbered_append {k : Kind} (as bs : List (Row k)) (first : Id) :
    numbered k (as ++ bs) ⟨first, as.length + bs.length⟩ =
      numbered k as ⟨first, as.length⟩ ++
        numbered k bs ⟨IdRange.stop ⟨first, as.length⟩, bs.length⟩ := by
  rw [numbered, IdRange.toList_add, List.zipWith_append]
  · rfl
  · rw [IdRange.length_toList]

theorem idsOf_append {k : Kind} (as bs : List (Row k)) :
    idsOf k (as ++ bs) = (idsOf k as).union (idsOf k bs) := by
  apply IdSet.ext_contains
  intro i
  simp [idsOf]

namespace Session

theorem put_recordAdded (s : Session) (k : Kind) (ids : IdSet) (rows : List (Row k)) :
    (s.recordAdded k ids).put k rows = (s.put k rows).recordAdded k ids := by
  unfold recordAdded
  split <;> rfl

theorem recordAdded_recordAdded (s : Session) (k : Kind) (a b : IdSet) :
    (s.recordAdded k a).recordAdded k b = s.recordAdded k (a.union b) := by
  cases ha : a.isEmpty with
  | true =>
    obtain rfl := IdSet.eq_empty_of_isEmpty ha
    have hunion : (∅ : IdSet).union b = b := IdSet.ext_contains fun i => by simp
    rw [hunion]
    rfl
  | false =>
    cases hb : b.isEmpty with
    | true =>
      obtain rfl := IdSet.eq_empty_of_isEmpty hb
      rfl
    | false =>
      have hunion : (a.union b).isEmpty = false := by
        rcases IdSet.exists_contains ha with ⟨i, hi⟩
        exact IdSet.isEmpty_eq_false (i := i) (by simp [hi])
      simp only [recordAdded, ha, hb, hunion, Bool.false_eq_true, if_false, IdMap.add_add,
        IdMap.prune_remove_remove]

theorem put_append (s : Session) (k : Kind) (as bs : List (Row k)) :
    (s.put k as).put k bs = s.put k (as ++ bs) := by
  simp only [put, Snapshot.putRows, List.foldl_append]

theorem addRows_append (s : Session) (k : Kind) (as bs : List (Row k)) :
    (s.addRows k as).addRows k bs = s.addRows k (as ++ bs) := by
  rw [addRows, addRows, addRows, put_recordAdded, recordAdded_recordAdded, ← idsOf_append,
    put_append]

end Session

namespace Store

/-- The store after an apply of records of one kind. -/
def written (s : Store) (k : Kind) (rs : List Record) : Store :=
  { s with
    tables := s.tables.set k (rs.foldl Ascending.insert (s.table k))
    applyCount := s.applyCount + 1 }

theorem contains_written {s : Store} {k : Kind} {rs : List Record} {i : Id} :
    ((s.written k rs).table k).contains i = true ↔
      (s.table k).contains i = true ∨ ∃ r ∈ rs, r.id = i := by
  rw [written, table, ByKind.get_set_self, Ascending.contains_foldl_insert]

/-- The store with another count of the applies. -/
def counting (s : Store) (n : Nat) : Store := { s with applyCount := n }

theorem counting_written_written (s : Store) (k : Kind) (as bs : List Record) (n : Nat) :
    ((s.written k as).written k bs).counting n = (s.written k (as ++ bs)).counting n := by
  simp only [counting, written, table, ByKind.get_set_self, ByKind.set_set, List.foldl_append]

theorem advanced_advanced (s : Store) (k : Kind) (i j : Id) :
    (s.advanced k i).advanced k j = s.advanced k j := by
  simp only [advanced, nextIds, Option.elim_some, SortedMap.set_set]

theorem advanced_written (s : Store) (k : Kind) (rs : List Record) (i : Id) :
    (s.written k rs).advanced k i = (s.advanced k i).written k rs := rfl

end Store

namespace Workspace

/-- Nothing stands against the next call. -/
structure Ready (w : Workspace) : Prop where
  inStep : w.InStep
  positive : ∀ k i, (w.store.table k).contains i = true → pendingId < i
  keysDiffer : w.session.snapshot.KeysDiffer
  free : w.store.claimed = false
  applies : w.store.applyFails = false
  claims : w.store.claimFails = false

/-- New rows under the ids that they get. -/
def newRows (w : Workspace) (k : Kind) (rows : List (Row k)) : List (Row k) :=
  numbered k rows ⟨w.store.firstFree k, rows.length⟩

/-- The workspace with new rows. -/
def inserted (w : Workspace) (k : Kind) (rows : List (Row k)) : Workspace :=
  if rows = [] then w
  else
    ⟨(w.store.advanced k (IdRange.stop ⟨w.store.firstFree k, rows.length⟩)).written k
        ((w.newRows k rows).map (Row.toRecord k)),
      w.session.addRows k ((w.newRows k rows).map (Row.stored k))⟩

/-- The workspace with rows over those with the same ids. -/
def updated (w : Workspace) (k : Kind) (rows : List (Row k)) : Workspace :=
  if rows = [] then w
  else
    ⟨w.store.written k (rows.map (Row.toRecord k)), w.session.put k (rows.map (Row.stored k))⟩

/-- The workspace with another count of the applies. -/
def counting (w : Workspace) (n : Nat) : Workspace := ⟨w.store.counting n, w.session⟩

variable {o : Options} {w : Workspace} {k : Kind} {strict : Option Bool}

/-- Whether 64 bits hold the ids of the rows that a lenient insert makes of candidates. -/
def HasRoom (w : Workspace) (k : Kind) (candidates : List Record) : Prop :=
  w.store.Room k (Batch.accepted (w.session.snapshot.insertAnswers k candidates)).length

@[simp] theorem newRows_nil : w.newRows k [] = [] := rfl

@[simp] theorem inserted_nil : w.inserted k [] = w := rfl

theorem inserted_of_ne_nil {rows : List (Row k)} (h : rows ≠ []) :
    w.inserted k rows =
      ⟨(w.store.advanced k (IdRange.stop ⟨w.store.firstFree k, rows.length⟩)).written k
          ((w.newRows k rows).map (Row.toRecord k)),
        w.session.addRows k ((w.newRows k rows).map (Row.stored k))⟩ :=
  if_neg h

@[simp] theorem updated_nil : w.updated k [] = w := rfl

theorem updated_of_ne_nil {rows : List (Row k)} (h : rows ≠ []) :
    w.updated k rows =
      ⟨w.store.written k (rows.map (Row.toRecord k)), w.session.put k (rows.map (Row.stored k))⟩ :=
  if_neg h

theorem Ready.pendingId_lt_firstFree (h : w.Ready) {count : Nat} (hroom : w.store.Room k count)
    (hcount : count ≠ 0) : pendingId < w.store.firstFree k :=
  Int.lt_of_le_of_lt (Store.pendingId_le_maxId (h.positive k)) (hroom.maxId_lt_firstFree hcount)

theorem Ready.checkInsert (h : w.Ready) (k : Kind) (candidates : List Record) :
    w.session.snapshot.checkInsert k candidates false =
      .ok (.ofOutcomes (w.session.snapshot.insertAnswers k candidates)) := by
  rw [Snapshot.checkInsert, if_pos h.inStep.isComplete]
  rfl

theorem Ready.checkUpdate (h : w.Ready) (k : Kind) (changes : List Record) :
    w.session.snapshot.checkUpdate k changes false =
      .ok (.ofOutcomes (w.session.snapshot.updateAnswers k changes)) := by
  rw [Snapshot.checkUpdate, if_pos h.inStep.isComplete]
  rfl

theorem map_id_newRows (w : Workspace) (rows : List (Row k)) :
    (w.newRows k rows).map (Row.id k) = (⟨w.store.firstFree k, rows.length⟩ : IdRange).toList :=
  map_id_numbered rfl

theorem length_ne_zero_of_mem_newRows {rows : List (Row k)} {row : Row k}
    (h : row ∈ w.newRows k rows) : rows.length ≠ 0 := by
  intro hlength
  rw [List.length_eq_zero_iff.1 hlength, newRows_nil] at h
  cases h

section Room
variable {rows : List (Row k)} (hroom : w.store.Room k rows.length)
include hroom

theorem id_of_mem_newRows {row : Row k} (h : row ∈ w.newRows k rows) :
    w.store.firstFree k ≤ Row.id k row ∧ Row.id k row < w.store.firstFree k + rows.length := by
  have hid := List.mem_map_of_mem (f := Row.id k) h
  rwa [map_id_newRows, hroom.mem_toList] at hid

/-- New rows get ids of their own that no row of their kind has. -/
theorem newRows_fresh :
    let records := (w.newRows k rows).map (Row.toRecord k)
    (∀ r ∈ records, (w.store.table k).contains r.id = false) ∧ (records.map Record.id).Nodup := by
  constructor
  · rw [List.forall_mem_map]
    intro row hrow
    rw [Row.id_toRecord, ← Bool.not_eq_true]
    intro hthere
    have hlt := hroom.lt_firstFree_of_contains (length_ne_zero_of_mem_newRows hrow) hthere
    exact Int.not_le.2 hlt (id_of_mem_newRows hroom hrow).1
  · rw [Row.map_id_toRecord, map_id_newRows]
    exact hroom.pairwise_toList.imp fun hlt => Int.ne_of_lt hlt

/-- New rows can be put in unless one of them gets the id of a pending row. -/
theorem change_newRows
    (hpending : pendingId ∉ (⟨w.store.firstFree k, rows.length⟩ : IdRange).toList) :
    w.store.tables.change (.ofInserts k ((w.newRows k rows).map (Row.toRecord k))) =
      .ok (w.store.written k ((w.newRows k rows).map (Row.toRecord k))).tables := by
  obtain ⟨hnew, hnodup⟩ := newRows_fresh hroom
  refine RecordTables.change_ofInserts (fun r hr hid => hpending ?_) hnew hnodup
  rw [← map_id_newRows, ← Row.map_id_toRecord, ← hid]
  exact List.mem_map_of_mem hr

theorem Ready.pendingId_lt_of_mem_newRows (h : w.Ready) {row : Row k}
    (hrow : row ∈ w.newRows k rows) : pendingId < Row.id k row := by
  have hfirst := h.pendingId_lt_firstFree hroom (length_ne_zero_of_mem_newRows hrow)
  exact Int.lt_of_lt_of_le hfirst (id_of_mem_newRows hroom hrow).1

theorem Ready.change_newRows (h : w.Ready) :
    w.store.tables.change (.ofInserts k ((w.newRows k rows).map (Row.toRecord k))) =
      .ok (w.store.written k ((w.newRows k rows).map (Row.toRecord k))).tables := by
  apply Workspace.change_newRows hroom
  rw [← map_id_newRows]
  intro hpending
  obtain ⟨row, hrow, hid⟩ := List.mem_map.1 hpending
  exact Int.ne_of_gt (h.pendingId_lt_of_mem_newRows hroom hrow) hid

theorem Ready.insertRows_eq (h : w.Ready) (hsome : rows ≠ [])
    (duplicates : IdSet) (rejected : List Rejection) :
    let run := w.insertRows o k rows duplicates rejected
    run.outcome = .ok ⟨(w.newRows k rows).map (Row.toRecord k),
        duplicates.union (idsOf k (w.newRows k rows)), rejected⟩ ∧
      run.state = w.inserted k rows := by
  have hcount : rows.length ≠ 0 := mt List.length_eq_zero_iff.1 hsome
  have hclaim := Store.claim_of_free h.free h.claims o.owner
  have hchange := h.change_newRows hroom
  rcases Store.allocate_of_claim k hcount hclaim with ⟨houtcome, hstate⟩
  dsimp only
  rw [insertRows, houtcome, hstate, inserted_of_ne_nil hsome]
  dsimp only
  rw [← newRows, commit_of_change (w := { w with store := w.store.advanced k _ }) h.applies hchange]
  exact ⟨rfl, rfl⟩

end Room

/-- A lenient insert writes the rows that the check accepts, under the first free ids. -/
theorem Ready.insert_eq (h : w.Ready) (hlenient : strict.getD o.strict = false)
    {candidates : List Record} (hroom : w.HasRoom k candidates) (report : Bool) :
    let answers := w.session.snapshot.insertAnswers k candidates
    let rows := w.newRows k (Batch.accepted answers)
    let run := w.insert o k candidates strict report
    run.outcome = .ok ⟨rows.map (Row.toRecord k),
        (if report then (CheckResult.ofOutcomes answers).duplicateIds else ∅).union (idsOf k rows),
        Batch.refused answers⟩ ∧
      run.state = w.inserted k (Batch.accepted answers) := by
  dsimp only
  rw [insert, hlenient, h.checkInsert]
  rw [HasRoom] at hroom
  generalize w.session.snapshot.insertAnswers k candidates = answers at hroom ⊢
  simp only [CheckResult.accepted_ofOutcomes, CheckResult.rejected_ofOutcomes]
  by_cases hnone : Batch.accepted answers = []
  · rw [if_pos hnone, hnone]
    exact ⟨rfl, rfl⟩
  · rw [if_neg hnone]
    exact h.insertRows_eq hroom hnone _ (Batch.refused answers)

theorem Ready.change_updates (h : w.Ready) {rows : List (Row k)}
    (hrows : ∀ row ∈ rows, w.session.snapshot.contains k (Row.id k row) = true) :
    w.store.tables.change (.ofUpdates k (rows.map (Row.toRecord k))) =
      .ok (w.store.written k (rows.map (Row.toRecord k))).tables := by
  have hold (row : Row k) (hrow : row ∈ rows) :=
    h.inStep.covers k (Row.id k row) (hrows row hrow)
  apply RecordTables.change_ofUpdates
  · rw [List.forall_mem_map]
    intro row hrow
    rw [Row.id_toRecord]
    exact Int.ne_of_gt (h.positive k _ (hold row hrow))
  · rw [List.forall_mem_map]
    intro row hrow
    rw [Row.id_toRecord]
    exact hold row hrow

theorem Ready.contains_of_updateAnswers (h : w.Ready) {changes : List Record} {row : Row k}
    (hrow : row ∈ Batch.accepted (w.session.snapshot.updateAnswers k changes)) :
    w.session.snapshot.contains k (Row.id k row) = true :=
  contains_of_checkUpdate (h.checkUpdate k changes) row
    (by rwa [CheckResult.accepted_ofOutcomes])

/-- A lenient update writes the rows that the check accepts over those that have their ids. -/
theorem Ready.update_eq (h : w.Ready) (hlenient : strict.getD o.strict = false)
    (changes : List Record) :
    let answers := w.session.snapshot.updateAnswers k changes
    let rows := Batch.accepted answers
    let run := w.update o k changes strict
    run.outcome = .ok ⟨rows.map (Row.toRecord k), idsOf k rows, Batch.refused answers⟩ ∧
      run.state = w.updated k rows := by
  have hold : ∀ row ∈ Batch.accepted (w.session.snapshot.updateAnswers k changes),
      w.session.snapshot.contains k (Row.id k row) = true :=
    fun _ => h.contains_of_updateAnswers
  dsimp only
  rw [update, hlenient, h.checkUpdate]
  generalize w.session.snapshot.updateAnswers k changes = answers at hold
  simp only [CheckResult.accepted_ofOutcomes, CheckResult.rejected_ofOutcomes]
  by_cases hnone : Batch.accepted answers = []
  · rw [if_pos hnone, hnone]
    exact ⟨rfl, rfl⟩
  · rw [if_neg hnone, updateRows, commit_of_change h.applies (h.change_updates hold),
      updated_of_ne_nil hnone]
    exact ⟨rfl, rfl⟩

theorem snapshot_inserted (w : Workspace) (rows : List (Row k)) :
    (w.inserted k rows).session.snapshot =
      w.session.snapshot.putRows k ((w.newRows k rows).map (Row.stored k)) := by
  unfold inserted
  split
  next h =>
    subst h
    rfl
  next => exact snapshot_addRows _ _ _

theorem snapshot_updated (w : Workspace) (rows : List (Row k)) :
    (w.updated k rows).session.snapshot =
      w.session.snapshot.putRows k (rows.map (Row.stored k)) := by
  unfold updated
  split
  next h =>
    subst h
    rfl
  next => rfl

/-- Rows with positive ids can be put while nothing else is set up. -/
theorem Ready.of_putRows {w' : Workspace} (h : w.Ready) (hstep : w'.InStep) {rows : List (Row k)}
    (hsnapshot : w'.session.snapshot = w.session.snapshot.putRows k rows)
    (hpositive : ∀ row ∈ rows, pendingId < Row.id k row)
    (hdiffer : (w.session.snapshot.putRows k rows).KeysDiffer)
    (hrest : w'.store.claimed = false ∧ w'.store.applyFails = false ∧
      w'.store.claimFails = false) : w'.Ready where
  inStep := hstep
  positive := by
    intro j i hi
    rw [← hstep.contains, hsnapshot] at hi
    by_cases hj : k = j
    · subst hj
      rcases Snapshot.contains_putRows_self.1 hi with hold | ⟨row, hrow, rfl⟩
      · exact h.positive k i (h.inStep.covers k i hold)
      · exact hpositive row hrow
    · rw [Snapshot.contains_putRows_of_ne hj] at hi
      exact h.positive j i (h.inStep.covers j i hi)
  keysDiffer := hsnapshot ▸ hdiffer
  free := hrest.1
  applies := hrest.2.1
  claims := hrest.2.2

theorem Ready.insert (h : w.Ready) (hlenient : strict.getD o.strict = false)
    {candidates : List Record} (hroom : w.HasRoom k candidates) (report : Bool) :
    (w.insert o k candidates strict report).state.Ready := by
  have hstep := insert_inStep (o := o) (k := k) h.inStep candidates strict report
  have hdiffer := h.keysDiffer.inserted (h.checkInsert k candidates)
  rw [CheckResult.accepted_ofOutcomes] at hdiffer
  rw [(h.insert_eq hlenient hroom report).2] at hstep ⊢
  apply h.of_putRows hstep (snapshot_inserted w _) _ (hdiffer _)
  · unfold inserted
    split
    · exact ⟨h.free, h.applies, h.claims⟩
    · exact ⟨rfl, h.applies, h.claims⟩
  · rw [List.forall_mem_map]
    intro row hrow
    rw [Row.id_stored]
    exact h.pendingId_lt_of_mem_newRows hroom hrow

theorem Ready.update (h : w.Ready) (hlenient : strict.getD o.strict = false)
    (changes : List Record) : (w.update o k changes strict).state.Ready := by
  have hstep := update_inStep (o := o) (k := k) h.inStep changes strict
  have hdiffer := h.keysDiffer.updated (h.checkUpdate k changes)
  rw [CheckResult.accepted_ofOutcomes] at hdiffer
  rw [(h.update_eq hlenient changes).2] at hstep ⊢
  apply h.of_putRows hstep (snapshot_updated w _) _ hdiffer
  · unfold updated
    split <;> exact ⟨h.free, h.applies, h.claims⟩
  · rw [List.forall_mem_map]
    intro row hrow
    rw [Row.id_stored]
    exact h.positive k _ (h.inStep.covers k _ (h.contains_of_updateAnswers hrow))

section Parts
variable {as bs : List (Row k)} (h : w.Ready) (hroom : w.store.Room k as.length) (hsome : as ≠ [])
include h hroom hsome

theorem Ready.id_of_inserted {i : Id} (hi : ((w.inserted k as).store.table k).contains i = true) :
    pendingId < i ∧ i < w.store.firstFree k + as.length := by
  rw [inserted_of_ne_nil hsome, Store.contains_written] at hi
  rcases hi with hold | ⟨r, hr, rfl⟩
  · have hcount : as.length ≠ 0 := mt List.length_eq_zero_iff.1 hsome
    have hle : w.store.firstFree k ≤ w.store.firstFree k + as.length :=
      Int.le_add_of_nonneg_right (Int.natCast_nonneg _)
    exact ⟨h.positive k i hold,
      Int.lt_of_lt_of_le (hroom.lt_firstFree_of_contains hcount hold) hle⟩
  · rcases List.mem_map.1 hr with ⟨row, hrow, rfl⟩
    rw [Row.id_toRecord]
    exact ⟨h.pendingId_lt_of_mem_newRows hroom hrow, (id_of_mem_newRows hroom hrow).2⟩

theorem Ready.maxId_inserted :
    pendingId ≤ (w.inserted k as).store.maxId k ∧
      (w.inserted k as).store.maxId k < w.store.firstFree k + as.length := by
  have hcount : as.length ≠ 0 := mt List.length_eq_zero_iff.1 hsome
  have hstart : pendingId < w.store.firstFree k + as.length :=
    Int.lt_of_lt_of_le (h.pendingId_lt_firstFree hroom hcount)
      (Int.le_add_of_nonneg_right (Int.natCast_nonneg _))
  exact ⟨Store.pendingId_le_maxId fun i hi => (h.id_of_inserted hroom hsome hi).1,
    Store.maxId_lt hstart fun i hi => (h.id_of_inserted hroom hsome hi).2⟩

theorem Ready.fits_maxId_inserted : Id.Fits ((w.inserted k as).store.maxId k + 1) := by
  have hcount : as.length ≠ 0 := mt List.length_eq_zero_iff.1 hsome
  obtain ⟨hle, hlt⟩ := h.maxId_inserted hroom hsome
  have hpending : Id.Fits pendingId := by decide
  exact hpending.of_le (hroom hcount).2 (Int.le_add_one hle) hlt

theorem Ready.firstFree_inserted :
    (w.inserted k as).store.firstFree k = IdRange.stop ⟨w.store.firstFree k, as.length⟩ := by
  have hcount : as.length ≠ 0 := mt List.length_eq_zero_iff.1 hsome
  have hfloor := (h.fits_maxId_inserted hroom hsome).wrap_eq
  have hstop := (hroom.fits hcount).stop_eq
  have hnext : (w.inserted k as).store.nextIds.get? k =
      some (IdRange.stop ⟨w.store.firstFree k, as.length⟩) := by
    rw [inserted_of_ne_nil hsome]
    exact SortedMap.get?_set _ _ _ k |>.trans (if_pos rfl)
  rw [Store.firstFree, hnext, Store.floorId, hfloor]
  exact Int.max_eq_right (hstop ▸ (h.maxId_inserted hroom hsome).2)

end Parts

section Append
variable (h : w.Ready) (as bs : List (Row k)) (hroom : w.store.Room k (as ++ bs).length)
include h hroom

theorem Ready.room_inserted : (w.inserted k as).store.Room k bs.length := by
  by_cases ha : as = []
  · simpa [ha] using hroom
  · intro hb
    have hfirst : w.store.Room k as.length := hroom.mono (by simp)
    have hboth : (as ++ bs).length ≠ 0 := by simp [ha]
    have hcount : as.length ≠ 0 := mt List.length_eq_zero_iff.1 ha
    refine ⟨h.fits_maxId_inserted hfirst ha, ?_⟩
    rw [h.firstFree_inserted hfirst ha, (hfirst.fits hcount).stop_eq, Int.add_assoc,
      ← Int.natCast_add, ← List.length_append]
    exact (hroom hboth).2

theorem Ready.newRows_append :
    w.newRows k (as ++ bs) = w.newRows k as ++ (w.inserted k as).newRows k bs := by
  by_cases ha : as = []
  · simp [ha]
  · have hfirst : w.store.Room k as.length := hroom.mono (by simp)
    rw [newRows, List.length_append, numbered_append, newRows, newRows,
      h.firstFree_inserted hfirst ha]

theorem Ready.inserted_append (n : Nat) :
    ((w.inserted k as).inserted k bs).counting n = (w.inserted k (as ++ bs)).counting n := by
  by_cases ha : as = []
  · rw [ha, inserted_nil, List.nil_append]
  by_cases hb : bs = []
  · rw [hb, inserted_nil, List.append_nil]
  have hab : as ++ bs ≠ [] := by simp [ha]
  have hfirst : w.store.Room k as.length := hroom.mono (by simp)
  rw [inserted_of_ne_nil hb, inserted_of_ne_nil hab, h.firstFree_inserted hfirst ha,
    IdRange.stop_add, h.newRows_append as bs hroom]
  generalize (w.inserted k as).newRows k bs = rows
  rw [inserted_of_ne_nil ha, Store.advanced_written, Store.advanced_advanced,
    Session.addRows_append, counting, counting, Store.counting_written_written, List.map_append,
    List.map_append, List.length_append]

end Append

theorem updated_append (as bs : List (Row k)) (n : Nat) :
    ((w.updated k as).updated k bs).counting n = (w.updated k (as ++ bs)).counting n := by
  by_cases ha : as = []
  · rw [ha, updated_nil, List.nil_append]
  by_cases hb : bs = []
  · rw [hb, updated_nil, List.append_nil]
  have hab : as ++ bs ≠ [] := by simp [ha]
  rw [updated_of_ne_nil hb, updated_of_ne_nil hab, updated_of_ne_nil ha, Session.put_append,
    counting, counting, Store.counting_written_written, List.map_append, List.map_append]

end Workspace

end EntityStore
