import EntityStore.Proofs.Invariant.Resolved
import EntityStore.Proofs.Row.Reading
import EntityStore.Proofs.Snapshot.Loading
import EntityStore.Proofs.Store.Tables
/-!
# Sessions in step with their store

A session is in step with its store when its snapshot is the one that a load of the store gives
(`Workspace.InStep`). The records of a call go into the tables of the store, and the rows that they
read as go into the snapshot, in the same order and after the same deletes; so a call that is made
keeps the session in step (`InStep.of_change`), and one that fails changes neither. No row is
checked for this: it holds of readds too, and of every history (`run_inStep`).
-/
namespace EntityStore

namespace Snapshot
variable {k : Kind}

theorem isLoaded_putRows (s : Snapshot) (rows : List (Row k)) (j : Kind) :
    (s.putRows k rows).isLoaded j = s.isLoaded j := by
  induction rows generalizing s with
  | nil => rfl
  | cons row rows ih => exact ih (s.put k row)

theorem putRows_eq_withTable (s : Snapshot) (rows : List (Row k)) :
    s.putRows k rows = s.withTable k (rows.foldl Ascending.insert (s.table k)) := by
  apply ext_table
  · intro j
    by_cases hj : k = j
    · subst hj
      rw [table_putRows_self, table_withTable_self]
    · rw [table_putRows_of_ne rows s hj, table_withTable_of_ne s _ hj]
  · exact s.isLoaded_putRows rows

@[simp] theorem eraseAll_empty (s : Snapshot) : s.eraseAll ∅ = s := by
  apply ext_table
  · intro j
    rw [table_eraseAll]
    apply Ascending.ext
    simp [Ascending.filter]
  · intro j
    rfl

end Snapshot

namespace Workspace
variable {o : Options} {w w' : Workspace} {k : Kind}

/-- The session has the rows that a load of the store gives. -/
def InStep (w : Workspace) : Prop := Snapshot.load w.store [] = .ok w.session.snapshot

theorem inStep_iff :
    w.InStep ↔ ∀ k, (w.store.table k).Reads k (w.session.snapshot.table k) ∧
      w.session.snapshot.isLoaded k = true :=
  Snapshot.load_eq_ok_iff

theorem InStep.isComplete (h : w.InStep) : w.session.snapshot.isComplete = true :=
  List.all_eq_true.2 fun k _ => (inStep_iff.1 h k).2

theorem inStep_of_open {store : Store} {session : Session} (h : Session.open store = .ok session) :
    InStep ⟨store, session⟩ := by
  simp only [Session.open, bind_eq_ok_iff, pure_eq_ok_iff] at h
  rcases h with ⟨s, hload, rfl⟩
  exact hload

theorem SameRows.inStep (h : SameRows w w') (hw : w.InStep) : w'.InStep := by
  rw [inStep_iff] at *
  intro k
  rw [Store.table, h.tables, h.snapshot]
  exact hw k

theorem InStep.contains (h : w.InStep) (k : Kind) (i : Id) :
    w.session.snapshot.contains k i = (w.store.table k).contains i :=
  ((inStep_iff.1 h) k).1.contains i

theorem InStep.covers (h : w.InStep) : w.Covers := by
  intro k i hi
  rw [← h.contains]
  exact hi

/-- Changes to the records of one kind keep the session in step when the same ids are dropped from
it and the rows that the records read as are put into it. -/
theorem InStep.of_change (h : w.InStep) (rows : List (Row k)) {c : ChangeSet}
    (hchange : w.store.tables.change c = .ok w'.store.tables)
    (hother : ∀ j, k ≠ j →
      RecordTables.listed c.updates j = [] ∧ RecordTables.listed c.inserts j = [])
    (hread : List.Forall₂ (fun r row => Row.ofRecord k r = .ok row)
      (RecordTables.listed c.updates k ++ RecordTables.listed c.inserts k) rows)
    (hsnapshot : w'.session.snapshot =
      (w.session.snapshot.eraseAll c.deletes).putRows k rows) : w'.InStep := by
  apply inStep_iff.2
  intro j
  rcases inStep_iff.1 h j with ⟨hreads, hloaded⟩
  rw [Store.table, RecordTables.get_change hchange j, hsnapshot]
  have hdropped := hreads.filter fun i => !c.deletes.has j i
  constructor
  · by_cases hj : k = j
    · subst hj
      rw [Snapshot.table_putRows_self, Snapshot.table_eraseAll, ← List.foldl_append]
      exact hdropped.foldl_insert hread
    · rw [Snapshot.table_putRows_of_ne _ _ hj, Snapshot.table_eraseAll, (hother j hj).1,
        (hother j hj).2]
      exact hdropped
  · rw [Snapshot.isLoaded_putRows]
    exact hloaded

theorem forall₂_reads_toRecord (rows : List (Row k)) :
    List.Forall₂ (fun r row => Row.ofRecord k r = .ok row) (rows.map (Row.toRecord k))
      (rows.map (Row.stored k)) := by
  rw [List.forall₂_map_left_iff, List.forall₂_map_right_iff, List.forall₂_same]
  intro row _
  exact Row.ofRecord_toRecord k row

theorem InStep.of_inserts (h : w.InStep) {rs : List Record}
    (hchange : w.store.tables.change (.ofInserts k rs) = .ok w'.store.tables) {rows : List (Row k)}
    (hread : List.Forall₂ (fun r row => Row.ofRecord k r = .ok row) rs rows)
    (hsnapshot : w'.session.snapshot = w.session.snapshot.putRows k rows) : w'.InStep := by
  apply h.of_change rows hchange
  · intro j hj
    exact ⟨rfl, RecordTables.listed_set_of_ne ∅ rs hj⟩
  · rw [ChangeSet.ofInserts, RecordTables.listed_set_self, RecordTables.listed_empty,
      List.nil_append]
    exact hread
  · rw [hsnapshot, ChangeSet.ofInserts, Snapshot.eraseAll_empty]

theorem insert_inStep (h : w.InStep) (candidates : List Record) (strict : Option Bool)
    (duplicates : Bool) : (w.insert o k candidates strict duplicates).state.InStep := by
  rcases insert_cases candidates strict duplicates with hsame | ⟨_, _, _, hchange, hs⟩
  · exact hsame.inStep h
  · exact h.of_inserts hchange (forall₂_reads_toRecord _) hs

theorem update_inStep (h : w.InStep) (changes : List Record) (strict : Option Bool) :
    (w.update o k changes strict).state.InStep := by
  rcases update_cases changes strict with hsame | ⟨checked, _, hchange, hs⟩
  · exact hsame.inStep h
  · apply h.of_change (checked.accepted.map (Row.stored k)) hchange
    · intro j hj
      exact ⟨RecordTables.listed_set_of_ne ∅ _ hj, rfl⟩
    · rw [ChangeSet.ofUpdates, RecordTables.listed_set_self, RecordTables.listed_empty,
        List.append_nil]
      exact forall₂_reads_toRecord _
    · rw [hs, ChangeSet.ofUpdates, Snapshot.eraseAll_empty]

theorem remove_inStep (h : w.InStep) (roots : IdMap) (strict : Option Bool) :
    (w.remove o roots strict).state.InStep := by
  rcases remove_cases roots strict with hsame | ⟨_, removed, _, _, _, hchange, hs⟩
  · exact hsame.inStep h
  · apply h.of_change (k := .parameterDefinition)
      ((w.session.snapshot.detachedBy removed).map (Row.stored .parameterDefinition)) hchange
    · intro j hj
      rw [RecordTables.inserts_ofRemoval]
      exact ⟨RecordTables.updates_ofRemoval_of_ne removed _ hj, rfl⟩
    · rw [RecordTables.updates_ofRemoval, RecordTables.inserts_ofRemoval,
        RecordTables.listed_empty, List.append_nil]
      exact forall₂_reads_toRecord (k := .parameterDefinition) _
    · exact hs

theorem snapshot_addRows (s : Session) (k : Kind) (rows : List (Row k)) :
    (s.addRows k rows).snapshot = s.snapshot.putRows k rows := by
  rw [Session.addRows, Session.recordAdded]
  split <;> rfl

/-- Records that are added again are written as they were given, and the session takes the rows that
they read as. -/
theorem readd_cases (records : List Record) :
    SameRows w (w.readd k records).state ∨
      ∃ rows, List.Forall₂ (fun r row => Row.ofRecord k r = .ok row) records rows ∧
        w.store.tables.change (.ofInserts k records) = .ok (w.readd k records).state.store.tables ∧
        (w.readd k records).state.session.snapshot = w.session.snapshot.putRows k rows := by
  obtain hsame | ⟨_, _, ⟨rows, hrows, rfl, rfl⟩, hchange, hsession⟩ :=
    (readd_writes (w := w) (k := k) records).cases
  · exact Or.inl hsame
  · refine Or.inr ⟨rows, ?_, hchange, ?_⟩
    · apply (mapM_eq_ok_iff.1 hrows).imp
      intro r row hr
      unfold readdedRow at hr
      split at hr
      next => cases hr
      next =>
        cases hrow : Row.ofRecord k r with
        | error f =>
          rw [hrow] at hr
          cases hr
        | ok row' =>
          rw [hrow] at hr
          rw [Except.ok.inj hr]
    · rw [hsession, snapshot_addRows]

theorem readd_inStep (h : w.InStep) (records : List Record) :
    (w.readd k records).state.InStep := by
  rcases readd_cases records with hsame | ⟨rows, hread, hchange, hs⟩
  · exact hsame.inStep h
  · exact h.of_inserts hchange hread hs

theorem react_inStep (h : w.InStep) (e : Event) : (w.react o e).InStep := by
  cases e with
  | disturb cursor claimed applyFails claimFails => exact h
  | call c =>
    cases c with
    | insert k candidates strict duplicates => exact insert_inStep h candidates strict duplicates
    | update k changes strict => exact update_inStep h changes strict
    | remove roots strict => exact remove_inStep h roots strict
    | readd k records => exact readd_inStep h records

/-- After every history a load of the store gives the rows of the session that wrote it. -/
theorem run_inStep (o : Options) {store : Store} {session : Session} (events : List Event)
    (hopen : Session.open store = .ok session) :
    ((⟨store, session⟩ : Workspace).run o events).InStep := by
  have hstart := inStep_of_open hopen
  generalize (⟨store, session⟩ : Workspace) = w at hstart ⊢
  induction events generalizing w with
  | nil => exact hstart
  | cons e events ih => exact ih (w.react o e) (react_inStep hstart e)

/-- A readd under a new id, a claim that fails, an apply that fails and a removal. -/
theorem run_pipes_inStep :
    ((⟨pipes, pipesSession⟩ : Workspace).run {}
      [.call (.readd .entityClass
          [.ofFields [("id", some (.int 7)), ("name", some (.text "pump"))]]),
        .disturb none false false true,
        .call (.insert .entityClass [.ofFields [("name", some (.text "valve"))]] none false),
        .disturb none false true false,
        .call (.update .entityClass [.ofFields [("id", some (.int 7)),
          ("name", some (.text "turbine"))]] none),
        .call (.remove (.ofNodes [(.entityClass, 1)]) none)]).InStep :=
  run_inStep {} _ open_pipes

end Workspace

end EntityStore
