import EntityStore.Engine.Each
import EntityStore.Proofs.Engine.RemoveCall
/-!
# Undoing a removal

The records of what a removal takes, read beforehand, bring it back: a readd for each kind, whatever
the order of the kinds, finds the ids free in the store and puts every row where it was. Between the
calls the rows of the kinds still to come are missing and nothing else is (`Workspace.Restored`);
a readd of one kind moves that kind over (`Restored.readd`), and after all of them the session and
the store hold what they held (`Workspace.restore_remove`).
-/
namespace EntityStore

theorem Session.has_removed_recordAdded (s : Session) (k : Kind) (ids : IdSet) (j : Kind) (i : Id) :
    (s.recordAdded k ids).removed.has j i =
      (s.removed.has j i && !(decide (k = j) && ids.contains i)) := by
  rw [recordAdded]
  split
  next h =>
    obtain rfl := IdSet.eq_empty_of_isEmpty h
    simp
  next => rw [IdMap.has_prune, IdMap.has_remove]

namespace Snapshot
variable {s t : Snapshot} {m : IdMap} {k : Kind}

/-- The rows of a kind that a map names. -/
def rowsOf (s : Snapshot) (m : IdMap) (k : Kind) : List (Row k) :=
  (s.rows k).filter fun row => m.has k (Row.id k row)

theorem recordsOf_eq (s : Snapshot) (m : IdMap) (k : Kind) :
    s.recordsOf m k = (s.rowsOf m k).map (Row.toRecord k) := rfl

theorem mem_rowsOf {row : Row k} :
    row ∈ s.rowsOf m k ↔ row ∈ s.rows k ∧ m.has k (Row.id k row) = true :=
  List.mem_filter

theorem nodup_ids_rowsOf (s : Snapshot) (m : IdMap) (k : Kind) :
    ((s.rowsOf m k).map (Row.id k)).Nodup :=
  (s.nodup_ids k).sublist (List.filter_sublist.map _)

theorem record?_eq_none_iff {i : Id} : s.record? k i = none ↔ s.contains k i = false := by
  rw [record?, Option.map_eq_none_iff, contains, Ascending.contains, Option.isSome_eq_false_iff,
    Option.isNone_iff_eq_none]
  rfl

theorem record?_putRows_rowsOf
    (h : ∀ i, t.record? k i = if m.has k i = true then none else s.record? k i) (i : Id) :
    (t.putRows k ((s.rowsOf m k).map (Row.stored k))).record? k i = s.record? k i := by
  by_cases hrow : ∃ row ∈ s.rowsOf m k, Row.id k row = i
  · rcases hrow with ⟨row, hrow, rfl⟩
    have hput := find?_putRows_of_mem (s := t) (List.mem_map_of_mem (f := Row.stored k) hrow) (by
      rintro r hr hid
      rcases List.mem_map.1 hr with ⟨row', hrow', rfl⟩
      rw [Row.id_stored, Row.id_stored] at hid
      rw [eq_of_id_eq (mem_rowsOf.1 hrow').1 (mem_rowsOf.1 hrow).1 hid])
    rw [Row.id_stored] at hput
    rw [record?, hput, record?, mem_rows_iff.1 (mem_rowsOf.1 hrow).1]
    exact congrArg some (Row.toRecord_stored k row)
  · simp only [not_exists, not_and] at hrow
    have hput : (t.putRows k ((s.rowsOf m k).map (Row.stored k))).find? k i = t.find? k i :=
      find?_putRows_of_forall_ne fun r hr => by
        rcases List.mem_map.1 hr with ⟨row, hrow', rfl⟩
        rw [Row.id_stored]
        exact hrow row hrow'
    rw [record?, hput, ← record?, h i]
    split
    next hhas =>
      rw [eq_comm, record?_eq_none_iff, ← Bool.not_eq_true, contains_iff]
      rintro ⟨row, hfound⟩
      obtain ⟨hmem, rfl⟩ := find?_eq_some_iff.1 hfound
      exact hrow row (mem_rowsOf.2 ⟨hmem, hhas⟩) rfl
    next => rfl

end Snapshot

namespace Workspace
variable {o : Options} {w w' : Workspace} {k : Kind}

theorem readd_of_free {rows : List (Row k)} (hids : ∀ row ∈ rows, Row.id k row ≠ pendingId)
    (hfree : ∀ row ∈ rows, (w.store.table k).contains (Row.id k row) = false)
    (hnodup : (rows.map (Row.id k)).Nodup) (happlies : rows ≠ [] → w.store.applyFails = false) :
    let run := w.readd k (rows.map (Row.toRecord k))
    (∃ result, run.outcome = .ok result) ∧
      run.state.session = w.session.addRows k (rows.map (Row.stored k)) ∧
      run.state.store.applyFails = w.store.applyFails := by
  dsimp only
  by_cases hnone : rows = []
  · subst hnone
    exact ⟨⟨_, rfl⟩, rfl, rfl⟩
  have hread : (rows.map (Row.toRecord k)).mapM (readdedRow k) =
      .ok (rows.map (Row.stored k)) := by
    rw [mapM_eq_ok_iff, List.forall₂_map_left_iff, List.forall₂_map_right_iff, List.forall₂_same]
    intro row hrow
    rw [readdedRow, if_neg (by rw [Row.id_toRecord]; exact hids row hrow),
      Row.ofRecord_toRecord]
    rfl
  have hchange : w.store.tables.change (.ofInserts k (rows.map (Row.toRecord k))) =
      .ok (w.store.tables.set k
        ((rows.map (Row.toRecord k)).foldl Ascending.insert (w.store.table k))) := by
    apply RecordTables.change_ofInserts
    · simpa [Row.id_toRecord] using hids
    · simpa [Row.id_toRecord, Store.table] using hfree
    · rw [Row.map_id_toRecord]
      exact hnodup
  rw [readd_of_change (by simpa using hnone) hread (happlies hnone) hchange]
  exact ⟨⟨_, rfl⟩, rfl, rfl⟩

/-- `Restored w removed done w'`: after a removal from `w`, the rows of some kinds are back. -/
structure Restored (w : Workspace) (removed : IdMap) (done : List Kind) (w' : Workspace) : Prop
    where
  inStep : w'.InStep
  /-- Nothing was set up against the calls that are still to come. -/
  applies : ∀ k, w.session.snapshot.rowsOf removed k ≠ [] → w'.store.applyFails = false
  records : ∀ k i, w'.session.snapshot.record? k i =
    if removed.has k i = true ∧ k ∉ done then none else w.session.snapshot.record? k i
  forgotten : ∀ k ∈ done, ∀ i, removed.has k i = true → w.session.snapshot.contains k i = true →
    w'.session.removed.has k i = false

/-- Adding the rows of one more kind brings that kind back. -/
theorem Restored.readd {removed : IdMap} {done : List Kind} (h : Restored w removed done w')
    (hids : ∀ row ∈ w.session.snapshot.rowsOf removed k, Row.id k row ≠ pendingId)
    (hk : k ∉ done) :
    (∃ result, (w'.readd k (w.session.snapshot.recordsOf removed k)).outcome = .ok result) ∧
      Restored w removed (k :: done)
        (w'.readd k (w.session.snapshot.recordsOf removed k)).state := by
  have hmissing (i : Id) : w'.session.snapshot.record? k i =
      if removed.has k i = true then none else w.session.snapshot.record? k i := by
    simpa [hk] using h.records k i
  have hfree (row : Row k) (hrow : row ∈ w.session.snapshot.rowsOf removed k) :
      (w'.store.table k).contains (Row.id k row) = false := by
    rw [← h.inStep.contains, ← Snapshot.record?_eq_none_iff, hmissing,
      if_pos (Snapshot.mem_rowsOf.1 hrow).2]
  rcases readd_of_free hids hfree (w.session.snapshot.nodup_ids_rowsOf removed k) (h.applies k)
    with ⟨hok, hsession, happlies⟩
  have hstep := readd_inStep (k := k) h.inStep (w.session.snapshot.recordsOf removed k)
  rw [Snapshot.recordsOf_eq] at hstep ⊢
  refine ⟨hok, hstep, fun j hj => by rw [happlies, h.applies j hj], fun j i => ?_,
    fun j hj i hhas hi => ?_⟩
  · rw [hsession, snapshot_addRows]
    by_cases hj : k = j
    · subst hj
      rw [Snapshot.record?_putRows_rowsOf hmissing, if_neg (by simp)]
    · rw [Snapshot.record?, Snapshot.find?_putRows_of_ne _ _ hj, ← Snapshot.record?, h.records]
      simp [Ne.symm hj]
  · rw [hsession, Session.addRows, Session.has_removed_recordAdded, Bool.and_eq_false_iff]
    rcases List.mem_cons.1 hj with rfl | hdone
    · rcases Snapshot.contains_iff.1 hi with ⟨row, hrow⟩
      rcases Snapshot.find?_eq_some_iff.1 hrow with ⟨hmem, rfl⟩
      have hput : ∃ r ∈ w.session.snapshot.rowsOf removed j, Row.id j r = Row.id j row :=
        ⟨row, Snapshot.mem_rowsOf.2 ⟨hmem, hhas⟩, rfl⟩
      right
      simpa [idsOf] using hput
    · exact Or.inl (h.forgotten j hdone i hhas hi)

/-- Whatever the order of the kinds, a readd for each of them brings them all back. -/
theorem Restored.restore {removed : IdMap} {done kinds : List Kind}
    (h : Restored w removed done w')
    (hids : ∀ k, ∀ row ∈ w.session.snapshot.rowsOf removed k, Row.id k row ≠ pendingId)
    (hnodup : kinds.Nodup) (hnew : ∀ k ∈ kinds, k ∉ done) :
    let run := w'.restore (w.session.snapshot.recordsOf removed) kinds
    (∃ results, run.outcome = .ok results) ∧
      Restored w removed (kinds.reverse ++ done) run.state := by
  dsimp only
  rw [Workspace.restore]
  induction kinds generalizing w' done with
  | nil => exact ⟨⟨_, rfl⟩, h⟩
  | cons k kinds ih =>
    rw [List.forall_mem_cons] at hnew
    rcases List.nodup_cons.1 hnodup with ⟨hother, hnodup⟩
    rcases h.readd (hids k) hnew.1 with ⟨⟨result, hok⟩, hnext⟩
    have hrest (j : Kind) (hj : j ∈ kinds) : j ∉ k :: done := by
      rw [List.mem_cons]
      rintro (rfl | hdone)
      · exact hother hj
      · exact hnew.2 j hj hdone
    rcases ih hnext hnodup hrest with ⟨⟨results, hresults⟩, hall⟩
    rw [Run.state_each_cons hok, List.reverse_cons, List.append_assoc]
    exact ⟨⟨_, Run.outcome_each_cons hok hresults⟩, hall⟩

theorem remove_eq (o : Options) (w : Workspace) (roots : IdMap) (strict : Option Bool) :
    (∃ f log, w.remove o roots strict = .failed f w log) ∨
      ∃ left removed rejected log,
        w.remove o roots strict = (w.removeRows left removed rejected).after log := by
  unfold remove
  dsimp only
  split
  next => exact Or.inl ⟨_, _, rfl⟩
  next =>
    split
    · refine Or.inr ⟨∅, ∅, w.session.snapshot.unknownRoots roots,
        (w.session.snapshot.unknownRoots roots).map Rejection.log, ?_⟩
      rw [removeRows_of_isEmpty w ∅ _ rfl]
      simp [Run.done, Run.after]
    · split
      next => exact Or.inl ⟨_, _, rfl⟩
      next =>
        split
        next => exact Or.inl ⟨_, _, rfl⟩
        next =>
          split
          next => exact Or.inl ⟨_, _, rfl⟩
          next => exact Or.inr ⟨_, _, _, _, rfl⟩

/-- After a removal that detached no definition, the rows that it took are missing. -/
theorem restored_of_remove (hstep : w.InStep) {roots : IdMap} {strict : Option Bool}
    {result : RemoveResult} (hok : (w.remove o roots strict).outcome = .ok result)
    (hdetached : result.detached = []) :
    Restored w result.removed [] (w.remove o roots strict).state := by
  have hnext := remove_inStep (o := o) hstep roots strict
  obtain ⟨f, log, hfailed⟩ | ⟨left, removed, rejected, log, hremove⟩ := remove_eq o w roots strict
  · rw [hfailed] at hok
    cases hok
  rw [hremove] at hok hnext ⊢
  rw [Run.outcome_after] at hok
  rw [Run.state_after] at hnext ⊢
  cases hempty : removed.isEmpty with
  | true =>
    rw [removeRows_of_isEmpty w left rejected hempty] at hok hnext ⊢
    obtain rfl := Except.ok.inj hok
    have hnone (k : Kind) : w.session.snapshot.rowsOf ∅ k = [] := by simp [Snapshot.rowsOf]
    exact ⟨hnext, fun k hk => absurd (hnone k) hk, fun k i => by simp [Run.done], by simp⟩
  | false =>
    obtain ⟨f, _, hfailed⟩ | ⟨hdone, happly, hsnapshot⟩ := removeRows_cases w left rejected hempty
    · rw [hfailed] at hok
      cases hok
    rw [hdone] at hok
    obtain rfl := Except.ok.inj hok
    have hkept : w.session.snapshot.without removed = w.session.snapshot.eraseAll removed := by
      rw [Snapshot.without, List.map_eq_nil_iff.1 hdetached]
      rfl
    obtain ⟨happlies, tables, _, hstore⟩ := Store.apply_eq_ok_iff.1 happly
    refine ⟨hnext, fun k _ => by rw [hstore, happlies], fun k i => ?_, by simp⟩
    rw [hsnapshot, hkept, Snapshot.record?, Snapshot.find?_eraseAll]
    cases removed.has k i <;> simp [Snapshot.record?]

/-- A removal that detached no definition is undone by adding the records of its rows again, one
call for each kind in any order: the session and a load of the store have the records that they had,
and none of the rows counts as removed. -/
theorem restore_remove (o : Options) {w : Workspace} (hstep : w.InStep) (hkeyed : w.store.Keyed)
    {roots : IdMap} {strict : Option Bool} {result : RemoveResult}
    (hok : (w.remove o roots strict).outcome = .ok result) (hdetached : result.detached = [])
    {kinds : List Kind} (hnodup : kinds.Nodup)
    (hkinds : ∀ k i, result.removed.has k i = true → w.session.snapshot.contains k i = true →
      k ∈ kinds) :
    let restored := (w.remove o roots strict).state.restore
      (w.session.snapshot.recordsOf result.removed) kinds
    (∃ results, restored.outcome = .ok results) ∧
      (∀ k i, restored.state.session.snapshot.record? k i = w.session.snapshot.record? k i) ∧
      (∃ s, Snapshot.load restored.state.store [] = .ok s ∧
        ∀ k i, s.record? k i = w.session.snapshot.record? k i) ∧
      ∀ k i, result.removed.has k i = true → w.session.snapshot.contains k i = true →
        restored.state.session.removed.has k i = false := by
  intro restored
  have hids (k : Kind) (row : Row k) (hrow : row ∈ w.session.snapshot.rowsOf result.removed k) :
      Row.id k row ≠ pendingId := by
    intro hid
    have hthere := Snapshot.contains_of_mem (Snapshot.mem_rowsOf.1 hrow).1
    rw [hid, hstep.contains, hkeyed k] at hthere
    cases hthere
  rcases (restored_of_remove hstep hok hdetached).restore hids hnodup (by simp) with
    ⟨hresults, hrestored⟩
  have hrecords (k : Kind) (i : Id) :
      restored.state.session.snapshot.record? k i = w.session.snapshot.record? k i := by
    rw [hrestored.records]
    split
    next h =>
      rw [eq_comm, Snapshot.record?_eq_none_iff, ← Bool.not_eq_true]
      intro hthere
      exact h.2 (by simpa using hkinds k i h.1 hthere)
    next => rfl
  refine ⟨hresults, hrecords, ⟨_, hrestored.inStep, hrecords⟩, fun k i hhas hthere => ?_⟩
  exact hrestored.forgotten k (by simpa using hkinds k i hhas hthere) i hhas hthere

/-- The tool of the pumps, what it has of features, and its method. -/
def toolRemoved : IdMap := .ofNodes [(.tool, 1), (.toolFeature, 1), (.toolFeatureMethod, 1)]

theorem outcome_remove_tool :
    ((⟨pumps, pumpsSession⟩ : Workspace).remove {} (.ofNodes [(.tool, 1)]) none).outcome =
      .ok ⟨toolRemoved, [], []⟩ := by
  have hknown : pumpsSession.snapshot.knownRoots (.ofNodes [(.tool, 1)]) =
      .ofNodes [(.tool, 1)] := rfl
  have hcascade : pumpsSession.snapshot.cascade false (.ofNodes [(.tool, 1)]) =
      .ok toolRemoved := by cbv
  have hsettle : pumpsSession.snapshot.settle false (.ofNodes [(.tool, 1)]) toolRemoved =
      ⟨.ofNodes [(.tool, 1)], toolRemoved, [], []⟩ := by cbv
  unfold remove
  simp only [hknown, hcascade, hsettle]
  rfl

theorem restore_remove_pumps :
    let w : Workspace := ⟨pumps, pumpsSession⟩
    let removal := w.remove {} (.ofNodes [(.tool, 1)]) none
    let restored := removal.state.restore (w.session.snapshot.recordsOf toolRemoved)
      [.toolFeatureMethod, .tool, .toolFeature]
    w.InStep ∧ pumps.Keyed ∧ removal.outcome = .ok ⟨toolRemoved, [], []⟩ ∧
      (∃ results, restored.outcome = .ok results) ∧
      (∀ k i, restored.state.session.snapshot.record? k i = w.session.snapshot.record? k i) ∧
      (∃ s, Snapshot.load restored.state.store [] = .ok s ∧
        ∀ k i, s.record? k i = w.session.snapshot.record? k i) ∧
      ∀ k i, toolRemoved.has k i = true → w.session.snapshot.contains k i = true →
        restored.state.session.removed.has k i = false := by
  intro w removal restored
  have hstep : w.InStep := inStep_of_open open_pumps
  have hkeyed : pumps.Keyed := by
    intro k
    cases k <;> rfl
  have hkinds (k : Kind) (i : Id) (h : toolRemoved.has k i = true)
      (_ : w.session.snapshot.contains k i = true) :
      k ∈ [Kind.toolFeatureMethod, .tool, .toolFeature] := by
    rw [toolRemoved, IdMap.has_ofNodes, decide_eq_true_iff] at h
    simp only [List.mem_cons, Prod.mk.injEq, List.not_mem_nil, or_false] at h ⊢
    tauto
  exact ⟨hstep, hkeyed, outcome_remove_tool,
    restore_remove {} hstep hkeyed outcome_remove_tool rfl (by decide) hkinds⟩

end Workspace

end EntityStore
