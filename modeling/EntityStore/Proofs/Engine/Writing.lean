import EntityStore.Engine.Call
import EntityStore.Proofs.Engine.Removal
import EntityStore.Proofs.Store.Cursor
/-!
# How a call writes

A call stops before it writes, has nothing to write, or commits one set of changes as its last step
(`Workspace.Writes`). An insert has ids handed out before it commits, and may be refused them
(`Workspace.Inserts`). What is said of a call by its writing needs these cases and no more.
-/
namespace EntityStore

theorem ne_applyFailed_of_checkBatch {σ : Type} {k : Kind} {f : Failure}
    {step : σ → Record → Except Rejection (Row k) × σ} {state : σ} {items : List Record}
    {strict : Bool}
    (h : checkBatch step state items strict = .error f) (op : Operation) (g : StorageFault) :
    f ≠ .applyFailed op g := by
  unfold checkBatch at h
  split at h
  · split at h <;> cases h
    simp
  · cases h

namespace Snapshot
variable {s : Snapshot} {k : Kind} {f : Failure}

theorem ne_applyFailed_of_checkInsert {candidates : List Record} {strict : Bool}
    (h : s.checkInsert k candidates strict = .error f) (op : Operation) (g : StorageFault) :
    f ≠ .applyFailed op g := by
  unfold checkInsert at h
  split at h
  · exact ne_applyFailed_of_checkBatch h op g
  · cases h
    simp

theorem ne_applyFailed_of_checkUpdate {changes : List Record} {strict : Bool}
    (h : s.checkUpdate k changes strict = .error f) (op : Operation) (g : StorageFault) :
    f ≠ .applyFailed op g := by
  unfold checkUpdate at h
  split at h
  · exact ne_applyFailed_of_checkBatch h op g
  · cases h
    simp

theorem of_cascade_error {withClasses : Bool} {roots : IdMap}
    (h : s.cascade withClasses roots = .error f) :
    s.isComplete = false ∧ ∃ g, f = .argument g := by
  unfold cascade at h
  split at h
  next k hk =>
    obtain rfl := Except.error.inj h
    have hmissing := List.find?_some hk
    refine ⟨?_, _, rfl⟩
    rw [← Bool.not_eq_true, isComplete, List.all_eq_true]
    intro hall
    simp [hall k (Kind.mem_all k)] at hmissing
  next => cases h

theorem of_checkRemoval_error {removal : IdMap} (h : s.checkRemoval removal = .error f) :
    s.isComplete = false ∧ ∃ g, f = .argument g := by
  unfold checkRemoval at h
  split at h
  next => cases h
  next hnot =>
    obtain rfl := Except.error.inj h
    exact ⟨Bool.not_eq_true _ ▸ hnot, _, rfl⟩

end Snapshot

namespace Workspace
variable {α : Type}

/-- `w.Writes op C run`: the run of an operation on `w` commits a set of changes and the session
that goes with it as `C` has them, if it writes at all. -/
inductive Writes (w : Workspace) (op : Operation) (C : ChangeSet → Session → Prop) :
    Run Workspace α → Prop
  where
  | stopped {f : Failure} (log : List Log.Entry) (h : ∀ op g, f ≠ .applyFailed op g) :
    Writes w op C (.failed f w log)
  | nothing (result : α) (log : List Log.Entry) : Writes w op C (.done result w log)
  | committed {c : ChangeSet} {session : Session} (h : C c session) (result : α)
      (before after : List Log.Entry) :
    Writes w op C ((w.commit op c session result after).after before)

section Writes
variable {w : Workspace} {op : Operation} {C : ChangeSet → Session → Prop}

theorem Writes.after {r : Run Workspace α} (h : Writes w op C r) (log : List Log.Entry) :
    Writes w op C (r.after log) := by
  cases h with
  | stopped own h => exact .stopped (log ++ own) h
  | nothing result own => exact .nothing result (log ++ own)
  | committed h result before own =>
    rw [Run.after_after]
    exact .committed h result _ own

theorem Writes.of_commit {c : ChangeSet} {session : Session} (h : C c session) (result : α)
    (log : List Log.Entry) : Writes w op C (w.commit op c session result log) := by
  rw [← Run.after_nil (w.commit op c session result log)]
  exact .committed h result [] log

end Writes

/-- A commit fails with what the store says and changes nothing, or makes the changes. -/
theorem commit_outcome (w : Workspace) (op : Operation) (c : ChangeSet) (session : Session)
    (result : α) (log : List Log.Entry) :
    let run := w.commit op c session result log
    (∃ f, run.outcome = .error (.applyFailed op f) ∧ w.store.Untouched run.state.store ∧
        run.state.session = w.session) ∨
      run.outcome = .ok result ∧ w.store.tables.change c = .ok run.state.store.tables ∧
        run.state.store.nextIds = w.store.nextIds ∧ run.state.session = session := by
  have hnext := w.store.nextIds_apply c
  unfold commit
  obtain ⟨f, hf, hsame⟩ | ⟨hok, hchange⟩ := w.store.apply_cases c
  all_goals rcases happly : w.store.apply c with ⟨answer, store⟩
  · rw [happly] at hf hsame
    subst hf
    exact Or.inl ⟨f, rfl, hsame, rfl⟩
  · rw [happly] at hok hchange hnext
    subst hok
    exact Or.inr ⟨rfl, hchange, hnext, rfl⟩

theorem commit_of_change {w : Workspace} {c : ChangeSet} {tables : RecordTables}
    (happlies : w.store.applyFails = false) (hchange : w.store.tables.change c = .ok tables)
    (op : Operation) (session : Session) (result : α) (log : List Log.Entry) :
    w.commit op c session result log =
      .done result ⟨{ w.store with tables, applyCount := w.store.applyCount + 1 }, session⟩
        log := by
  rw [commit, Store.apply_eq_ok_iff.2 ⟨happlies, tables, hchange, rfl⟩]

variable {o : Options} {w : Workspace} {k : Kind}

theorem readd_of_change {records : List Record} {rows : List (Row k)} {tables : RecordTables}
    (hsome : records ≠ []) (hrows : records.mapM (readdedRow k) = .ok rows)
    (happlies : w.store.applyFails = false)
    (hchange : w.store.tables.change (.ofInserts k records) = .ok tables) :
    w.readd k records = .done ⟨records, idsOf k rows, []⟩
      ⟨{ w.store with tables, applyCount := w.store.applyCount + 1 }, w.session.addRows k rows⟩
      [.info s!"Re-added {(idsOf k rows).size} {k.name} records"] := by
  rw [readd, if_neg hsome, hrows]
  exact commit_of_change happlies hchange _ _ _ _

theorem update_writes (changes : List Record) (strict : Option Bool) :
    Writes w .update
      (fun c session => ∃ checked,
        w.session.snapshot.checkUpdate k changes (strict.getD o.strict) = .ok checked ∧
        c = .ofUpdates k (checked.accepted.map (Row.toRecord k)) ∧
        session = w.session.put k (checked.accepted.map (Row.stored k)))
      (w.update o k changes strict) := by
  unfold update
  split
  next h => exact .stopped [] (Snapshot.ne_applyFailed_of_checkUpdate h)
  next checked hcheck =>
    dsimp only
    split
    · exact .nothing _ _
    · apply Writes.after
      unfold updateRows
      apply Writes.of_commit
      exact ⟨checked, hcheck, rfl, rfl⟩

theorem readd_writes (records : List Record) :
    Writes w .readd
      (fun c session => ∃ rows, records.mapM (readdedRow k) = .ok rows ∧
        c = .ofInserts k records ∧ session = w.session.addRows k rows)
      (w.readd k records) := by
  unfold readd
  split
  · exact .nothing _ _
  · split
    next => exact .stopped [] (by simp)
    next rows hrows =>
      apply Writes.of_commit
      exact ⟨rows, hrows, rfl, rfl⟩

/-- A removal settles on some of its roots and takes their removal set. -/
theorem remove_writes (roots : IdMap) (strict : Option Bool) :
    Writes w .remove
      (fun c session => ∃ left removed, (∀ k i, left.has k i = true → roots.has k i = true) ∧
        w.session.snapshot.IsRemovalSet o.withClasses left removed ∧
        w.session.snapshot.keptValues removed = [] ∧
        c = .ofRemoval removed .parameterDefinition
          ((w.session.snapshot.detachedBy removed).map ParameterDefinition.toRecord) ∧
        session = w.session.removeRows removed (w.session.snapshot.detachedBy removed))
      (w.remove o roots strict) := by
  unfold remove
  dsimp only
  split
  next => exact .stopped _ (by simp)
  next =>
    split
    · exact .nothing _ _
    · split
      next h =>
        obtain ⟨_, g, rfl⟩ := Snapshot.of_cascade_error h
        exact .stopped _ (by simp)
      next removed hcascade =>
        split
        next h =>
          obtain ⟨_, g, rfl⟩ := Snapshot.of_checkRemoval_error h
          exact .stopped _ (by simp)
        next =>
          split
          next => exact .stopped _ (by simp)
          next =>
            have hsettled := Snapshot.settle_spec w.session.snapshot o.withClasses
              (w.session.snapshot.knownRoots roots) removed (Snapshot.eq_of_cascade_eq_ok hcascade)
            obtain ⟨hsub, hset, hfree⟩ := hsettled
            apply Writes.after
            unfold removeRows
            split
            · exact .nothing _ _
            · apply Writes.of_commit
              refine ⟨_, _, fun k i hi => ?_, hset, hfree, rfl, rfl⟩
              exact Snapshot.has_of_has_knownRoots (hsub k i hi)

/-- `w.Inserts o k candidates strict run`: how the run of an insert goes. -/
inductive Inserts (o : Options) (w : Workspace) (k : Kind) (candidates : List Record)
    (strict : Option Bool) : Run Workspace MutationResult → Prop
  where
  | stopped {f : Failure} (h : ∀ op g, f ≠ .applyFailed op g) :
    Inserts o w k candidates strict (.failed f w [])
  | nothing {result : MutationResult} (log : List Log.Entry) (h : result.items = []) :
    Inserts o w k candidates strict (.done result w log)
  | refused {f : ContentionFault} {store : Store} (log : List Log.Entry)
      (h : w.store.Untouched store) :
    Inserts o w k candidates strict (.failed (.contention f) { w with store } log)
  | reserved {checked : CheckResult k} {range : IdRange}
      (check : w.session.snapshot.checkInsert k candidates (strict.getD o.strict) = .ok checked)
      (range_eq : range = ⟨w.store.firstFree k, checked.accepted.length⟩)
      (count_pos : 0 < range.count) (free : w.store.claimed = false)
      {rows : List (Row k)} (rows_eq : rows = numbered k checked.accepted range)
      (ids : IdSet) (before after : List Log.Entry) :
    Inserts o w k candidates strict
      ((({ w with store := w.store.advanced k range.stop } : Workspace).commit .insert
        (.ofInserts k (rows.map (Row.toRecord k))) (w.session.addRows k (rows.map (Row.stored k)))
        ⟨rows.map (Row.toRecord k), ids, checked.rejected⟩ after).after before)

theorem insert_inserts (candidates : List Record) (strict : Option Bool) (duplicates : Bool) :
    Inserts o w k candidates strict (w.insert o k candidates strict duplicates) := by
  unfold insert
  split
  next h => exact .stopped (Snapshot.ne_applyFailed_of_checkInsert h)
  next checked hcheck =>
    dsimp only
    split
    · exact .nothing _ rfl
    next hsome =>
      have hcount : checked.accepted.length ≠ 0 := mt List.length_eq_zero_iff.1 hsome
      unfold insertRows
      dsimp only
      rcases w.store.allocate_cases k o.owner hcount with
        ⟨f, houtcome, huntouched⟩ | ⟨hfree, houtcome, hstate⟩
      · rw [houtcome]
        exact .refused _ huntouched
      · rw [houtcome, hstate]
        dsimp only
        rw [Run.after_after]
        exact .reserved hcheck rfl (Nat.pos_of_ne_zero hcount) hfree rfl _ _ _

end Workspace

end EntityStore
