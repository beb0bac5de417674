import EntityStore.Engine.History
import EntityStore.Proofs.Check.Accepted
import EntityStore.Proofs.Engine.Writing
import EntityStore.Proofs.Row
import EntityStore.Proofs.Store.Apply
/-!
# What a checked call does to the rows

A checked call leaves the rows of a workspace as they were, or changes those of the session in the
way of its sort (`Snapshot.Change`): accepted candidates come in under ids that no row had,
accepted updates stand in for rows that exist, and a removal takes the removal set of some of its
roots, against which nothing stands. New ids are new in the session because every row of the session
is in the store (`Workspace.Covers`), which refuses ids that it has.
-/
namespace EntityStore

/-- `s.Change o c s'`: the call `c` of an engine with options `o` makes `s'` of the rows of `s`. -/
inductive Snapshot.Change (o : Options) (s : Snapshot) : Call → Snapshot → Prop where
  | insert {k : Kind} {candidates : List Record} {strict : Option Bool} {duplicates : Bool}
      {checked : CheckResult k} {range : IdRange}
      (check : s.checkInsert k candidates (strict.getD o.strict) = .ok checked)
      (fresh : ∀ row ∈ numbered k checked.accepted range, s.contains k (Row.id k row) = false) :
    Change o s (.insert k candidates strict duplicates)
      (s.putRows k ((numbered k checked.accepted range).map (Row.stored k)))
  | update {k : Kind} {changes : List Record} {strict : Option Bool} {checked : CheckResult k}
      (check : s.checkUpdate k changes (strict.getD o.strict) = .ok checked) :
    Change o s (.update k changes strict) (s.putRows k (checked.accepted.map (Row.stored k)))
  | remove {roots left removed : IdMap} {strict : Option Bool}
      (sub : ∀ k i, left.has k i = true → roots.has k i = true)
      (set : s.IsRemovalSet o.withClasses left removed) (free : s.keptValues removed = []) :
    Change o s (.remove roots strict) (s.without removed)

theorem mem_numbered {k : Kind} {rows : List (Row k)} {range : IdRange} {row : Row k}
    (h : row ∈ numbered k rows range) : ∃ r ∈ rows, ∃ i, Row.withId k i r = row := by
  unfold numbered at h
  rcases List.getElem_of_mem h with ⟨n, hn, rfl⟩
  rw [List.getElem_zipWith]
  exact ⟨_, List.getElem_mem _, _, rfl⟩

theorem map_id_numbered {k : Kind} {rows : List (Row k)} {range : IdRange}
    (h : range.count = rows.length) :
    (numbered k rows range).map (Row.id k) = range.toList := by
  have hlength := range.length_toList
  apply List.ext_getElem
  · simp [numbered, hlength, h]
  · intro n h₁ h₂
    simp [numbered, Row.id_withId]

section Check
variable {s : Snapshot} {k : Kind} {strict : Bool} {checked : CheckResult k}

theorem valid_of_inserted {candidates : List Record} {range : IdRange}
    (h : s.checkInsert k candidates strict = .ok checked) :
    ∀ row ∈ (numbered k checked.accepted range).map (Row.stored k), Row.Valid s k row := by
  intro row hrow
  rcases List.mem_map.1 hrow with ⟨row, hmem, rfl⟩
  rcases mem_numbered hmem with ⟨accepted, haccepted, i, rfl⟩
  exact Row.valid_stored.2 (Row.valid_withId.2 (valid_of_checkInsert h accepted haccepted))

theorem fresh_of_inserted {range : IdRange}
    (h : ∀ row ∈ numbered k checked.accepted range, s.contains k (Row.id k row) = false) :
    ∀ row ∈ (numbered k checked.accepted range).map (Row.stored k),
      s.contains k (Row.id k row) = false := by
  intro row hrow
  rcases List.mem_map.1 hrow with ⟨row, hmem, rfl⟩
  rw [Row.id_stored]
  exact h row hmem

theorem valid_of_updated {changes : List Record}
    (h : s.checkUpdate k changes strict = .ok checked) :
    ∀ row ∈ checked.accepted.map (Row.stored k), Row.Valid s k row := by
  intro row hrow
  rcases List.mem_map.1 hrow with ⟨row, hmem, rfl⟩
  exact Row.valid_stored.2 (valid_of_checkUpdate h row hmem)

end Check

namespace Workspace

/-- Every row of the session is in the store. -/
def Covers (w : Workspace) : Prop :=
  ∀ k i, w.session.snapshot.contains k i = true → (w.store.table k).contains i = true

/-- The rows of the store and of the session are the same in both. -/
structure SameRows (w w' : Workspace) : Prop where
  tables : w'.store.tables = w.store.tables
  snapshot : w'.session.snapshot = w.session.snapshot

theorem SameRows.covers {w w' : Workspace} (h : SameRows w w') (hw : w.Covers) : w'.Covers := by
  intro k i hi
  rw [h.snapshot] at hi
  rw [Store.table, h.tables]
  exact hw k i hi

theorem SameRows.of_untouched {w w' : Workspace} (hstore : w.store.Untouched w'.store)
    (hsession : w'.session = w.session) : SameRows w w' :=
  ⟨hstore.tables, congrArg Session.snapshot hsession⟩

/-- The changes of an operation are made in the store and the session goes on with them, or the
rows stay the same. -/
theorem commit_cases {α : Type} (w : Workspace) (op : Operation) (c : ChangeSet) (session : Session)
    (result : α) (log : List Log.Entry) :
    SameRows w (w.commit op c session result log).state ∨
      w.store.tables.change c = .ok (w.commit op c session result log).state.store.tables ∧
        (w.commit op c session result log).state.session = session := by
  obtain ⟨f, _, hstore, hsession⟩ | ⟨_, hchange, _, hsession⟩ :=
    w.commit_outcome op c session result log
  · exact Or.inl (.of_untouched hstore hsession)
  · exact Or.inr ⟨hchange, hsession⟩

theorem Writes.cases {α : Type} {w : Workspace} {op : Operation} {C : ChangeSet → Session → Prop}
    {r : Run Workspace α} (h : Writes w op C r) :
    SameRows w r.state ∨ ∃ c session, C c session ∧
      w.store.tables.change c = .ok r.state.store.tables ∧ r.state.session = session := by
  cases h with
  | stopped log _ => exact Or.inl ⟨rfl, rfl⟩
  | nothing result log => exact Or.inl ⟨rfl, rfl⟩
  | @committed c session hc result before after =>
    rw [Run.state_after]
    obtain hsame | hchange := w.commit_cases op c session result after
    · exact Or.inl hsame
    · exact Or.inr ⟨c, session, hc, hchange⟩

section Write
variable {o : Options} {w : Workspace} {k : Kind}

theorem insert_cases (candidates : List Record) (strict : Option Bool) (duplicates : Bool) :
    SameRows w (w.insert o k candidates strict duplicates).state ∨
      ∃ checked range,
        w.session.snapshot.checkInsert k candidates (strict.getD o.strict) = .ok checked ∧
        w.store.tables.change
            (.ofInserts k ((numbered k checked.accepted range).map (Row.toRecord k))) =
          .ok (w.insert o k candidates strict duplicates).state.store.tables ∧
        (w.insert o k candidates strict duplicates).state.session.snapshot =
          w.session.snapshot.putRows k
            ((numbered k checked.accepted range).map (Row.stored k)) := by
  have hinserts := insert_inserts (o := o) (w := w) (k := k) candidates strict duplicates
  generalize w.insert o k candidates strict duplicates = r at hinserts ⊢
  cases hinserts with
  | stopped _ => exact Or.inl ⟨rfl, rfl⟩
  | nothing log _ => exact Or.inl ⟨rfl, rfl⟩
  | refused log hstore => exact Or.inl (.of_untouched hstore rfl)
  | @reserved checked range hcheck _ _ _ rows hrows ids before after =>
    rw [Run.state_after]
    obtain hsame | ⟨hchange, hsession⟩ := commit_cases
      { w with store := w.store.advanced k range.stop } .insert _ _
      (⟨rows.map (Row.toRecord k), ids, checked.rejected⟩ : MutationResult) after
    · exact Or.inl ⟨hsame.tables, hsame.snapshot⟩
    · refine Or.inr ⟨checked, range, hcheck, ?_, ?_⟩
      · rw [← hrows]
        exact hchange
      · rw [← hrows, hsession, Session.addRows, Session.recordAdded]
        split <;> rfl

theorem update_cases (changes : List Record) (strict : Option Bool) :
    SameRows w (w.update o k changes strict).state ∨
      ∃ checked,
        w.session.snapshot.checkUpdate k changes (strict.getD o.strict) = .ok checked ∧
        w.store.tables.change (.ofUpdates k (checked.accepted.map (Row.toRecord k))) =
          .ok (w.update o k changes strict).state.store.tables ∧
        (w.update o k changes strict).state.session.snapshot =
          w.session.snapshot.putRows k (checked.accepted.map (Row.stored k)) := by
  obtain hsame | ⟨_, _, ⟨checked, hcheck, rfl, rfl⟩, hchange, hsession⟩ :=
    (update_writes (o := o) (w := w) (k := k) changes strict).cases
  · exact Or.inl hsame
  · exact Or.inr ⟨checked, hcheck, hchange, congrArg Session.snapshot hsession⟩

theorem remove_cases (roots : IdMap) (strict : Option Bool) :
    SameRows w (w.remove o roots strict).state ∨
      ∃ left removed, (∀ k i, left.has k i = true → roots.has k i = true) ∧
        w.session.snapshot.IsRemovalSet o.withClasses left removed ∧
        w.session.snapshot.keptValues removed = [] ∧
        w.store.tables.change (.ofRemoval removed .parameterDefinition
            ((w.session.snapshot.detachedBy removed).map ParameterDefinition.toRecord)) =
          .ok (w.remove o roots strict).state.store.tables ∧
        (w.remove o roots strict).state.session.snapshot =
          w.session.snapshot.without removed := by
  obtain hsame | ⟨_, _, ⟨left, removed, hsub, hset, hfree, rfl, rfl⟩, hchange, hsession⟩ :=
    (remove_writes (o := o) (w := w) roots strict).cases
  · exact Or.inl hsame
  · exact Or.inr ⟨left, removed, hsub, hset, hfree, hchange, congrArg Session.snapshot hsession⟩

end Write

section Open
variable {store : Store}

theorem contains_of_ofRecords {k : Kind} {rs : List Record} {t : Table k} {i : Id}
    (h : Table.ofRecords k rs = .ok t) (hi : t.contains i = true) : ∃ r ∈ rs, r.id = i := by
  simp only [Table.ofRecords, bind_eq_ok_iff, pure_eq_ok_iff] at h
  rcases h with ⟨rows, hrows, rfl⟩
  rcases Ascending.contains_iff.1 hi with ⟨row, hrow, rfl⟩
  have hmem : row ∈ rows := by
    have hfind := Ascending.mem_iff_find?.1 hrow
    rw [Ascending.find?_ofList] at hfind
    exact List.mem_reverse.1 (List.mem_of_find?_eq_some hfind)
  rcases mem_of_mapM_eq_ok hrows row hmem with ⟨r, hr, hread⟩
  exact ⟨r, hr, (Row.id_of_ofRecord hread).symm⟩

theorem covers_reload {s s' : Snapshot} {k : Kind} (h : s.reload store k = .ok s')
    (hs : ∀ j i, s.contains j i = true → (store.table j).contains i = true) :
    ∀ j i, s'.contains j i = true → (store.table j).contains i = true := by
  unfold Snapshot.reload at h
  split at h
  next => cases h
  next t ht =>
    obtain rfl := Except.ok.inj h
    intro j i hi
    by_cases hj : k = j
    · subst hj
      have hi : t.contains i = true := by
        have htable := s.table_withTable_self k t
        rw [Snapshot.table] at htable
        rw [Snapshot.contains, Snapshot.table] at hi
        rw [← htable]
        exact hi
      rcases contains_of_ofRecords ht hi with ⟨r, hr, rfl⟩
      exact Ascending.contains_iff.2 ⟨r, hr, rfl⟩
    · apply hs j i
      have htable := s.table_withTable_of_ne t hj
      rw [Snapshot.contains, ← htable]
      exact hi

theorem covers_of_open {session : Session} (h : Session.open store = .ok session) :
    Covers ⟨store, session⟩ := by
  simp only [Session.open, bind_eq_ok_iff, pure_eq_ok_iff] at h
  rcases h with ⟨s, hload, rfl⟩
  have hfold (kinds : List Kind) (s s' : Snapshot)
      (h : kinds.foldlM (fun s k => s.reload store k) s = .ok s')
      (hs : ∀ j i, s.contains j i = true → (store.table j).contains i = true) :
      ∀ j i, s'.contains j i = true → (store.table j).contains i = true := by
    induction kinds generalizing s with
    | nil =>
      rw [← pure_eq_ok_iff.1 h]
      exact hs
    | cons k kinds ih =>
      rw [List.foldlM_cons, bind_eq_ok_iff] at h
      rcases h with ⟨next, hnext, h⟩
      exact ih next h (covers_reload hnext hs)
  apply hfold _ _ _ hload
  intro j i hi
  rw [Snapshot.contains, Snapshot.unloaded, Snapshot.table, ByKind.get_ofFn] at hi
  cases hi

end Open

section Perform
variable {o : Options} {w : Workspace}

theorem insert_change (h : w.Covers) (k : Kind) (candidates : List Record) (strict : Option Bool)
    (duplicates : Bool) :
    let next := (w.insert o k candidates strict duplicates).state
    next.Covers ∧ (next.session.snapshot = w.session.snapshot ∨
      w.session.snapshot.Change o (.insert k candidates strict duplicates)
        next.session.snapshot) := by
  intro next
  rcases insert_cases candidates strict duplicates with
    hsame | ⟨checked, range, hcheck, hchange, hs⟩
  · exact ⟨hsame.covers h, Or.inl hsame.snapshot⟩
  · rcases RecordTables.of_change_ofInserts hchange with ⟨hnew, hids, hother⟩
    constructor
    · intro j i hi
      rw [hs] at hi
      by_cases hj : k = j
      · subst hj
        apply (hids i).2
        rcases Snapshot.contains_putRows_self.1 hi with hold | ⟨row, hrow, hid⟩
        · exact Or.inl (h k i hold)
        · rcases List.mem_map.1 hrow with ⟨row, hmem, rfl⟩
          refine Or.inr ⟨_, List.mem_map_of_mem hmem, ?_⟩
          rw [Row.id_toRecord, ← hid, Row.id_stored]
      · rw [Snapshot.contains_putRows_of_ne hj] at hi
        rw [Store.table, hother j hj]
        exact h j i hi
    · rw [hs]
      refine Or.inr (.insert hcheck ?_)
      intro row hrow
      rw [← Bool.not_eq_true]
      intro hold
      have hstored := h k _ hold
      rw [← Row.id_toRecord, Store.table, hnew _ (List.mem_map_of_mem hrow)] at hstored
      cases hstored

theorem update_change (h : w.Covers) (k : Kind) (changes : List Record) (strict : Option Bool) :
    let next := (w.update o k changes strict).state
    next.Covers ∧ (next.session.snapshot = w.session.snapshot ∨
      w.session.snapshot.Change o (.update k changes strict) next.session.snapshot) := by
  intro next
  rcases update_cases changes strict with hsame | ⟨checked, hcheck, hchange, hs⟩
  · exact ⟨hsame.covers h, Or.inl hsame.snapshot⟩
  · constructor
    · intro j i hi
      apply (RecordTables.contains_change_ofUpdates hchange j i).2
      apply h j i
      rw [hs] at hi
      by_cases hj : k = j
      · subst hj
        rcases Snapshot.contains_putRows_self.1 hi with hold | ⟨row, hrow, rfl⟩
        · exact hold
        · rcases List.mem_map.1 hrow with ⟨row, hmem, rfl⟩
          rw [Row.id_stored]
          exact contains_of_checkUpdate hcheck row hmem
      · rw [Snapshot.contains_putRows_of_ne hj] at hi
        exact hi
    · rw [hs]
      exact Or.inr (.update hcheck)

theorem remove_change (h : w.Covers) (roots : IdMap) (strict : Option Bool) :
    let next := (w.remove o roots strict).state
    next.Covers ∧ (next.session.snapshot = w.session.snapshot ∨
      w.session.snapshot.Change o (.remove roots strict) next.session.snapshot) := by
  intro next
  rcases remove_cases roots strict with hsame | ⟨left, removed, hsub, hset, hfree, hchange, hs⟩
  · exact ⟨hsame.covers h, Or.inl hsame.snapshot⟩
  · constructor
    · intro j i hi
      rw [hs, Snapshot.contains_without] at hi
      exact (RecordTables.contains_change_ofRemoval hchange j i).2 ⟨h j i hi.1, hi.2⟩
    · rw [hs]
      exact Or.inr (.remove hsub hset hfree)

theorem perform_change (h : w.Covers) {c : Call} (hc : c.isChecked = true) :
    (w.perform o c).state.Covers ∧
      ((w.perform o c).state.session.snapshot = w.session.snapshot ∨
        w.session.snapshot.Change o c (w.perform o c).state.session.snapshot) := by
  cases c with
  | insert k candidates strict duplicates => exact insert_change h k candidates strict duplicates
  | update k changes strict => exact update_change h k changes strict
  | remove roots strict => exact remove_change h roots strict
  | readd k records => cases hc

/-- A checked event keeps the session covered by the store, and changes the rows of the session as
a call does, if at all. -/
theorem react_change (h : w.Covers) {e : Event} (he : e.isChecked = true) :
    (w.react o e).Covers ∧ ((w.react o e).session.snapshot = w.session.snapshot ∨
      ∃ c, e = .call c ∧ w.session.snapshot.Change o c (w.react o e).session.snapshot) := by
  cases e with
  | disturb cursor claimed applyFails claimFails => exact ⟨h, Or.inl rfl⟩
  | call c =>
    rcases perform_change h he with ⟨hcovers, hsame | hchange⟩
    · exact ⟨hcovers, Or.inl hsame⟩
    · exact ⟨hcovers, Or.inr ⟨c, rfl, hchange⟩⟩

/-- A checked event keeps of a covered session what every change of rows keeps. -/
theorem react_keeps {P : Snapshot → Prop} (keeps : ∀ s c s', s.Change o c s' → P s → P s')
    {e : Event} (he : e.isChecked = true) (h : w.Covers ∧ P w.session.snapshot) :
    (w.react o e).Covers ∧ P (w.react o e).session.snapshot := by
  rcases react_change (o := o) h.1 he with ⟨hcovers, hsame | ⟨c, _, hchange⟩⟩
  · exact ⟨hcovers, hsame ▸ h.2⟩
  · exact ⟨hcovers, keeps _ c _ hchange h.2⟩

/-- What every change of rows keeps holds of the session at the end of a checked history, and the
session is covered by the store. -/
theorem run_keeps {P : Snapshot → Prop} (keeps : ∀ s c s', s.Change o c s' → P s → P s')
    {store : Store} {session : Session} (hopen : Session.open store = .ok session)
    (h : P session.snapshot) {events : List Event}
    (hchecked : ∀ e ∈ events, e.isChecked = true) :
    ((⟨store, session⟩ : Workspace).run o events).Covers ∧
      P ((⟨store, session⟩ : Workspace).run o events).session.snapshot :=
  run_invariant (P := fun w => w.Covers ∧ P w.session.snapshot)
    (fun _ _ he hw => react_keeps keeps he hw) ⟨covers_of_open hopen, h⟩ hchecked

end Perform

end Workspace

end EntityStore
