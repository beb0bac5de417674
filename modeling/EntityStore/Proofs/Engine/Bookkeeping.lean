import EntityStore.Engine.Turns
import EntityStore.Proofs.Engine.Undo
/-!
# What a session has on record

What a session added and removed since it was opened is exactly what its snapshot differs by from
the one that it was opened with (`Session.Tracks`). Rows that come in are taken off the removed
ones, and rows that go off the added ones, so this outlasts rows that come and go any number of
times. Of the store nothing is needed but that a call that it refuses leaves the session alone.
-/
namespace EntityStore

theorem Snapshot.contains_putRows (s : Snapshot) {k : Kind} (rows : List (Row k)) (j : Kind)
    (i : Id) :
    (s.putRows k rows).contains j i =
      (s.contains j i || decide (k = j) && (idsOf k rows).contains i) := by
  by_cases hj : k = j
  · subst hj
    rw [Bool.eq_iff_iff, contains_putRows_self, idsOf, IdSet.contains_ofIds]
    simp
  · rw [contains_putRows_of_ne hj, decide_eq_false hj, Bool.false_and, Bool.or_false]

namespace Session

/-- `s.Tracks opened`: what the session has on record leads from the rows of `opened` to its own. -/
structure Tracks (s : Session) (opened : Snapshot) : Prop where
  /-- No row is on record as both added and removed. -/
  disjoint : ∀ k i, ¬ (s.added.has k i = true ∧ s.removed.has k i = true)
  /-- No kind is listed without an id. -/
  dense_added : s.added.Dense
  dense_removed : s.removed.Dense
  added_there : ∀ k i, s.added.has k i = true → s.snapshot.contains k i = true
  removed_gone : ∀ k i, s.removed.has k i = true → s.snapshot.contains k i = false
  ids_iff : ∀ k i, s.snapshot.contains k i = true ↔
    (opened.contains k i = true ∨ s.added.has k i = true) ∧ s.removed.has k i = false

/-- The rest follows from what the ids of the snapshot are and that added rows are there. -/
theorem Tracks.of_ids {s : Session} {opened : Snapshot} (hadded : s.added.Dense)
    (hremoved : s.removed.Dense)
    (hthere : ∀ k i, s.added.has k i = true → s.snapshot.contains k i = true)
    (hids : ∀ k i, s.snapshot.contains k i = true ↔
      (opened.contains k i = true ∨ s.added.has k i = true) ∧ s.removed.has k i = false) :
    s.Tracks opened where
  disjoint k i h := by
    rw [((hids k i).1 (hthere k i h.1)).2] at h
    cases h.2
  dense_added := hadded
  dense_removed := hremoved
  added_there := hthere
  removed_gone k i h := by
    rw [← Bool.not_eq_true, hids, h]
    simp
  ids_iff := hids

section Steps
variable {s : Session} {opened : Snapshot} {k : Kind}

theorem tracks_start (opened : Snapshot) : Tracks ⟨opened, ∅, ∅⟩ opened :=
  .of_ids IdMap.dense_empty IdMap.dense_empty (by simp) (by simp)

theorem has_added_recordAdded (s : Session) (k : Kind) (ids : IdSet) (j : Kind) (i : Id) :
    (s.recordAdded k ids).added.has j i =
      (s.added.has j i || decide (k = j) && ids.contains i) := by
  rw [recordAdded]
  split
  next h =>
    obtain rfl := IdSet.eq_empty_of_isEmpty h
    simp
  next => exact IdMap.has_add _ _ _ _ _

theorem has_added_recordRemoved (s : Session) (m : IdMap) (j : Kind) (i : Id) :
    (s.recordRemoved m).added.has j i = (s.added.has j i && !m.has j i) := by
  rw [recordRemoved, IdMap.has_prune, IdMap.has_foldl_remove, IdMap.any_toList]

theorem has_removed_recordRemoved (s : Session) (m : IdMap) (j : Kind) (i : Id) :
    (s.recordRemoved m).removed.has j i = (s.removed.has j i || m.has j i) := by
  rw [recordRemoved, IdMap.has_prune, IdMap.has_merge]

theorem dense_recordAdded (h : s.added.Dense) (hremoved : s.removed.Dense) (k : Kind)
    (ids : IdSet) : (s.recordAdded k ids).added.Dense ∧ (s.recordAdded k ids).removed.Dense := by
  rw [recordAdded]
  split
  next => exact ⟨h, hremoved⟩
  next hsome => exact ⟨IdMap.dense_add h k (Bool.not_eq_true _ ▸ hsome), IdMap.dense_prune _⟩

theorem Tracks.put (h : s.Tracks opened) {rows : List (Row k)}
    (hthere : ∀ row ∈ rows, s.snapshot.contains k (Row.id k row) = true) :
    (s.put k rows).Tracks opened := by
  have hsame (j : Kind) (i : Id) :
      (s.put k rows).snapshot.contains j i = s.snapshot.contains j i := by
    rw [Session.put, Snapshot.contains_putRows, Bool.or_eq_left_iff_imp, Bool.and_eq_true,
      decide_eq_true_iff, idsOf, IdSet.contains_ofIds, decide_eq_true_iff, List.mem_map]
    rintro ⟨rfl, row, hrow, rfl⟩
    exact hthere row hrow
  refine Tracks.of_ids (s := s.put k rows) h.dense_added h.dense_removed ?_ ?_
  · intro j i hadded
    rw [hsame]
    exact h.added_there j i hadded
  · intro j i
    rw [hsame]
    exact h.ids_iff j i

/-- Rows that come in are added, also those that were removed. -/
theorem Tracks.addRows (h : s.Tracks opened) (rows : List (Row k)) :
    (s.addRows k rows).Tracks opened := by
  have hcontains (j : Kind) (i : Id) : (s.addRows k rows).snapshot.contains j i =
      (s.snapshot.contains j i || decide (k = j) && (idsOf k rows).contains i) := by
    rw [Workspace.snapshot_addRows, Snapshot.contains_putRows]
  have hadded (j : Kind) (i : Id) : (s.addRows k rows).added.has j i =
      (s.added.has j i || decide (k = j) && (idsOf k rows).contains i) :=
    has_added_recordAdded (s.put k rows) k (idsOf k rows) j i
  have hremoved (j : Kind) (i : Id) : (s.addRows k rows).removed.has j i =
      (s.removed.has j i && !(decide (k = j) && (idsOf k rows).contains i)) :=
    has_removed_recordAdded (s.put k rows) k (idsOf k rows) j i
  obtain ⟨hdense, hdense'⟩ := dense_recordAdded (s := s.put k rows) h.dense_added h.dense_removed k
    (idsOf k rows)
  refine Tracks.of_ids hdense hdense' ?_ ?_
  · intro j i hi
    rw [hadded, Bool.or_eq_true] at hi
    rw [hcontains, Bool.or_eq_true]
    exact hi.imp_left (h.added_there j i)
  · intro j i
    rw [hcontains, hadded, hremoved]
    cases decide (k = j) && (idsOf k rows).contains i with
    | true => simp
    | false => simpa using h.ids_iff j i

/-- Rows that go are removed, also those that were added. -/
theorem Tracks.removeRows (h : s.Tracks opened) (removed : IdMap) :
    (s.removeRows removed (s.snapshot.detachedBy removed)).Tracks opened := by
  have hsnapshot : (s.removeRows removed (s.snapshot.detachedBy removed)).snapshot =
      s.snapshot.without removed := rfl
  apply Tracks.of_ids (IdMap.dense_prune _) (IdMap.dense_prune _)
  · intro j i hi
    rw [Session.removeRows, has_added_recordRemoved, Bool.and_eq_true, Bool.not_eq_true'] at hi
    rw [hsnapshot, Snapshot.contains_without]
    exact ⟨h.added_there j i hi.1, hi.2⟩
  · intro j i
    have hids := h.ids_iff j i
    rw [hsnapshot, Snapshot.contains_without, hids, Session.removeRows, has_added_recordRemoved,
      has_removed_recordRemoved]
    cases removed.has j i <;> simp

end Steps

end Session

namespace Workspace
variable {w : Workspace} {opened : Snapshot}

theorem Writes.session_cases {α : Type} {op : Operation} {C : ChangeSet → Session → Prop}
    {r : Run Workspace α} (h : Writes w op C r) :
    r.state.session = w.session ∨ ∃ c, C c r.state.session := by
  cases h with
  | stopped log _ => exact Or.inl rfl
  | nothing result log => exact Or.inl rfl
  | @committed c session hc result before after =>
    rw [Run.state_after]
    obtain ⟨_, _, _, hsession⟩ | ⟨_, _, _, hsession⟩ := w.commit_outcome op c session result after
    · exact Or.inl hsession
    · rw [hsession]
      exact Or.inr ⟨c, hc⟩

theorem insert_tracks {o : Options} {k : Kind} (h : w.session.Tracks opened)
    (candidates : List Record) (strict : Option Bool) (duplicates : Bool) :
    (w.insert o k candidates strict duplicates).state.session.Tracks opened := by
  have hinserts := insert_inserts (o := o) (w := w) (k := k) candidates strict duplicates
  generalize w.insert o k candidates strict duplicates = r at hinserts ⊢
  cases hinserts with
  | stopped _ => exact h
  | nothing log _ => exact h
  | refused log _ => exact h
  | @reserved checked range _ _ _ _ rows _ ids before after =>
    rw [Run.state_after]
    obtain ⟨_, _, _, hsession⟩ | ⟨_, _, _, hsession⟩ := commit_outcome
      { w with store := w.store.advanced k range.stop } .insert
      (.ofInserts k (rows.map (Row.toRecord k))) (w.session.addRows k (rows.map (Row.stored k)))
      (⟨rows.map (Row.toRecord k), ids, checked.rejected⟩ : MutationResult) after
    · rw [hsession]
      exact h
    · rw [hsession]
      exact h.addRows _

theorem update_tracks {o : Options} {k : Kind} (h : w.session.Tracks opened)
    (changes : List Record) (strict : Option Bool) :
    (w.update o k changes strict).state.session.Tracks opened := by
  obtain hsame | ⟨_, checked, hcheck, _, hsession⟩ :=
    (update_writes (o := o) (w := w) (k := k) changes strict).session_cases
  · rw [hsame]
    exact h
  · rw [hsession]
    apply h.put
    intro row hrow
    obtain ⟨accepted, haccepted, rfl⟩ := List.mem_map.1 hrow
    rw [Row.id_stored]
    exact contains_of_checkUpdate hcheck accepted haccepted

theorem remove_tracks {o : Options} (h : w.session.Tracks opened) (roots : IdMap)
    (strict : Option Bool) : (w.remove o roots strict).state.session.Tracks opened := by
  obtain hsame | ⟨_, _, removed, _, _, _, _, hsession⟩ :=
    (remove_writes (o := o) (w := w) roots strict).session_cases
  · rw [hsame]
    exact h
  · rw [hsession]
    exact h.removeRows removed

theorem readd_tracks {k : Kind} (h : w.session.Tracks opened) (records : List Record) :
    (w.readd k records).state.session.Tracks opened := by
  obtain hsame | ⟨_, rows, _, _, hsession⟩ :=
    (readd_writes (w := w) (k := k) records).session_cases
  · rw [hsame]
    exact h
  · rw [hsession]
    exact h.addRows rows

theorem visit_tracks (h : w.session.Tracks opened) (v : Visit) :
    (w.visit v).session.Tracks opened := by
  cases v with
  | others store => exact h
  | call o c =>
    cases c with
    | insert k candidates strict duplicates => exact insert_tracks h candidates strict duplicates
    | update k changes strict => exact update_tracks h changes strict
    | remove roots strict => exact remove_tracks h roots strict
    | readd k records => exact readd_tracks h records

/-- Whatever calls are made through a session since it was opened, and whatever others do to the
store in between, what the session has on record leads from the rows that it was opened with to its
own. -/
theorem visitAll_tracks {store : Store} {session : Session} (visits : List Visit)
    (hopen : Session.open store = .ok session) :
    ((⟨store, session⟩ : Workspace).visitAll visits).session.Tracks session.snapshot := by
  have hstart : session.Tracks session.snapshot := by
    simp only [Session.open, bind_eq_ok_iff, pure_eq_ok_iff] at hopen
    obtain ⟨opened, _, rfl⟩ := hopen
    exact Session.tracks_start opened
  unfold visitAll
  generalize hw : (⟨store, session⟩ : Workspace) = w
  have hfirst : w.session.Tracks session.snapshot := hw ▸ hstart
  clear hw
  induction visits generalizing w with
  | nil => exact hfirst
  | cons v visits ih => exact ih (w.visit v) (visit_tracks hfirst v)

/-- A class that is added, removed and added again, and one that is removed for good, after others
have emptied the store. -/
theorem visitAll_pipes_tracks :
    let final := (⟨pipes, pipesSession⟩ : Workspace).visitAll
      [.call {} (.insert .entityClass [.ofFields [("name", some (.text "valve"))]] none false),
        .others Store.empty,
        .call {} (.remove (.ofNodes [(.entityClass, 3), (.entityClass, 2)]) none),
        .call {} (.readd .entityClass
          [.ofFields [("id", some (.int 3)), ("name", some (.text "valve"))]])]
    final.session.Tracks pipesSession.snapshot ∧
      final.session.added = .ofNodes [(.entityClass, 3)] ∧
      final.session.removed = .ofNodes [(.entityClass, 2)] := by
  have hinserted : ((⟨pipes, pipesSession⟩ : Workspace).visit (.call {} (.insert .entityClass
      [.ofFields [("name", some (.text "valve"))]] none false))).visit (.others Store.empty) =
      ⟨Store.empty, pipesSession.snapshot.putRows .entityClass [⟨3, "valve", none, []⟩],
        .ofNodes [(.entityClass, 3)], ∅⟩ := rfl
  refine ⟨visitAll_tracks _ open_pipes, ?_⟩
  simp only [visitAll_cons, hinserted]
  exact ⟨by cbv, by cbv⟩

end Workspace

end EntityStore
