import EntityStore.Proofs.Store.Tables
import EntityStore.Store.Cursor
/-!
# What an apply does to the store

An apply that fails leaves every table as it was, and one that succeeds makes the changes. Records
that have ids can also be put into a table past the checks (`Store.exists_putRawAll`). No record is
ever stored without an id (`Store.Keyed`).
-/
namespace EntityStore
namespace Store
variable {s s' : Store}

/-- Nothing but the failures that are set up differs between two stores. -/
structure Untouched (s s' : Store) : Prop where
  tables : s'.tables = s.tables
  applyCount : s'.applyCount = s.applyCount
  cursor : s'.cursor = s.cursor
  claimed : s'.claimed = s.claimed

theorem Untouched.refl (s : Store) : s.Untouched s := ⟨rfl, rfl, rfl, rfl⟩

theorem apply_cases (s : Store) (c : ChangeSet) :
    (∃ f, (s.apply c).1 = .error f ∧ s.Untouched (s.apply c).2) ∨
      (s.apply c).1 = .ok () ∧ s.tables.change c = .ok (s.apply c).2.tables := by
  unfold apply
  split
  · exact Or.inl ⟨_, rfl, rfl, rfl, rfl, rfl⟩
  · cases h : s.tables.change c with
    | error f => exact Or.inl ⟨f, rfl, .refl s⟩
    | ok tables => exact Or.inr ⟨rfl, rfl⟩

theorem apply_eq_ok_iff {s s' : Store} {c : ChangeSet} :
    s.apply c = (.ok (), s') ↔ s.applyFails = false ∧ ∃ tables, s.tables.change c = .ok tables ∧
      s' = { s with tables, applyCount := s.applyCount + 1 } := by
  unfold apply
  cases s.applyFails with
  | true => simp
  | false => cases s.tables.change c <;> simp [eq_comm]

theorem exists_putRaw (s : Store) (k : Kind) {r : Record} (h : r.id ≠ pendingId) :
    ∃ next, s.putRaw k r = .ok next ∧
      ∀ j, next.table j = if k = j then (s.table j).insert r else s.table j := by
  have hid : RecordTables.storedId k r = .ok r.id := RecordTables.storedId_eq_ok_iff.2 ⟨rfl, h⟩
  refine ⟨{ s with tables := s.tables.set k ((s.table k).insert r) }, ?_, fun j => ?_⟩
  · rw [putRaw, hid]
    rfl
  · by_cases hj : k = j
    · subst hj
      rw [if_pos rfl, table, ByKind.get_set_self]
    · rw [if_neg hj, table, ByKind.get_set_of_ne _ _ hj]
      rfl

theorem exists_putRawAll (s : Store) (k : Kind) {rs : List Record}
    (h : ∀ r ∈ rs, r.id ≠ pendingId) :
    ∃ next, s.putRawAll k rs = .ok next ∧
      ∀ j, next.table j = if k = j then rs.foldl Ascending.insert (s.table j) else s.table j := by
  induction rs generalizing s with
  | nil => exact ⟨s, rfl, fun j => by simp⟩
  | cons r rs ih =>
    obtain ⟨hr, hrs⟩ := List.forall_mem_cons.1 h
    obtain ⟨first, hfirst, htable⟩ := s.exists_putRaw k hr
    obtain ⟨next, hnext, hrest⟩ := ih first hrs
    refine ⟨next, ?_, fun j => ?_⟩
    · rw [putRawAll, List.foldlM_cons, hfirst]
      exact hnext
    · rw [hrest, htable]
      by_cases hj : k = j <;> simp [hj]

/-- No record is stored without an id. -/
def Keyed (s : Store) : Prop := ∀ k, (s.table k).contains pendingId = false

theorem keyed_empty : Keyed .empty := by
  intro k
  cases k <;> rfl

theorem Keyed.putRaw {k : Kind} {r : Record} (h : s.Keyed) (hput : s.putRaw k r = .ok s') :
    s'.Keyed := by
  simp only [Store.putRaw, bind_eq_ok_iff, pure_eq_ok_iff, RecordTables.storedId_eq_ok_iff] at hput
  rcases hput with ⟨_, ⟨rfl, hid⟩, rfl⟩
  intro j
  by_cases hj : k = j
  · subst hj
    rw [table, ByKind.get_set_self]
    exact Ascending.contains_insert_eq_false.2 ⟨hid, h k⟩
  · simpa [table, ByKind.get_set_of_ne _ _ hj] using h j

theorem Keyed.apply (h : s.Keyed) (c : ChangeSet) : (s.apply c).2.Keyed := by
  intro k
  obtain ⟨f, _, hsame⟩ | ⟨_, hchange⟩ := s.apply_cases c
  · rw [table, hsame.tables]
    exact h k
  · have hinserts := (RecordTables.change_eq_ok_iff.1 hchange k).2.1
    rw [table, ← Bool.not_eq_true, RecordTables.contains_change hchange]
    rintro (⟨hold, _⟩ | ⟨r, hr, hid⟩)
    · rw [← table, h k] at hold
      cases hold
    · exact (hinserts r hr).1 hid

end Store

end EntityStore
