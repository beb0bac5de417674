import EntityStore.Engine.Workspace
import EntityStore.Proofs.Steps
/-!
# The tables after a set of changes

A set of changes can be made when its records have ids, its updates are of rows that the deletes
leave, and its inserts are of other ids, each inserted once; every table is then the old one without
the deleted ids, with the updates and then the inserts put in, in order
(`RecordTables.change_eq_ok_iff`).
-/
namespace EntityStore

theorem Ascending.contains_insert {α κ : Type} [Ord κ] [DecidableEq κ] [Std.TransOrd κ]
    [Std.LawfulEqOrd κ] {key : α → κ} {m : Ascending key} {x : α} {k : κ} :
    (m.insert x).contains k = true ↔ key x = k ∨ m.contains k = true := by
  rw [Ascending.contains, Ascending.find?_insert]
  by_cases h : key x = k <;> simp [h, Ascending.contains]

theorem Ascending.contains_insert_eq_false {α κ : Type} [Ord κ] [DecidableEq κ] [Std.TransOrd κ]
    [Std.LawfulEqOrd κ] {key : α → κ} {m : Ascending key} {x : α} {k : κ} :
    (m.insert x).contains k = false ↔ key x ≠ k ∧ m.contains k = false := by
  rw [← Bool.not_eq_true, contains_insert, not_or, Bool.not_eq_true]

theorem Ascending.contains_foldl_insert {α κ : Type} [Ord κ] [DecidableEq κ] [Std.TransOrd κ]
    [Std.LawfulEqOrd κ] {key : α → κ} {l : List α} {m : Ascending key} {k : κ} :
    (l.foldl Ascending.insert m).contains k = true ↔
      m.contains k = true ∨ ∃ x ∈ l, key x = k := by
  induction l generalizing m with
  | nil => simp
  | cons x l ih =>
    rw [List.foldl_cons, ih, contains_insert, or_comm (a := key x = k), or_assoc]
    simp only [List.mem_cons, exists_eq_or_imp]

namespace RecordTables
variable {k : Kind} {t t' : RecordTable} {rs : List Record} {ts ts' : RecordTables}
  {c : ChangeSet}

theorem storedId_eq_ok_iff {r : Record} {i : Id} :
    storedId k r = .ok i ↔ r.id = i ∧ i ≠ pendingId := by
  unfold storedId Record.id
  cases r.int? "id" with
  | none => simp +contextual [eq_comm]
  | some j =>
    by_cases hj : j = pendingId <;> simp +contextual [hj, eq_comm]

theorem insertRow_eq_ok_iff {r : Record} :
    insertRow k t r = .ok t' ↔
      r.id ≠ pendingId ∧ t.contains r.id = false ∧ t' = t.insert r := by
  simp only [insertRow, bind_eq_ok_iff, storedId_eq_ok_iff]
  constructor
  · rintro ⟨_, ⟨rfl, hid⟩, h⟩
    split at h
    next => cases h
    next hnew => exact ⟨hid, Bool.not_eq_true _ ▸ hnew, (pure_eq_ok_iff.1 h).symm⟩
  · rintro ⟨hid, hnew, rfl⟩
    exact ⟨_, ⟨rfl, hid⟩, if_neg (by simp [hnew])⟩

theorem updateRow_eq_ok_iff {r : Record} :
    updateRow k t r = .ok t' ↔
      r.id ≠ pendingId ∧ t.contains r.id = true ∧ t' = t.insert r := by
  simp only [updateRow, bind_eq_ok_iff, storedId_eq_ok_iff]
  constructor
  · rintro ⟨_, ⟨rfl, hid⟩, h⟩
    split at h
    next hold => exact ⟨hid, hold, (pure_eq_ok_iff.1 h).symm⟩
    next => cases h
  · rintro ⟨hid, hold, rfl⟩
    exact ⟨_, ⟨rfl, hid⟩, if_pos hold⟩

theorem insertRows_eq_ok_iff :
    rs.foldlM (insertRow k) t = .ok t' ↔
      (∀ r ∈ rs, r.id ≠ pendingId ∧ t.contains r.id = false) ∧ (rs.map Record.id).Nodup ∧
        t' = rs.foldl Ascending.insert t := by
  induction rs generalizing t with
  | nil => simpa [pure_eq_ok_iff] using eq_comm
  | cons r rs ih =>
    simp only [List.foldlM_cons, bind_eq_ok_iff, insertRow_eq_ok_iff, ih, List.forall_mem_cons,
      List.map_cons, List.nodup_cons, List.mem_map, List.foldl_cons]
    constructor
    · rintro ⟨_, ⟨hid, hnew, rfl⟩, hrest, hnodup, rfl⟩
      refine ⟨⟨⟨hid, hnew⟩, fun next hnext => ?_⟩, ⟨?_, hnodup⟩, rfl⟩
      · exact ⟨(hrest next hnext).1, (Ascending.contains_insert_eq_false.1 (hrest next hnext).2).2⟩
      · rintro ⟨next, hnext, hsame⟩
        exact (Ascending.contains_insert_eq_false.1 (hrest next hnext).2).1 hsame.symm
    · rintro ⟨⟨⟨hid, hnew⟩, hrest⟩, ⟨hother, hnodup⟩, rfl⟩
      refine ⟨_, ⟨hid, hnew, rfl⟩, fun next hnext => ⟨(hrest next hnext).1, ?_⟩, hnodup, rfl⟩
      exact Ascending.contains_insert_eq_false.2
        ⟨fun hsame => hother ⟨next, hnext, hsame.symm⟩, (hrest next hnext).2⟩

theorem updateRows_eq_ok_iff :
    rs.foldlM (updateRow k) t = .ok t' ↔
      (∀ r ∈ rs, r.id ≠ pendingId ∧ t.contains r.id = true) ∧
        t' = rs.foldl Ascending.insert t := by
  induction rs generalizing t with
  | nil => simpa [pure_eq_ok_iff] using eq_comm
  | cons r rs ih =>
    simp only [List.foldlM_cons, bind_eq_ok_iff, updateRow_eq_ok_iff, ih, List.forall_mem_cons,
      List.foldl_cons]
    constructor
    · rintro ⟨_, ⟨hid, hold, rfl⟩, hrest, rfl⟩
      refine ⟨⟨⟨hid, hold⟩, fun next hnext => ⟨(hrest next hnext).1, ?_⟩⟩, rfl⟩
      obtain hsame | hnext := Ascending.contains_insert.1 (hrest next hnext).2
      · exact hsame ▸ hold
      · exact hnext
    · rintro ⟨⟨⟨hid, hold⟩, hrest⟩, rfl⟩
      refine ⟨_, ⟨hid, hold, rfl⟩, fun next hnext => ⟨(hrest next hnext).1, ?_⟩, rfl⟩
      exact Ascending.contains_insert.2 (Or.inr (hrest next hnext).2)

/-- The records that a map lists for a kind. -/
def listed (m : SortedMap Kind (List Record)) (k : Kind) : List Record := (m.get? k).getD []

@[simp] theorem listed_empty (k : Kind) : listed ∅ k = [] := rfl

@[simp] theorem listed_set_self (m : SortedMap Kind (List Record)) (k : Kind) (rs : List Record) :
    listed (m.set k rs) k = rs := by
  rw [listed, SortedMap.get?_set, if_pos rfl]
  rfl

theorem listed_set_of_ne (m : SortedMap Kind (List Record)) {k j : Kind} (rs : List Record)
    (h : k ≠ j) : listed (m.set k rs) j = listed m j := by
  rw [listed, SortedMap.get?_set, if_neg h]
  rfl

theorem listed_cons_self {e : Kind × List Record} {l : List (Kind × List Record)}
    (h : (e :: l).Pairwise fun a b => compare a.1 b.1 = .lt) :
    listed ⟨e :: l, h⟩ e.1 = e.2 ∧ listed ⟨l, h.of_cons⟩ e.1 = [] := by
  rcases List.pairwise_cons.1 h with ⟨hlt, _⟩
  have hnone : l.find? (fun a => a.1 = e.1) = none :=
    List.find?_eq_none.2 fun a ha => by simpa using Ne.symm (Ascending.key_ne_of_lt (hlt a ha))
  simp [listed, SortedMap.get?, Ascending.find?, hnone]

theorem listed_cons_of_ne {e : Kind × List Record} {l : List (Kind × List Record)} {j : Kind}
    (h : (e :: l).Pairwise fun a b => compare a.1 b.1 = .lt) (hj : e.1 ≠ j) :
    listed ⟨e :: l, h⟩ j = listed ⟨l, h.of_cons⟩ j := by
  simp [listed, SortedMap.get?, Ascending.find?, hj]

/-- The records of each kind are taken through the step by themselves. -/
theorem changeRows_eq_ok_iff {step : Kind → RecordTable → Record → Except StorageFault RecordTable}
    {m : SortedMap Kind (List Record)} :
    changeRows step ts m = .ok ts' ↔
      ∀ k, (listed m k).foldlM (step k) (ts.get k) = .ok (ts'.get k) := by
  obtain ⟨l, hkeys⟩ := m
  unfold changeRows
  induction l generalizing ts with
  | nil =>
    simp only [List.foldlM_nil, pure_eq_ok_iff]
    constructor
    · rintro rfl k
      rfl
    · exact fun h => ByKind.ext_get fun k => pure_eq_ok_iff.1 (h k)
  | cons e l ih =>
    simp only [List.foldlM_cons, bind_eq_ok_iff, pure_eq_ok_iff]
    rcases listed_cons_self hkeys with ⟨hself, hlast⟩
    constructor
    · rintro ⟨_, ⟨t, ht, rfl⟩, hrest⟩ k
      have hk := (ih hkeys.of_cons).1 hrest k
      by_cases hek : e.1 = k
      · subst hek
        rw [hlast, ByKind.get_set_self] at hk
        rw [hself, ht, ← pure_eq_ok_iff.1 hk]
      · rw [listed_cons_of_ne hkeys hek]
        rwa [ByKind.get_set_of_ne _ _ hek] at hk
    · intro h
      have hfirst := h e.1
      rw [hself] at hfirst
      refine ⟨_, ⟨_, hfirst, rfl⟩, (ih hkeys.of_cons).2 fun k => ?_⟩
      by_cases hek : e.1 = k
      · subst hek
        rw [hlast, ByKind.get_set_self]
        rfl
      · rw [ByKind.get_set_of_ne _ _ hek, ← listed_cons_of_ne hkeys hek]
        exact h k

theorem get_deleteRows (m : IdMap) (j : Kind) :
    (ts.deleteRows m).get j = (ts.get j).filter fun r => !m.has j r.id :=
  ByKind.get_ofFn _ j

theorem contains_deleteRows (ts : RecordTables) (m : IdMap) (k : Kind) (i : Id) :
    ((ts.deleteRows m).get k).contains i = true ↔
      (ts.get k).contains i = true ∧ m.has k i = false := by
  rw [deleteRows, ByKind.get_ofFn, Ascending.contains, Ascending.find?_filter, Ascending.contains]
  cases h : (ts.get k).find? i with
  | none => simp
  | some r =>
    have hi : r.id = i := Ascending.key_of_find? h
    cases hm : m.has k i <;> simp [Option.filter, hi, hm]

theorem deleteRows_empty (ts : RecordTables) : ts.deleteRows ∅ = ts := by
  apply ByKind.ext_get
  intro k
  rw [deleteRows, ByKind.get_ofFn]
  apply Ascending.ext
  simp [Ascending.filter]

@[simp] theorem updates_ofRemoval (removed : IdMap) (k : Kind) (rs : List Record) :
    listed (ChangeSet.ofRemoval removed k rs).updates k = rs := by
  unfold ChangeSet.ofRemoval
  split
  next h =>
    rw [h]
    rfl
  next => exact listed_set_self ∅ k rs

theorem updates_ofRemoval_of_ne (removed : IdMap) {k j : Kind} (rs : List Record) (h : k ≠ j) :
    listed (ChangeSet.ofRemoval removed k rs).updates j = [] := by
  unfold ChangeSet.ofRemoval
  split
  next => rfl
  next => exact listed_set_of_ne ∅ rs h

@[simp] theorem inserts_ofRemoval (removed : IdMap) (k : Kind) (rs : List Record) :
    (ChangeSet.ofRemoval removed k rs).inserts = ∅ := by
  unfold ChangeSet.ofRemoval
  split <;> rfl

/-- In every kind deletes come first, then updates, then inserts. -/
theorem change_eq_ok_iff :
    ts.change c = .ok ts' ↔ ∀ k,
      (∀ r ∈ listed c.updates k, r.id ≠ pendingId ∧
        ((ts.deleteRows c.deletes).get k).contains r.id = true) ∧
      (∀ r ∈ listed c.inserts k, r.id ≠ pendingId ∧
        ((ts.deleteRows c.deletes).get k).contains r.id = false) ∧
      ((listed c.inserts k).map Record.id).Nodup ∧
      ts'.get k = (listed c.inserts k).foldl Ascending.insert
        ((listed c.updates k).foldl Ascending.insert ((ts.deleteRows c.deletes).get k)) := by
  simp only [change, bind_eq_ok_iff, changeRows_eq_ok_iff, updateRows_eq_ok_iff,
    insertRows_eq_ok_iff]
  have hids (k : Kind) (hold : ∀ r ∈ listed c.updates k, r.id ≠ pendingId ∧
      ((ts.deleteRows c.deletes).get k).contains r.id = true) (i : Id) :
      ((listed c.updates k).foldl Ascending.insert
        ((ts.deleteRows c.deletes).get k)).contains i =
      ((ts.deleteRows c.deletes).get k).contains i := by
    rw [Bool.eq_iff_iff, Ascending.contains_foldl_insert, or_iff_left_iff_imp]
    rintro ⟨r, hr, rfl⟩
    exact (hold r hr).2
  constructor
  · rintro ⟨updated, hupdates, hinserts⟩ k
    obtain ⟨hold, hupdated⟩ := hupdates k
    obtain ⟨hnew, hrest⟩ := hinserts k
    rw [hupdated] at hnew hrest
    exact ⟨hold, fun r hr => ⟨(hnew r hr).1, hids k hold r.id ▸ (hnew r hr).2⟩, hrest⟩
  · intro h
    refine ⟨.ofFn fun k => (listed c.updates k).foldl Ascending.insert
      ((ts.deleteRows c.deletes).get k), fun k => ⟨(h k).1, ByKind.get_ofFn _ k⟩, fun k => ?_⟩
    obtain ⟨hold, hnew, hrest⟩ := h k
    rw [ByKind.get_ofFn]
    exact ⟨fun r hr => ⟨(hnew r hr).1, (hids k hold r.id).trans (hnew r hr).2⟩, hrest⟩

theorem get_change (h : ts.change c = .ok ts') (j : Kind) :
    ts'.get j = (listed c.inserts j).foldl Ascending.insert
      ((listed c.updates j).foldl Ascending.insert
        ((ts.get j).filter fun r => !c.deletes.has j r.id)) := by
  rw [(change_eq_ok_iff.1 h j).2.2.2, get_deleteRows]

/-- The ids that are there after changes are those that the deletes leave and those of inserts. -/
theorem contains_change (h : ts.change c = .ok ts') (j : Kind) (i : Id) :
    (ts'.get j).contains i = true ↔
      ((ts.get j).contains i = true ∧ c.deletes.has j i = false) ∨
        ∃ r ∈ listed c.inserts j, r.id = i := by
  obtain ⟨hold, -, -, hget⟩ := change_eq_ok_iff.1 h j
  rw [hget, Ascending.contains_foldl_insert, Ascending.contains_foldl_insert, contains_deleteRows]
  refine or_congr_left (or_iff_left_iff_imp.2 ?_)
  rintro ⟨r, hr, rfl⟩
  exact (contains_deleteRows ts c.deletes j r.id).1 (hold r hr).2

theorem of_change_ofInserts (h : ts.change (.ofInserts k rs) = .ok ts') :
    (∀ r ∈ rs, (ts.get k).contains r.id = false) ∧
      (∀ i, (ts'.get k).contains i = true ↔
        (ts.get k).contains i = true ∨ ∃ r ∈ rs, r.id = i) ∧
      ∀ j, k ≠ j → ts'.get j = ts.get j := by
  refine ⟨?_, ?_, ?_⟩
  · have hnew := (change_eq_ok_iff.1 h k).2.1
    rw [ChangeSet.ofInserts, listed_set_self, deleteRows_empty] at hnew
    exact fun r hr => (hnew r hr).2
  · intro i
    rw [contains_change h, ChangeSet.ofInserts, listed_set_self]
    simp
  · intro j hj
    obtain ⟨-, -, -, hget⟩ := change_eq_ok_iff.1 h j
    rw [hget, ChangeSet.ofInserts, listed_set_of_ne ∅ rs hj, deleteRows_empty]
    rfl

theorem change_ofInserts (hids : ∀ r ∈ rs, r.id ≠ pendingId)
    (hnew : ∀ r ∈ rs, (ts.get k).contains r.id = false) (hnodup : (rs.map Record.id).Nodup) :
    ts.change (.ofInserts k rs) = .ok (ts.set k (rs.foldl Ascending.insert (ts.get k))) := by
  refine change_eq_ok_iff.2 fun j => ?_
  rw [ChangeSet.ofInserts, deleteRows_empty]
  by_cases hj : k = j
  · subst hj
    rw [listed_set_self, ByKind.get_set_self]
    exact ⟨by simp, fun r hr => ⟨hids r hr, hnew r hr⟩, hnodup, rfl⟩
  · rw [listed_set_of_ne ∅ rs hj, ByKind.get_set_of_ne _ _ hj]
    simp

theorem change_ofUpdates (hids : ∀ r ∈ rs, r.id ≠ pendingId)
    (hold : ∀ r ∈ rs, (ts.get k).contains r.id = true) :
    ts.change (.ofUpdates k rs) = .ok (ts.set k (rs.foldl Ascending.insert (ts.get k))) := by
  refine change_eq_ok_iff.2 fun j => ?_
  rw [ChangeSet.ofUpdates, deleteRows_empty]
  by_cases hj : k = j
  · subst hj
    rw [listed_set_self, ByKind.get_set_self]
    exact ⟨fun r hr => ⟨hids r hr, hold r hr⟩, by simp⟩
  · rw [listed_set_of_ne ∅ rs hj, ByKind.get_set_of_ne _ _ hj]
    simp

theorem contains_change_ofUpdates (h : ts.change (.ofUpdates k rs) = .ok ts') (j : Kind) (i : Id) :
    (ts'.get j).contains i = true ↔ (ts.get j).contains i = true := by
  rw [contains_change h]
  simp [ChangeSet.ofUpdates]

theorem contains_change_ofRemoval {removed : IdMap}
    (h : ts.change (.ofRemoval removed k rs) = .ok ts') (j : Kind) (i : Id) :
    (ts'.get j).contains i = true ↔ (ts.get j).contains i = true ∧ removed.has j i = false := by
  rw [contains_change h, inserts_ofRemoval]
  simp [ChangeSet.ofRemoval]

end RecordTables

end EntityStore
