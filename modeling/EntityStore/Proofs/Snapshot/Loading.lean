import EntityStore.Proofs.Row
import EntityStore.Proofs.Snapshot.Rows
import EntityStore.Snapshot.Load
import Mathlib.Data.List.Forall2
/-!
# Rows loaded from records

A table of rows is what a table of records reads as when both have the same ids and every row is
read from the record under its id (`RecordTable.Reads`). Tables stay so when a record is put into
the one and its row into the other, and when the same ids are taken out of both. Loading a snapshot
gives exactly the rows that the tables of the store read as (`Snapshot.load_eq_ok_iff`).
-/
namespace EntityStore

theorem mapM_eq_ok_iff {ε α β : Type} {f : α → Except ε β} {l : List α} {bs : List β} :
    l.mapM f = .ok bs ↔ List.Forall₂ (fun a b => f a = .ok b) l bs := by
  induction l generalizing bs with
  | nil =>
    rw [List.mapM_nil, pure_eq_ok_iff, List.forall₂_nil_left_iff]
    exact eq_comm
  | cons a l ih =>
    simp only [List.mapM_cons, bind_eq_ok_iff, pure_eq_ok_iff, List.forall₂_cons_left_iff, ih]
    constructor
    · rintro ⟨b, hb, bs, hbs, rfl⟩
      exact ⟨b, bs, hb, hbs, rfl⟩
    · rintro ⟨b, bs, hb, hbs, rfl⟩
      exact ⟨b, hb, bs, hbs, rfl⟩

theorem exists_mapM_eq_ok {ε α β : Type} {f : α → Except ε β} {l : List α}
    (h : ∀ a ∈ l, ∃ b, f a = .ok b) : ∃ bs, l.mapM f = .ok bs := by
  induction l with
  | nil => exact ⟨[], rfl⟩
  | cons a l ih =>
    rcases h a List.mem_cons_self with ⟨b, hb⟩
    rcases ih fun a' ha' => h a' (List.mem_cons_of_mem a ha') with ⟨bs, hbs⟩
    exact ⟨b :: bs, by rw [List.mapM_cons, hb, hbs]; rfl⟩

/-- `RecordTable.Reads k t rows`: the records of `t` read as the rows, id by id. -/
def RecordTable.Reads (k : Kind) (t : RecordTable) (rows : Table k) : Prop :=
  ∀ i, (t.find? i).map (Row.ofRecord k) = (rows.find? i).map Except.ok

namespace RecordTable
variable {k : Kind} {t : RecordTable} {rows : Table k}

theorem Reads.insert (h : Reads k t rows) {r : Record} {row : Row k}
    (hr : Row.ofRecord k r = .ok row) : Reads k (t.insert r) (rows.insert row) := by
  intro i
  rw [Ascending.find?_insert, Ascending.find?_insert, Row.id_of_ofRecord hr]
  split
  · exact congrArg some hr
  · exact h i

theorem Reads.foldl_insert (h : Reads k t rows) {rs : List Record} {new : List (Row k)}
    (hrs : List.Forall₂ (fun r row => Row.ofRecord k r = .ok row) rs new) :
    Reads k (rs.foldl Ascending.insert t) (new.foldl Ascending.insert rows) := by
  induction hrs generalizing t rows with
  | nil => exact h
  | cons hr _ ih => exact ih (h.insert hr)

theorem Reads.filter (h : Reads k t rows) (p : Id → Bool) :
    Reads k (t.filter fun r => p r.id) (rows.filter fun row => p (Row.id k row)) := by
  intro i
  have hi := h i
  rw [Ascending.find?_filter, Ascending.find?_filter]
  cases hr : t.find? i with
  | none =>
    rw [hr, Option.map_none, eq_comm, Option.map_eq_none_iff] at hi
    rw [hi]
    rfl
  | some r =>
    rw [hr] at hi
    rcases Option.map_eq_some_iff.1 hi.symm with ⟨row, hrow, hread⟩
    have hid : r.id = i := Ascending.key_of_find? hr
    have hid' : Row.id k row = i := Ascending.key_of_find? hrow
    rw [hrow]
    cases hp : p i with
    | false => simp [Option.filter, hid, hid', hp]
    | true => simpa [Option.filter, hid, hid', hp] using hread.symm

theorem Reads.contains (h : Reads k t rows) (i : Id) : rows.contains i = t.contains i := by
  have hi := congrArg Option.isSome (h i)
  rw [Option.isSome_map, Option.isSome_map] at hi
  exact hi.symm

theorem Reads.unique {rows' : Table k} (h : Reads k t rows) (h' : Reads k t rows') :
    rows = rows' := by
  apply Ascending.ext_find?
  intro i
  have hinj : Function.Injective (Except.ok : Row k → Except FieldFault (Row k)) :=
    fun _ _ => Except.ok.inj
  exact Option.map_injective hinj ((h i).symm.trans (h' i))

theorem ofRecords_eq_ok_iff : Table.ofRecords k t.toList = .ok rows ↔ Reads k t rows := by
  have hread (list : List (Row k)) (h : t.toList.mapM (Row.ofRecord k) = .ok list) :
      Reads k t (.ofList list) := by
    intro i
    rw [Ascending.find?_ofList, ← Ascending.find?_toList_reverse]
    have hlist := List.rel_reverse (mapM_eq_ok_iff.1 h)
    generalize t.toList.reverse = rs, list.reverse = rows at hlist ⊢
    induction hlist with
    | nil => rfl
    | @cons r row _ _ hr _ ih =>
      have hid := Row.id_of_ofRecord hr
      by_cases hi : r.id = i
      · rw [List.find?_cons_of_pos (by simpa using hi),
          List.find?_cons_of_pos (by simpa [hid] using hi)]
        exact congrArg some hr
      · rw [List.find?_cons_of_neg (by simpa using hi),
          List.find?_cons_of_neg (by simpa [hid] using hi), ih]
  simp only [Table.ofRecords, bind_eq_ok_iff, pure_eq_ok_iff]
  constructor
  · rintro ⟨list, hlist, rfl⟩
    exact hread list hlist
  · intro h
    have hall (r : Record) (hr : r ∈ t.toList) : ∃ row, Row.ofRecord k r = .ok row := by
      have hi := h r.id
      rw [Ascending.mem_iff_find?.1 hr] at hi
      rcases Option.map_eq_some_iff.1 hi.symm with ⟨row, _, hrow⟩
      exact ⟨row, hrow.symm⟩
    rcases exists_mapM_eq_ok hall with ⟨list, hlist⟩
    exact ⟨list, hlist, (hread list hlist).unique h⟩

end RecordTable

namespace Snapshot

/-- The snapshot with a table that was just loaded. -/
def withLoaded (s : Snapshot) (k : Kind) (t : Table k) : Snapshot :=
  { s.withTable k t with loaded := s.loaded.set k true }

@[simp] theorem table_withLoaded_self (s : Snapshot) (k : Kind) (t : Table k) :
    (s.withLoaded k t).table k = t :=
  s.table_withTable_self k t

theorem table_withLoaded_of_ne (s : Snapshot) {k j : Kind} (t : Table k) (h : k ≠ j) :
    (s.withLoaded k t).table j = s.table j :=
  s.table_withTable_of_ne t h

@[simp] theorem isLoaded_withLoaded_self (s : Snapshot) (k : Kind) (t : Table k) :
    (s.withLoaded k t).isLoaded k = true :=
  ByKind.get_set_self s.loaded k true

theorem isLoaded_withLoaded_of_ne (s : Snapshot) {k j : Kind} (t : Table k) (h : k ≠ j) :
    (s.withLoaded k t).isLoaded j = s.isLoaded j :=
  ByKind.get_set_of_ne s.loaded true h

variable {store : Store} {s s' : Snapshot}

theorem reload_eq_ok_iff {k : Kind} :
    s.reload store k = .ok s' ↔ ∃ t, (store.table k).Reads k t ∧ s.withLoaded k t = s' := by
  have hread (t : Table k) : Table.ofRecords k (store.records k) = .ok t ↔
      (store.table k).Reads k t := RecordTable.ofRecords_eq_ok_iff
  unfold reload
  constructor
  · intro h
    split at h
    next => cases h
    next t ht => exact ⟨t, (hread t).1 ht, Except.ok.inj h⟩
  · rintro ⟨t, ht, rfl⟩
    rw [(hread t).2 ht]
    rfl

/-- After a reload of some kinds these are the store's, and the others are what they were. -/
theorem foldlM_reload_eq_ok_iff {kinds : List Kind} :
    kinds.foldlM (fun s k => s.reload store k) s = .ok s' ↔
      ∀ k, if k ∈ kinds then (store.table k).Reads k (s'.table k) ∧ s'.isLoaded k = true
        else s'.table k = s.table k ∧ s'.isLoaded k = s.isLoaded k := by
  induction kinds generalizing s with
  | nil =>
    rw [List.foldlM_nil, pure_eq_ok_iff]
    constructor
    · rintro rfl k
      exact ⟨rfl, rfl⟩
    · intro h
      exact ext_table (fun k => (h k).1.symm) fun k => (h k).2.symm
  | cons j kinds ih =>
    simp only [List.foldlM_cons, bind_eq_ok_iff, reload_eq_ok_iff]
    constructor
    · rintro ⟨_, ⟨t, ht, rfl⟩, h⟩ k
      have hk := ih.1 h k
      by_cases hmem : k ∈ kinds
      · rw [if_pos hmem] at hk
        rw [if_pos (List.mem_cons_of_mem j hmem)]
        exact hk
      · rw [if_neg hmem] at hk
        by_cases hj : j = k
        · subst hj
          rw [if_pos List.mem_cons_self, hk.1, hk.2, table_withLoaded_self,
            isLoaded_withLoaded_self]
          exact ⟨ht, rfl⟩
        · rw [table_withLoaded_of_ne s t hj, isLoaded_withLoaded_of_ne s t hj] at hk
          rw [if_neg (by simp [hmem, Ne.symm hj])]
          exact hk
    · intro h
      have hself := h j
      rw [if_pos List.mem_cons_self] at hself
      refine ⟨s.withLoaded j (s'.table j), ⟨_, hself.1, rfl⟩, ih.2 fun k => ?_⟩
      have hk := h k
      by_cases hmem : k ∈ kinds
      · rw [if_pos (List.mem_cons_of_mem j hmem)] at hk
        rw [if_pos hmem]
        exact hk
      · rw [if_neg hmem]
        by_cases hj : j = k
        · subst hj
          rw [table_withLoaded_self, isLoaded_withLoaded_self]
          exact ⟨rfl, hself.2⟩
        · rw [if_neg (by simp [hmem, Ne.symm hj])] at hk
          rw [table_withLoaded_of_ne s _ hj, isLoaded_withLoaded_of_ne s _ hj]
          exact hk

/-- A load has the rows of the kinds that it is asked for, and none of the others. -/
theorem load_kinds_iff {kinds : List Kind} :
    load store kinds = .ok s ↔
      ∀ k, if k ∈ requested kinds then (store.table k).Reads k (s.table k) ∧ s.isLoaded k = true
        else s.table k = ∅ ∧ s.isLoaded k = false := by
  have hempty (k : Kind) : unloaded.table k = ∅ := ByKind.get_ofFn _ k
  have hloaded (k : Kind) : unloaded.isLoaded k = false := ByKind.get_ofFn _ k
  rw [load, foldlM_reload_eq_ok_iff]
  simp only [hempty, hloaded]

theorem load_eq_ok_iff :
    load store [] = .ok s ↔
      ∀ k, (store.table k).Reads k (s.table k) ∧ s.isLoaded k = true := by
  rw [load_kinds_iff]
  simp [requested]

end Snapshot

end EntityStore
