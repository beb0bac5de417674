import EntityStore.Snapshot
/-!
# The rows of a snapshot

A snapshot is seen through the rows of every kind: a row is found under its own id, at most one
row has an id, and rows put into a table stand in for those with the same ids.
-/
namespace EntityStore.Snapshot
variable {s : Snapshot} {k : Kind}

def rows (s : Snapshot) (k : Kind) : List (Row k) := (s.table k).toList

theorem mem_rows_iff {row : Row k} : row ∈ s.rows k ↔ s.find? k (Row.id k row) = some row :=
  Ascending.mem_iff_find?

theorem find?_eq_some_iff {i : Id} {row : Row k} :
    s.find? k i = some row ↔ row ∈ s.rows k ∧ Row.id k row = i :=
  Ascending.find?_eq_some_iff

theorem mem_rows_of_find? {i : Id} {row : Row k} (h : s.find? k i = some row) : row ∈ s.rows k :=
  (find?_eq_some_iff.1 h).1

theorem id_of_find? {i : Id} {row : Row k} (h : s.find? k i = some row) : Row.id k row = i :=
  (find?_eq_some_iff.1 h).2

theorem contains_iff {i : Id} : s.contains k i = true ↔ ∃ row, s.find? k i = some row :=
  Option.isSome_iff_exists

theorem contains_of_mem {row : Row k} (h : row ∈ s.rows k) :
    s.contains k (Row.id k row) = true :=
  contains_iff.2 ⟨row, mem_rows_iff.1 h⟩

theorem contains_of_find? {i : Id} {row : Row k} (h : s.find? k i = some row) :
    s.contains k i = true :=
  contains_iff.2 ⟨row, h⟩

theorem eq_of_id_eq {a b : Row k} (ha : a ∈ s.rows k) (hb : b ∈ s.rows k)
    (h : Row.id k a = Row.id k b) : a = b := by
  rw [mem_rows_iff] at ha hb
  rw [h, hb] at ha
  exact (Option.some.inj ha).symm

section Put
variable (rows : List (Row k))

theorem find?_putRows_self (s : Snapshot) (i : Id) :
    (s.putRows k rows).find? k i =
      (rows.reverse.find? fun row => Row.id k row = i).or (s.find? k i) := by
  induction rows generalizing s with
  | nil => simp [putRows]
  | cons row rows ih =>
    have hstep : s.putRows k (row :: rows) = (s.put k row).putRows k rows := rfl
    rw [hstep, ih, find?_put, List.reverse_cons, List.find?_append, Option.or_assoc]
    by_cases h : Row.id k row = i <;> simp [h]

theorem find?_putRows_of_ne (s : Snapshot) {j : Kind} (h : k ≠ j) (i : Id) :
    (s.putRows k rows).find? j i = s.find? j i := by
  induction rows generalizing s with
  | nil => rfl
  | cons row rows ih =>
    have hstep : s.putRows k (row :: rows) = (s.put k row).putRows k rows := rfl
    rw [hstep, ih, find?_put_of_ne _ _ h]

theorem table_putRows_self (s : Snapshot) :
    (s.putRows k rows).table k = rows.foldl Ascending.insert (s.table k) := by
  apply Ascending.ext_find?
  intro i
  rw [Ascending.find?_foldl_insert]
  exact find?_putRows_self rows s i

theorem table_putRows_of_ne (s : Snapshot) {j : Kind} (h : k ≠ j) :
    (s.putRows k rows).table j = s.table j :=
  Ascending.ext_find? fun i => find?_putRows_of_ne rows s h i

variable {rows}

theorem find?_putRows_cases {i : Id} {row : Row k} (h : (s.putRows k rows).find? k i = some row) :
    row ∈ rows ∧ Row.id k row = i ∨
      s.find? k i = some row ∧ ∀ r ∈ rows, Row.id k r ≠ i := by
  rw [find?_putRows_self] at h
  cases hf : rows.reverse.find? (fun row => Row.id k row = i) with
  | some r =>
    rw [hf] at h
    obtain rfl := Option.some.inj h
    exact Or.inl ⟨List.mem_reverse.1 (List.mem_of_find?_eq_some hf),
      by simpa using List.find?_some hf⟩
  | none =>
    rw [hf] at h
    refine Or.inr ⟨h, fun r hr => ?_⟩
    simpa using List.find?_eq_none.1 hf r (List.mem_reverse.2 hr)

theorem find?_putRows_of_forall_ne {i : Id} (h : ∀ r ∈ rows, Row.id k r ≠ i) :
    (s.putRows k rows).find? k i = s.find? k i := by
  have hnone : rows.reverse.find? (fun row => Row.id k row = i) = none :=
    List.find?_eq_none.2 fun r hr => by simpa using h r (List.mem_reverse.1 hr)
  rw [find?_putRows_self, hnone]
  rfl

theorem find?_putRows_of_mem {row : Row k} (h : row ∈ rows)
    (hunique : ∀ r ∈ rows, Row.id k r = Row.id k row → r = row) :
    (s.putRows k rows).find? k (Row.id k row) = some row := by
  rw [find?_putRows_self]
  cases hf : rows.reverse.find? (fun r => Row.id k r = Row.id k row) with
  | some r =>
    rw [hunique r (List.mem_reverse.1 (List.mem_of_find?_eq_some hf))
      (by simpa using List.find?_some hf)]
    rfl
  | none =>
    have hne := List.find?_eq_none.1 hf row (List.mem_reverse.2 h)
    simp at hne

theorem find?_putRows_of_fresh (hfresh : ∀ r ∈ rows, s.contains k (Row.id k r) = false) {j : Kind}
    {i : Id} {row : Row j} (h : s.find? j i = some row) :
    (s.putRows k rows).find? j i = some row := by
  by_cases hj : k = j
  · subst hj
    rw [find?_putRows_of_forall_ne, h]
    intro r hr hid
    have hnew := hfresh r hr
    rw [hid, contains_of_find? h] at hnew
    cases hnew
  · rw [find?_putRows_of_ne rows s hj, h]

theorem mem_or_mem_of_mem_putRows {row : Row k} (h : row ∈ (s.putRows k rows).rows k) :
    row ∈ rows ∨ row ∈ s.rows k := by
  rcases find?_putRows_cases (mem_rows_iff.1 h) with h | h
  · exact Or.inl h.1
  · exact Or.inr (mem_rows_of_find? h.1)

theorem rows_putRows_of_ne {j : Kind} (h : k ≠ j) : (s.putRows k rows).rows j = s.rows j := by
  rw [Snapshot.rows, table_putRows_of_ne rows s h, Snapshot.rows]

theorem forall_mem_putRows {P : (j : Kind) → Row j → Prop} (hnew : ∀ row ∈ rows, P k row)
    (hold : ∀ j, ∀ row ∈ s.rows j, P j row) (j : Kind) (row : Row j)
    (hrow : row ∈ (s.putRows k rows).rows j) : P j row := by
  by_cases hj : k = j
  · subst hj
    rcases mem_or_mem_of_mem_putRows hrow with hput | hthere
    · exact hnew row hput
    · exact hold k row hthere
  · rw [rows_putRows_of_ne hj] at hrow
    exact hold j row hrow

theorem contains_putRows_self {i : Id} :
    (s.putRows k rows).contains k i = true ↔
      s.contains k i = true ∨ ∃ row ∈ rows, Row.id k row = i := by
  simp only [contains_iff]
  constructor
  · rintro ⟨row, hrow⟩
    rcases find?_putRows_cases hrow with h | h
    · exact Or.inr ⟨row, h⟩
    · exact Or.inl ⟨row, h.1⟩
  · intro h
    cases hf : rows.reverse.find? (fun row => Row.id k row = i) with
    | some r => exact ⟨r, by rw [find?_putRows_self, hf]; rfl⟩
    | none =>
      rcases h with ⟨row, hrow⟩ | ⟨row, hrow, hi⟩
      · exact ⟨row, by rw [find?_putRows_self, hf, hrow]; rfl⟩
      · have hne := List.find?_eq_none.1 hf row (List.mem_reverse.2 hrow)
        simp [hi] at hne

theorem contains_putRows_of_ne {j : Kind} (h : k ≠ j) (i : Id) :
    (s.putRows k rows).contains j i = s.contains j i :=
  congrArg Option.isSome (find?_putRows_of_ne rows s h i)

theorem contains_putRows_of_contains {j : Kind} {i : Id} (h : s.contains j i = true) :
    (s.putRows k rows).contains j i = true := by
  by_cases hk : k = j
  · subst hk
    exact contains_putRows_self.2 (Or.inl h)
  · rw [contains_putRows_of_ne hk]
    exact h

end Put

end EntityStore.Snapshot
