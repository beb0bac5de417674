import EntityStore.Proofs.Row.Reading
import EntityStore.Proofs.Snapshot.Loading
import EntityStore.Proofs.Store.Requests
/-!
# Canonical records

A record may give a row in many ways: under the name of a variant, with null fields, with flags
that are any number, with fields that no row has. What is stored of the row is the one canonical
form of all of them (`Row.IsCanonical`, `Row.eq_toRecord_of_isCanonical`). A store into which the
rows of a snapshot are written back has the canonical records, from which the rows are loaded again
but for the variants (`Snapshot.Rewritten`).
-/
namespace EntityStore

namespace Row
variable {k : Kind} {r : Record} {row row' : Row k}

/-- A record is canonical when it is what is stored of the row that it is read as. -/
def IsCanonical (k : Kind) (r : Record) : Prop := (ofRecord k r).map (toRecord k) = .ok r

theorem isCanonical_iff : IsCanonical k r ↔ ∃ row, ofRecord k r = .ok row ∧ toRecord k row = r := by
  unfold IsCanonical
  cases ofRecord k r <;> simp [Except.map]

theorem isCanonical_toRecord (row : Row k) : IsCanonical k (toRecord k row) :=
  isCanonical_iff.2 ⟨stored k row, ofRecord_toRecord k row, toRecord_stored k row⟩

theorem stored_of_any (h : ∀ v ∈ variant? k row, v = .any) : stored k row = row := by
  cases k with
  | parameterDefinition =>
    have hany : row.ownerVariant = .any := h row.ownerVariant rfl
    show { row with ownerVariant := .any } = row
    rw [← hany]
  | parameterValue =>
    have hany : row.entityVariant = .any := h row.entityVariant rfl
    show { row with entityVariant := .any } = row
    rw [← hany]
  | _ => rfl

/-- No two canonical records are read as the same row, whatever its variant. -/
theorem eq_toRecord_of_isCanonical (h : IsCanonical k r) (hread : ofRecord k r = .ok row')
    (hsame : stored k row' = stored k row) : r = toRecord k row := by
  obtain ⟨row'', hread', rfl⟩ := isCanonical_iff.1 h
  obtain rfl : row' = row'' := Except.ok.inj (hread.symm.trans hread')
  rw [← toRecord_stored, hsame, toRecord_stored]

end Row

namespace Snapshot
variable {s : Snapshot} {store written : Store} {kinds : List Kind} {k : Kind}

/-- The snapshot with every row as it comes back from the store. -/
def stored (s : Snapshot) : Snapshot :=
  { s with tables := .ofFn fun k => (s.table k).map (Row.stored k) (Row.id_stored k) }

/-- The rows of a kind as they are stored. -/
def recordTable (s : Snapshot) (k : Kind) : RecordTable :=
  (s.table k).map (Row.toRecord k) (Row.id_toRecord k)

theorem toList_recordTable (s : Snapshot) (k : Kind) : (s.recordTable k).toList = s.records k := rfl

theorem find?_recordTable (s : Snapshot) (k : Kind) (i : Id) :
    (s.recordTable k).find? i = s.record? k i :=
  Ascending.find?_map _ _ _ i

@[simp] theorem table_stored (s : Snapshot) (k : Kind) :
    s.stored.table k = (s.table k).map (Row.stored k) (Row.id_stored k) :=
  ByKind.get_ofFn _ k

theorem record?_stored (s : Snapshot) (k : Kind) (i : Id) :
    s.stored.record? k i = s.record? k i := by
  rw [record?, find?, table_stored, Ascending.find?_map, Option.map_map]
  exact Option.map_congr fun row _ => Row.toRecord_stored k row

theorem reads_recordTable (s : Snapshot) (k : Kind) :
    (s.recordTable k).Reads k (s.stored.table k) := by
  intro i
  rw [find?_recordTable, table_stored, Ascending.find?_map, record?, find?, Option.map_map,
    Option.map_map]
  exact Option.map_congr fun row _ => Row.ofRecord_toRecord k row

theorem contains_of_mem_records (h : load store kinds = .ok s) {r : Record}
    (hr : r ∈ s.records k) : (store.table k).contains r.id = true := by
  have hk := load_kinds_iff.1 h k
  obtain ⟨row, hrow, rfl⟩ := List.mem_map.1 hr
  by_cases hmem : k ∈ requested kinds
  · rw [if_pos hmem] at hk
    rw [Row.id_toRecord, ← hk.1.contains]
    exact contains_of_mem hrow
  · rw [if_neg hmem] at hk
    rw [hk.1] at hrow
    cases hrow

theorem id_ne_of_mem_records (hkeyed : store.Keyed) (h : load store kinds = .ok s) {r : Record}
    (hr : r ∈ s.records k) : r.id ≠ pendingId := by
  intro hid
  have hthere := contains_of_mem_records h hr
  rw [hid, hkeyed k] at hthere
  cases hthere

/-- Every row of a snapshot is put into a store as it is stored, kind by kind. -/
def putBack (s : Snapshot) (store : Store) : Except StorageFault Store :=
  Kind.all.foldlM (fun store k => store.putRawAll k (s.records k)) store

/-- Every row of a snapshot is updated to what is stored of it. -/
def rewrites (s : Snapshot) : ChangeSet where
  inserts := ∅
  updates := .ofList (Kind.all.map fun k => (k, s.records k))
  deletes := ∅

/-- The tables of a store are overwritten with what is stored of the rows. -/
def Overwrites (s : Snapshot) (store written : Store) : Prop :=
  ∀ k, written.table k = (store.table k).union (s.recordTable k)

theorem exists_putBack (hids : ∀ k, ∀ r ∈ s.records k, r.id ≠ pendingId) :
    ∃ written, s.putBack store = .ok written ∧ s.Overwrites store written := by
  have hkinds (ks : List Kind) (hnodup : ks.Nodup) (start : Store) : ∃ written,
      ks.foldlM (fun store k => store.putRawAll k (s.records k)) start = .ok written ∧
        ∀ k, written.table k =
          if k ∈ ks then (start.table k).union (s.recordTable k) else start.table k := by
    induction ks generalizing start with
    | nil => exact ⟨start, rfl, fun k => rfl⟩
    | cons j ks ih =>
      obtain ⟨hj, hnodup⟩ := List.nodup_cons.1 hnodup
      obtain ⟨next, hnext, htable⟩ := start.exists_putRawAll j (hids j)
      obtain ⟨written, hwritten, hrest⟩ := ih hnodup next
      refine ⟨written, by rw [List.foldlM_cons, hnext]; exact hwritten, fun k => ?_⟩
      rw [hrest, htable]
      by_cases hk : j = k
      · subst hk
        simp only [if_neg hj, if_true, List.mem_cons_self]
        rfl
      · simp [hk, Ne.symm hk]
  obtain ⟨written, hwritten, htable⟩ := hkinds Kind.all (by decide) store
  exact ⟨written, hwritten, fun k => by rw [htable, if_pos (Kind.mem_all k)]⟩

theorem listed_rewrites (s : Snapshot) (k : Kind) :
    RecordTables.listed s.rewrites.updates k = s.records k := by
  have hfound : (s.rewrites.updates).find? k = some (k, s.records k) := by
    rw [rewrites, Ascending.find?_ofList]
    cases k <;> rfl
  rw [RecordTables.listed, SortedMap.get?, hfound]
  rfl

theorem exists_apply_rewrites (hready : store.applyFails = false)
    (hids : ∀ k, ∀ r ∈ s.records k, r.id ≠ pendingId)
    (hthere : ∀ k, ∀ r ∈ s.records k, (store.table k).contains r.id = true) :
    ∃ written, store.apply s.rewrites = (.ok (), written) ∧ s.Overwrites store written := by
  have hchange : store.tables.change s.rewrites =
      .ok (.ofFn fun k => (store.table k).union (s.recordTable k)) := by
    refine RecordTables.change_eq_ok_iff.2 fun k => ?_
    have hinserts : RecordTables.listed s.rewrites.inserts k = [] := rfl
    have hdeletes : store.tables.deleteRows s.rewrites.deletes = store.tables :=
      RecordTables.deleteRows_empty store.tables
    rw [listed_rewrites, hinserts, hdeletes, ByKind.get_ofFn]
    exact ⟨fun r hr => ⟨hids k r hr, hthere k r hr⟩, by simp, List.nodup_nil, rfl⟩
  refine ⟨_, Store.apply_eq_ok_iff.2 ⟨hready, _, hchange, rfl⟩, fun k => ?_⟩
  exact ByKind.get_ofFn _ k

theorem union_recordTable (h : (store.table k).Reads k (s.table k)) :
    (store.table k).union (s.recordTable k) = s.recordTable k := by
  apply Ascending.ext_find?
  intro i
  have hids : ((s.table k).find? i).isSome = ((store.table k).find? i).isSome := h.contains i
  rw [Ascending.find?_union, find?_recordTable, record?, find?]
  cases hrow : (s.table k).find? i with
  | some row => rfl
  | none =>
    rw [hrow, Option.isSome_none, eq_comm, Option.isSome_eq_false_iff,
      Option.isNone_iff_eq_none] at hids
    rw [hids]
    rfl

/-- A store has the rows of a snapshot in canonical form, and they are loaded from it again. -/
structure Rewritten (s : Snapshot) (kinds : List Kind) (written : Store) : Prop where
  records : ∀ k ∈ requested kinds, written.records k = s.records k
  canonical : ∀ k ∈ requested kinds, ∀ r ∈ written.records k, Row.IsCanonical k r
  load : load written kinds = .ok s.stored

theorem Overwrites.rewritten (hover : s.Overwrites store written) (h : load store kinds = .ok s) :
    s.Rewritten kinds written := by
  have htable (k : Kind) (hmem : k ∈ requested kinds) : written.table k = s.recordTable k := by
    have hk := load_kinds_iff.1 h k
    rw [if_pos hmem] at hk
    rw [hover k, union_recordTable hk.1]
  have hrecords (k : Kind) (hmem : k ∈ requested kinds) : written.records k = s.records k := by
    rw [Store.records, htable k hmem, toList_recordTable]
  constructor
  case records => exact hrecords
  case canonical =>
    intro k hmem r hr
    rw [hrecords k hmem] at hr
    obtain ⟨row, -, rfl⟩ := List.mem_map.1 hr
    exact Row.isCanonical_toRecord row
  case load =>
    refine load_kinds_iff.2 fun k => ?_
    have hk := load_kinds_iff.1 h k
    by_cases hmem : k ∈ requested kinds
    · rw [if_pos hmem] at hk ⊢
      rw [htable k hmem]
      exact ⟨s.reads_recordTable k, hk.2⟩
    · rw [if_neg hmem] at hk ⊢
      rw [table_stored, hk.1]
      exact ⟨rfl, hk.2⟩

/-- A row that remembers no variant is read back as it is. Of all records that are read as a row,
but for its variant, what is stored of it is the only canonical one. So the rows of a load can be
written back, one by one or in one apply, and then the store has them in canonical form and gives
the same records when it is loaded again. -/
theorem canonical_records :
    (∀ k (row : Row k), (∀ v ∈ Row.variant? k row, v = .any) →
      Row.ofRecord k (Row.toRecord k row) = .ok row) ∧
    (∀ k r (row : Row k), Row.ofRecord k r = .ok row →
      Row.ofRecord k (Row.toRecord k row) = .ok (Row.stored k row) ∧
      Row.IsCanonical k (Row.toRecord k row) ∧
      ∀ c row', Row.IsCanonical k c → Row.ofRecord k c = .ok row' →
        Row.stored k row' = Row.stored k row → c = Row.toRecord k row) ∧
    ∀ (store : Store) kinds (s : Snapshot), store.Keyed → load store kinds = .ok s →
      (∃ written, s.putBack store = .ok written ∧ s.Rewritten kinds written) ∧
      (store.applyFails = false →
        ∃ written, store.apply s.rewrites = (.ok (), written) ∧ s.Rewritten kinds written) ∧
      ∀ k i, s.stored.record? k i = s.record? k i := by
  refine ⟨fun k row hany => ?_, fun k r row _ => ?_, fun store kinds s hkeyed hload => ?_⟩
  · rw [Row.ofRecord_toRecord, Row.stored_of_any hany]
  · exact ⟨Row.ofRecord_toRecord k row, Row.isCanonical_toRecord row,
      fun c row' hc hread hsame => Row.eq_toRecord_of_isCanonical hc hread hsame⟩
  · have hids (k : Kind) (r : Record) (hr : r ∈ s.records k) := id_ne_of_mem_records hkeyed hload hr
    refine ⟨?_, fun hready => ?_, s.record?_stored⟩
    · obtain ⟨written, hwritten, hover⟩ := exists_putBack hids
      exact ⟨written, hwritten, hover.rewritten hload⟩
    · obtain ⟨written, hwritten, hover⟩ := exists_apply_rewrites hready hids
        fun k r hr => contains_of_mem_records hload hr
      exact ⟨written, hwritten, hover.rewritten hload⟩

/-- A definition under the name of a variant, with a null and a field that no row has. -/
def looseLevel : Record :=
  .ofFields [("id", some (.int 1)), ("object_class_id", some (.int 1)),
    ("entity_class_id", some .null), ("name", some (.text "level")), ("unit", some (.text "m"))]

def plainLevel : Record :=
  .ofFields [("id", some (.int 1)), ("entity_class_id", some (.int 1)),
    ("name", some (.text "level"))]

def level (variant : Variant) : ParameterDefinition := ⟨1, 1, "level", none, none, none, variant⟩

/-- Records as they can be put into a store past the checks. -/
def looseRequests : List Request :=
  [.putRaw .entityClass (.ofFields [("id", some (.int 1)), ("name", some (.text "tank")),
      ("member_class_ids", some (.ids []))]),
    .putRaw .entityClass (.ofFields [("id", some (.int 2)), ("name", some (.text "pipe")),
      ("description", some .null), ("member_class_ids", some (.ids [1, 1]))]),
    .putRaw .entity (.ofFields [("id", some (.int 5)), ("class_id", some (.int 1))]),
    .putRaw .parameterDefinition looseLevel,
    .putRaw .scenario (.ofFields [("id", some (.int 1)), ("name", some (.text "all")),
      ("active", some (.int 7))])]

def looseStore : Store := (Custody.start.run looseRequests).store

def looseRows : Snapshot :=
  let classes := empty.putRows .entityClass [⟨1, "tank", none, []⟩, ⟨2, "pipe", none, [1, 1]⟩]
  ((classes.put .entity ⟨5, 1, "", none, []⟩).put .parameterDefinition (level .object)).put
    .scenario ⟨1, "all", none, true⟩

theorem load_looseStore : load looseStore [] = .ok looseRows := by decide +kernel

/-- The records are written back otherwise than they were put into the store. -/
theorem canonical_looseRecords :
    ((∀ v ∈ Row.variant? .parameterDefinition (level .any), v = .any) ∧
      Row.ofRecord .parameterDefinition (Row.toRecord .parameterDefinition (level .any)) =
        .ok (level .any)) ∧
    (Row.ofRecord .parameterDefinition looseLevel = .ok (level .object) ∧
      Row.ofRecord .parameterDefinition (Row.toRecord .parameterDefinition (level .object)) =
        .ok (level .any) ∧
      Row.IsCanonical .parameterDefinition plainLevel ∧
      Row.ofRecord .parameterDefinition plainLevel = .ok (level .any) ∧
      plainLevel = Row.toRecord .parameterDefinition (level .object)) ∧
    looseStore.Keyed ∧ load looseStore [] = .ok looseRows ∧ looseStore.applyFails = false ∧
      (∃ written, looseRows.putBack looseStore = .ok written ∧ looseRows.Rewritten [] written) ∧
      (∃ written, looseStore.apply looseRows.rewrites = (.ok (), written) ∧
        looseRows.Rewritten [] written) ∧
      looseRows.records .scenario ≠ looseStore.records .scenario := by
  obtain ⟨hany, hone, hload⟩ := canonical_records
  have hvariant : ∀ v ∈ Row.variant? .parameterDefinition (level .any), v = .any := by
    rintro _ ⟨⟩
    rfl
  have hloose : Row.ofRecord .parameterDefinition looseLevel = .ok (level .object) := by rfl
  have hplain : Row.ofRecord .parameterDefinition plainLevel = .ok (level .any) := by rfl
  have hcanonical : Row.IsCanonical .parameterDefinition plainLevel := by rfl
  have hkeyed : looseStore.Keyed := Custody.keyed_run looseRequests
  have hready : looseStore.applyFails = false := rfl
  obtain ⟨hread, -, hunique⟩ := hone .parameterDefinition looseLevel (level .object) hloose
  obtain ⟨hput, happly, -⟩ := hload looseStore [] looseRows hkeyed load_looseStore
  exact ⟨⟨hvariant, hany .parameterDefinition (level .any) hvariant⟩,
    ⟨hloose, hread, hcanonical, hplain, hunique plainLevel (level .any) hcanonical hplain rfl⟩,
    hkeyed, load_looseStore, hready, hput, happly hready, by decide⟩

end Snapshot

end EntityStore
