import EntityStore.ByKind
import EntityStore.Row
/-!
# Snapshots

A snapshot holds a table of rows for every kind and says which kinds it was loaded for. A snapshot
built by hand counts as loaded for all kinds. The lemmas give every change by its effect on
look-ups.
-/
namespace EntityStore

/-- Rows of one kind in ascending order of their ids. -/
abbrev Table (k : Kind) := Ascending (Row.id k)

structure Snapshot where
  tables : ByKind Table
  loaded : ByKind fun _ => Bool
  deriving DecidableEq

namespace Snapshot

def empty : Snapshot := ⟨.ofFn fun _ => ∅, .ofFn fun _ => true⟩

/-- A snapshot without rows that is not loaded for any kind yet. -/
def unloaded : Snapshot := ⟨.ofFn fun _ => ∅, .ofFn fun _ => false⟩

instance : Inhabited Snapshot := ⟨empty⟩

def table (s : Snapshot) (k : Kind) : Table k := s.tables.get k

def isLoaded (s : Snapshot) (k : Kind) : Bool := s.loaded.get k

def isComplete (s : Snapshot) : Bool := Kind.all.all s.isLoaded

def find? (s : Snapshot) (k : Kind) (i : Id) : Option (Row k) := (s.table k).find? i

def contains (s : Snapshot) (k : Kind) (i : Id) : Bool := (s.table k).contains i

/-- The row as it is stored. -/
def record? (s : Snapshot) (k : Kind) (i : Id) : Option Record := (s.find? k i).map (Row.toRecord k)

def records (s : Snapshot) (k : Kind) : List Record := (s.table k).toList.map (Row.toRecord k)

def ids (s : Snapshot) (k : Kind) : List Id := (s.table k).toList.map (Row.id k)

def size (s : Snapshot) (k : Kind) : Nat := (s.table k).size

/-- The first row of a kind, by id, that satisfies a condition. -/
def findWhere (s : Snapshot) (k : Kind) (p : Row k → Bool) : Option (Row k) :=
  (s.table k).findWhere p

def withTable (s : Snapshot) (k : Kind) (t : Table k) : Snapshot :=
  { s with tables := s.tables.set k t }

def put (s : Snapshot) (k : Kind) (row : Row k) : Snapshot :=
  s.withTable k ((s.table k).insert row)

def putRecord (s : Snapshot) (k : Kind) (r : Record) : Except FieldFault Snapshot := do
  return s.put k (← Row.ofRecord k r)

/-- Reads records into the table of a kind, in order. -/
def putRecords (s : Snapshot) (k : Kind) (rs : List Record) : Except FieldFault Snapshot :=
  rs.foldlM (fun s r => s.putRecord k r) s

/-- Puts rows into the table of a kind, in order. -/
def putRows (s : Snapshot) (k : Kind) (rows : List (Row k)) : Snapshot :=
  rows.foldl (fun s row => s.put k row) s

def erase (s : Snapshot) (k : Kind) (i : Id) : Snapshot := s.withTable k ((s.table k).erase i)

/-- Drops every row that the map names. -/
def eraseAll (s : Snapshot) (m : IdMap) : Snapshot :=
  { s with tables := .ofFn fun k => (s.table k).filter fun row => !m.has k (Row.id k row) }

@[simp] theorem table_withTable_self (s : Snapshot) (k : Kind) (t : Table k) :
    (s.withTable k t).table k = t := by
  simp [table, withTable]

theorem table_withTable_of_ne (s : Snapshot) {k j : Kind} (t : Table k) (h : k ≠ j) :
    (s.withTable k t).table j = s.table j := by
  simp [table, withTable, ByKind.get_set_of_ne _ _ h]

theorem table_eraseAll (s : Snapshot) (m : IdMap) (k : Kind) :
    (s.eraseAll m).table k = (s.table k).filter fun row => !m.has k (Row.id k row) := by
  simp [table, eraseAll]

theorem find?_put (s : Snapshot) (k : Kind) (row : Row k) (i : Id) :
    (s.put k row).find? k i = if Row.id k row = i then some row else s.find? k i := by
  rw [find?, put, table_withTable_self, Ascending.find?_insert]
  rfl

theorem find?_put_of_ne (s : Snapshot) {k j : Kind} (row : Row k) (h : k ≠ j) (i : Id) :
    (s.put k row).find? j i = s.find? j i := by
  rw [find?, put, table_withTable_of_ne _ _ h]
  rfl

theorem find?_erase (s : Snapshot) (k : Kind) (i j : Id) :
    (s.erase k i).find? k j = if i = j then none else s.find? k j := by
  rw [find?, erase, table_withTable_self, Ascending.find?_erase]
  rfl

theorem find?_eraseAll (s : Snapshot) (m : IdMap) (k : Kind) (i : Id) :
    (s.eraseAll m).find? k i = if m.has k i then none else s.find? k i := by
  rw [find?, table_eraseAll, Ascending.find?_filter]
  change (s.find? k i).filter _ = _
  cases h : s.find? k i with
  | none => simp
  | some row =>
    have hk : Row.id k row = i := Ascending.key_of_find? h
    by_cases hm : m.has k i <;> simp [Option.filter, hk, hm]

theorem ext_table {s t : Snapshot} (h : ∀ k, s.table k = t.table k)
    (hl : ∀ k, s.isLoaded k = t.isLoaded k) : s = t := by
  obtain ⟨ts, ls⟩ := s
  obtain ⟨tt, lt⟩ := t
  rw [Snapshot.mk.injEq]
  exact ⟨ByKind.ext_get h, ByKind.ext_get hl⟩

end Snapshot

end EntityStore
