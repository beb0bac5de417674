import EntityStore.Rules
/-!
# Keys taken

During a batch, an index says which row has which key. A row accepted without an id yet is entered
under the pending id. `find?_insert` and `find?_release` say what the two changes do.
-/
namespace EntityStore

structure KeyIndex where
  entries : List (UniqueKey × Id)

namespace KeyIndex

def empty : KeyIndex := ⟨[]⟩

def find? (x : KeyIndex) (key : UniqueKey) : Option Id :=
  (x.entries.find? fun e => e.1 = key).map (·.2)

/-- Gives a key to a row, whoever had it before. -/
def insert (x : KeyIndex) (key : UniqueKey) (i : Id) : KeyIndex := ⟨(key, i) :: x.entries⟩

/-- Frees a key if the given row has it. -/
def release (x : KeyIndex) (key : UniqueKey) (i : Id) : KeyIndex :=
  if x.find? key = some i then ⟨x.entries.filter fun e => e.1 ≠ key⟩ else x

theorem find?_insert (x : KeyIndex) (key : UniqueKey) (i : Id) (key' : UniqueKey) :
    (x.insert key i).find? key' = if key = key' then some i else x.find? key' := by
  by_cases h : key = key' <;> simp [find?, insert, h]

theorem find?_release (x : KeyIndex) (key : UniqueKey) (i : Id) (key' : UniqueKey) :
    (x.release key i).find? key' =
      if key = key' ∧ x.find? key = some i then none else x.find? key' := by
  unfold release
  split
  next h =>
    by_cases hk : key = key'
    · subst hk
      rw [if_pos ⟨rfl, h⟩, find?, List.find?_filter, List.find?_eq_none.2 (by simp)]
      rfl
    · rw [if_neg fun hh => hk hh.1, find?, find?, List.find?_filter]
      congr 2
      funext e
      by_cases he : e.1 = key' <;> simp [he, Ne.symm hk]
  next h => simp [h]

def addRow (x : KeyIndex) (k : Kind) (row : Row k) : KeyIndex :=
  (Row.keys k row).foldl (fun x key => x.insert key (Row.id k row)) x

def removeRow (x : KeyIndex) (k : Kind) (row : Row k) : KeyIndex :=
  (Row.keys k row).foldl (fun x key => x.release key (Row.id k row)) x

/-- The keys of a whole table; of two rows with one key the later one has it. -/
def ofTable (k : Kind) (t : Table k) : KeyIndex :=
  t.toList.foldl (fun x row => x.addRow k row) empty

/-- Stops at the first key of a row that is taken. -/
def checkUnique (x : KeyIndex) (k : Kind) (row : Row k) : Except Violation Unit :=
  (Row.keys k row).forM fun key =>
    match x.find? key with
    | none => .ok ()
    | some i => .error (.duplicateKey k key (if i = pendingId then none else some i))

end KeyIndex

end EntityStore
