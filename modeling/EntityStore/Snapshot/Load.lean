import EntityStore.Log
import EntityStore.Snapshot
import EntityStore.Store
/-!
# Loading a snapshot from the store

The records of a kind are read into rows; one that cannot be read makes the load fail. Loading for
no kinds in particular loads them all.
-/
namespace EntityStore

/-- The rows that records hold; of two with the same id the later one stays. -/
def Table.ofRecords (k : Kind) (rs : List Record) : Except FieldFault (Table k) := do
  return .ofList (← rs.mapM (Row.ofRecord k))

namespace Snapshot

/-- Replaces the rows of a kind by the store's. -/
def reload (s : Snapshot) (store : Store) (k : Kind) : Except StorageFault Snapshot :=
  match Table.ofRecords k (store.records k) with
  | .error f => .error (.malformedRow k f)
  | .ok t => .ok { s.withTable k t with loaded := s.loaded.set k true }

/-- The kinds that a load asks for. -/
def requested (kinds : List Kind) : List Kind := if kinds = [] then Kind.all else kinds

def load (store : Store) (kinds : List Kind) : Except StorageFault Snapshot :=
  (requested kinds).foldlM (fun s k => s.reload store k) unloaded

/-- What a load writes to the log: a line for every kind read before the first that fails. -/
def loadLog (store : Store) (kinds : List Kind) : List Log.Entry :=
  ((requested kinds).takeWhile fun k => (Table.ofRecords k (store.records k)).isOk).map fun k =>
    .debug s!"Loaded {(store.records k).length} {k.name} rows"

end Snapshot

end EntityStore
