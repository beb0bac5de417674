import EntityStore.Snapshot.Load
/-!
# Sessions

A session keeps a snapshot in step with what it wrote, and which ids it added and removed. An id
that is added after it was removed counts as added, and the other way round.
-/
namespace EntityStore

structure Session where
  snapshot : Snapshot
  added : IdMap
  removed : IdMap
  deriving DecidableEq

namespace Session

def «open» (store : Store) : Except StorageFault Session := do
  return ⟨← Snapshot.load store [], ∅, ∅⟩

def recordAdded (s : Session) (k : Kind) (ids : IdSet) : Session :=
  if ids.isEmpty then s
  else { s with added := s.added.add k ids, removed := (s.removed.remove k ids).prune }

def recordRemoved (s : Session) (m : IdMap) : Session :=
  { s with
    added := (m.toList.foldl (fun acc e => acc.remove e.1 e.2) s.added).prune
    removed := (s.removed.merge m).prune }

/-- Takes the store's rows over; what was added and removed stays on record. -/
def refresh (s : Session) (store : Store) : Except StorageFault Session := do
  return { s with snapshot := ← Snapshot.load store [] }

end Session

end EntityStore
