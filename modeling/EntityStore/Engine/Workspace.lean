import EntityStore.Run
import EntityStore.Session
/-!
# Workspaces

A call of the engine works on a store and one session of it. Changes go to the store first; a store
that refuses them leaves the rows as they were, and the call fails without touching the session.
-/
namespace EntityStore

/-- How an engine behaves where a call does not say. -/
structure Options where
  /-- The name under which the cursor is claimed. -/
  owner : String := "ergraph"
  strict : Bool := false
  /-- Whether removing a class removes the relationship classes that it is a member of. -/
  withClasses : Bool := false
  deriving DecidableEq, Repr

structure Workspace where
  store : Store
  session : Session
  deriving DecidableEq

namespace Workspace
variable {α : Type}

/-- Makes the changes of an operation in the store and goes on with a session that has them. -/
def commit (w : Workspace) (op : Operation) (c : ChangeSet) (session : Session) (result : α)
    (log : List Log.Entry) : Run Workspace α :=
  match w.store.apply c with
  | (.ok (), store) => .done result ⟨store, session⟩ log
  | (.error f, store) =>
    .failed (.applyFailed op f) { w with store }
      [.error s!"Apply of {c.size} {op.name} changes failed: {f.message}"]

/-- Takes the store's rows over into the session. -/
def refresh (w : Workspace) : Run Workspace Unit :=
  let log := Snapshot.loadLog w.store []
  match w.session.refresh w.store with
  | .error f => .failed (.storage f) w log
  | .ok session => .done () { w with session } (log ++ [.debug "Session snapshot refreshed"])

end Workspace

namespace ChangeSet

def ofInserts (k : Kind) (rs : List Record) : ChangeSet := ⟨(∅ : SortedMap _ _).set k rs, ∅, ∅⟩

def ofUpdates (k : Kind) (rs : List Record) : ChangeSet := ⟨∅, (∅ : SortedMap _ _).set k rs, ∅⟩

/-- Deletes, and updates of the rows that give way to them. -/
def ofRemoval (removed : IdMap) (k : Kind) (rs : List Record) : ChangeSet :=
  { (if rs = [] then ∅ else ofUpdates k rs) with deletes := removed }

end ChangeSet

end EntityStore
