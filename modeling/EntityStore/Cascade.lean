import EntityStore.Cascade.Owners
import EntityStore.Cascade.Reach
import EntityStore.Failure
import EntityStore.Log
/-!
# Removal sets

The removal set of some roots holds the roots, every row with an owner in the set, and all metadata
whose last join is in the set. Roots belong to it whether or not they exist.
-/
namespace EntityStore

namespace Snapshot

/-- The roots and everything that goes with them. -/
def closure (s : Snapshot) (withClasses : Bool) (roots : List Node) : List Node :=
  (s.links withClasses).reach roots

/-- The removal set of some roots, which the snapshot has to hold the kinds for. -/
def cascade (s : Snapshot) (withClasses : Bool) (roots : IdMap) : Except Failure IdMap :=
  match (Kind.reached withClasses roots.kinds).find? fun k => !s.isLoaded k with
  | some k => .error (.argument (.kindNotLoaded k))
  | none => .ok (.ofNodes (s.closure withClasses roots.nodes))

end Snapshot

/-- What a cascade writes to the log. -/
def cascadeLog (roots removed : IdMap) : Log.Entry :=
  .debug s!"Cascade from {roots.total} roots reaches {removed.total} records"

end EntityStore
