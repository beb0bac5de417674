import EntityStore.Engine.Call
/-!
# What is written into a store

Rows come into a store by the calls of any sessions, or as records that are put past every check.
In between, the cursor may be forgotten. Nothing is set up to fail, and no claim is held from one
writing to the next.
-/
namespace EntityStore

inductive Writing where
  | call (o : Options) (session : Session) (c : Call)
  | putRaw (kind : Kind) (record : Record)
  | dropCursor
  deriving DecidableEq

/-- The ids that a writing brings along. Every other new row is given its id. -/
def Writing.ids : Writing → List Id
  | .call _ _ (.readd _ records) => records.map Record.id
  | .putRaw _ r => [r.id]
  | _ => []

namespace Store

/-- The store that a writing leaves behind. -/
def write (s : Store) : Writing → Store
  | .call o session c => ((⟨s, session⟩ : Workspace).perform o c).state.store
  | .putRaw k r => (s.putRaw k r).toOption.getD s
  | .dropCursor => s.dropCursor

def writeAll (s : Store) (writings : List Writing) : Store := writings.foldl write s

end Store

end EntityStore
