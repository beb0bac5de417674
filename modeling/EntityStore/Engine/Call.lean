import EntityStore.Engine.Remove
import EntityStore.Engine.Write
/-!
# Calls as data

The four calls that change a workspace, so that runs of them can be spoken of.
-/
namespace EntityStore

inductive Call where
  | insert (kind : Kind) (candidates : List Record) (strict : Option Bool)
    (reportDuplicates : Bool)
  | update (kind : Kind) (changes : List Record) (strict : Option Bool)
  | remove (roots : IdMap) (strict : Option Bool)
  | readd (kind : Kind) (records : List Record)
  deriving DecidableEq

inductive Reply where
  | mutation (result : MutationResult)
  | removal (result : RemoveResult)
  deriving DecidableEq

/-- The run with its result under a function. -/
def Run.map {σ α β : Type} (f : α → β) (r : Run σ α) : Run σ β :=
  ⟨r.outcome.map f, r.state, r.log⟩

def Workspace.perform (o : Options) (w : Workspace) : Call → Run Workspace Reply
  | .insert k candidates strict dups => (w.insert o k candidates strict dups).map .mutation
  | .update k changes strict => (w.update o k changes strict).map .mutation
  | .remove roots strict => (w.remove o roots strict).map .removal
  | .readd k records => (w.readd k records).map .mutation

end EntityStore
