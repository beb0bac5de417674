import EntityStore.Engine.History
/-!
# Sessions that take turns

Calls may come through any number of sessions of one store, with options of their own. Of a session
nothing is asked: it may have fallen behind the store in any way. In between, an apply or a claim
may be set up to fail. Seen from one of the sessions, the store that its next call meets is whatever
the others have made of it.
-/
namespace EntityStore

inductive Turn where
  | call (o : Options) (session : Session) (c : Call)
  | setUp (applyFails claimFails : Bool)
  deriving DecidableEq

/-- Whether what a turn writes is checked first. -/
def Turn.isChecked : Turn → Bool
  | .call _ _ c => c.isChecked
  | .setUp _ _ => true

namespace Store

/-- The store that a turn leaves behind. -/
def take (s : Store) : Turn → Store
  | .call o session c => ((⟨s, session⟩ : Workspace).perform o c).state.store
  | .setUp applyFails claimFails => { s with applyFails, claimFails }

def play (s : Store) (turns : List Turn) : Store := turns.foldl take s

theorem play_append (s : Store) (first second : List Turn) :
    s.play (first ++ second) = (s.play first).play second :=
  List.foldl_append

@[simp] theorem play_concat (s : Store) (turns : List Turn) (t : Turn) :
    s.play (turns ++ [t]) = (s.play turns).take t :=
  s.play_append turns [t]

end Store

/-- What happens to a workspace whose store others write too: a call of its own, or anything that
the others do to the store. -/
inductive Visit where
  | call (o : Options) (c : Call)
  | others (store : Store)
  deriving DecidableEq

namespace Workspace

/-- The workspace that a visit leaves behind. -/
def visit (w : Workspace) : Visit → Workspace
  | .call o c => (w.perform o c).state
  | .others store => { w with store }

def visitAll (w : Workspace) (visits : List Visit) : Workspace := visits.foldl visit w

@[simp] theorem visitAll_cons (w : Workspace) (v : Visit) (visits : List Visit) :
    w.visitAll (v :: visits) = (w.visit v).visitAll visits := rfl

end Workspace

end EntityStore
