import EntityStore.Store.Cursor
/-!
# Requests to a store

What a store can be asked to do, as data: the steps around its cursor, whether they are taken
singly or as the handing out of ids, the writes that come in between, and the failures that can be
set up. A request is granted or refused, and leaves a store behind either way. `Custody` keeps in
mind who claimed the cursor last.
-/
namespace EntityStore

inductive Request where
  | claim (owner : String)
  | commit (cursor : Cursor)
  | abandon
  | dropCursor
  | allocate (kind : Kind) (count : Nat) (owner : String)
  | apply (changes : ChangeSet)
  | putRaw (kind : Kind) (record : Record)
  /-- The next claim fails. -/
  | failClaim
  /-- The next apply fails. -/
  | failApply
  deriving DecidableEq

/-- The owner for whom a request claims the cursor. Asking for no ids claims nothing. -/
def Request.claimant? : Request → Option String
  | .claim owner => some owner
  | .allocate _ count owner => if count = 0 then none else some owner
  | _ => none

/-- Whether a request is granted, and the store that it leaves behind. -/
def Store.serve (s : Store) : Request → Bool × Store
  | .claim owner => ((s.claim owner).1.isOk, (s.claim owner).2)
  | .commit cursor =>
    match s.commit cursor with
    | .ok next => (true, next)
    | .error _ => (false, s)
  | .abandon => (true, s.abandon)
  | .dropCursor => (true, s.dropCursor)
  | .allocate k count owner =>
    ((s.allocate k count owner).outcome.isOk, (s.allocate k count owner).state)
  | .apply c => ((s.apply c).1.isOk, (s.apply c).2)
  | .putRaw k r =>
    match s.putRaw k r with
    | .ok next => (true, next)
    | .error _ => (false, s)
  | .failClaim => (true, { s with claimFails := true })
  | .failApply => (true, { s with applyFails := true })

/-- A store, and the owner of the last claim that it granted. -/
structure Custody where
  store : Store
  claimant : Option String

namespace Custody

/-- A store that was not asked for anything yet. -/
def start : Custody := ⟨.empty, none⟩

def serve (c : Custody) (r : Request) : Custody :=
  let (granted, store) := c.store.serve r
  ⟨store, if granted then r.claimant?.or c.claimant else c.claimant⟩

def run (c : Custody) (requests : List Request) : Custody := requests.foldl serve c

end Custody

end EntityStore
