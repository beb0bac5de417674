import EntityStore.Store.Cursor
/-!
# Writers that share a store

Ids are handed out in three steps: a writer claims the cursor, reads the largest id of a kind and
reserves ids in its copy of the cursor, and commits the copy or gives up. Any number of writers take
these steps in any order, over and over; in between others change rows, and an apply or a claim may
be set up to fail. A writer that takes its steps without a break hands out ids as `Store.allocate`
does.
-/
namespace EntityStore

/-- Ids that are handed out. -/
structure Grant where
  kind : Kind
  range : IdRange
  /-- The rows of the kind when its largest id was read. -/
  seen : RecordTable

/-- How far a writer has come. -/
inductive Stage where
  | idle
  | claimed (kind : Kind) (count : Nat) (cursor : Cursor)
  | reserved (grant : Grant) (cursor : Cursor)

/-- A store and its writers. -/
structure Shared (ω : Type) where
  store : Store
  stage : ω → Stage
  /-- What was committed so far, in the order of the commits. -/
  granted : List Grant

inductive Move (ω : Type) where
  | claim (writer : ω) (owner : String) (kind : Kind) (count : Nat)
  | reserve (writer : ω)
  | commit (writer : ω)
  | giveUp (writer : ω)
  | apply (changes : ChangeSet)
  | putRaw (kind : Kind) (record : Record)
  | setUp (applyFails claimFails : Bool)

namespace Shared
variable {ω : Type}

/-- A store whose writers have not begun. -/
def start (store : Store) : Shared ω := ⟨store, fun _ => .idle, []⟩

variable [DecidableEq ω]

/-- A writer gets to a stage, and the store is left as given. -/
def setStage (s : Shared ω) (a : ω) (stage : Stage) (store : Store) : Shared ω :=
  { s with store, stage := fun b => if b = a then stage else s.stage b }

/-- Makes a move. A writer whose turn it is not for a step does nothing. -/
def move (s : Shared ω) : Move ω → Shared ω
  | .claim a owner k count =>
    match s.stage a with
    | .idle =>
      if count = 0 then s
      else match s.store.claim owner with
        | (.error _, store) => { s with store }
        | (.ok cursor, store) => s.setStage a (.claimed k count cursor) store
    | _ => s
  | .reserve a =>
    match s.stage a with
    | .claimed k count cursor =>
      let (range, advanced) := cursor.reserve k (s.store.floorId k) count
      s.setStage a (.reserved ⟨k, range, s.store.table k⟩ advanced) s.store
    | _ => s
  | .commit a =>
    match s.stage a with
    | .reserved grant cursor =>
      match s.store.commit cursor with
      | .error _ => s.setStage a .idle s.store.abandon
      | .ok store => { s.setStage a .idle store with granted := s.granted ++ [grant] }
    | _ => s
  | .giveUp a =>
    match s.stage a with
    | .idle => s
    | _ => s.setStage a .idle s.store.abandon
  | .apply c => { s with store := (s.store.apply c).2 }
  | .putRaw k r => { s with store := (s.store.putRaw k r).toOption.getD s.store }
  | .setUp applyFails claimFails => { s with store := { s.store with applyFails, claimFails } }

def run (s : Shared ω) (moves : List (Move ω)) : Shared ω := moves.foldl move s

end Shared

end EntityStore
