import EntityStore.Run
import EntityStore.Store
/-!
# Handing out ids

A writer claims the cursor, reserves a range of ids that starts above every id in the table and not
below the cursor's next id, and commits the advanced cursor, which ends the claim. A claim that is
abandoned leaves the cursor where it was. Only one claim is held at a time.
-/
namespace EntityStore

/-- The ids from `first` on, `count` of them. -/
structure IdRange where
  first : Id
  count : Nat
  deriving DecidableEq, Repr

namespace IdRange

def empty : IdRange := ⟨pendingId, 0⟩

/-- The id after the last one. -/
def stop (r : IdRange) : Id := Id.wrap (r.first + r.count)

def isEmpty (r : IdRange) : Bool := r.count == 0

def toList (r : IdRange) : List Id :=
  (List.range r.count).map fun i : Nat => Id.wrap (r.first + i)

end IdRange

namespace Cursor

/-- The first id to hand out for a kind whose table has no id from `floor` on. -/
def nextId (c : Cursor) (k : Kind) (floor : Id) : Id := (c.nextIds.get? k).elim floor (max floor)

/-- Reserves ids of a kind and advances the cursor past them. -/
def reserve (c : Cursor) (k : Kind) (floor : Id) (count : Nat) : IdRange × Cursor :=
  let range : IdRange := ⟨c.nextId k floor, count⟩
  (range, ⟨"", c.nextIds.set k range.stop⟩)

/-- What a reservation says of a cursor that has no entry for the kind or has fallen behind. -/
def reserveLog (c : Cursor) (k : Kind) (floor : Id) : List Log.Entry :=
  match c.nextIds.get? k with
  | none => [.info s!"No cursor entry for {k.name}, starting at {floor}"]
  | some n =>
    if n < floor then [.warn s!"Stale cursor for {k.name}: {n} < max id + 1 = {floor}"] else []

end Cursor

namespace Store

/-- Writes the owner into the cursor and holds the claim. -/
def claim (s : Store) (owner : String) : Except ContentionFault Cursor × Store :=
  if s.claimFails then (.error .flushFailed, { s with claimFails := false })
  else if s.claimed then (.error (.alreadyClaimed (s.cursor.elim "" Cursor.owner)), s)
  else
    let cursor : Cursor := ⟨owner, s.cursor.elim ∅ Cursor.nextIds⟩
    (.ok cursor, { s with cursor := some cursor, claimed := true })

/-- Ends the claim without advancing the cursor. -/
def abandon (s : Store) : Store :=
  { s with cursor := s.cursor.map fun c => { c with owner := "" }, claimed := false }

/-- Stores the advanced cursor and ends the claim. -/
def commit (s : Store) (c : Cursor) : Except StorageFault Store :=
  if s.claimed then .ok { s with cursor := some c }.abandon else .error .commitWithoutClaim

/-- Forgets the cursor, as if no id had ever been handed out. -/
def dropCursor (s : Store) : Store := { s with cursor := none, claimed := false }

/-- Ends a claim by committing the cursor; a commit that is refused abandons the claim. -/
def settleClaim {α : Type} (s : Store) (c : Cursor) (result : α) (log : List Log.Entry) :
    Run Store α :=
  match s.commit c with
  | .error f => .failed (.storage f) s.abandon []
  | .ok s => .done result s log

/-- Hands out consecutive ids of a kind. Asking for none touches nothing. -/
def allocate (s : Store) (k : Kind) (count : Nat) (owner : String) : Run Store IdRange :=
  if count = 0 then .done .empty s []
  else match s.claim owner with
    | (.error f, s) => .failed (.contention f) s []
    | (.ok cursor, s) =>
      let (range, advanced) := cursor.reserve k (s.floorId k) count
      (s.settleClaim advanced range
        [.debug (s!"Allocated {count} {k.name} ids from {range.first} "
          ++ s!"for {Text.quote owner}")]).after (cursor.reserveLog k (s.floorId k))

end Store

end EntityStore
