import EntityStore.Check
import EntityStore.Engine.Workspace
import EntityStore.Store.Cursor
/-!
# Inserting, updating and adding again

Inserts and updates are checked first; what is accepted is written in one set of changes and taken
into the session. Inserted rows get consecutive ids. A call that accepts nothing writes nothing.
Adding again puts rows back under the ids they had, without any check.
-/
namespace EntityStore

/-- What an insert, an update or a readd did. -/
structure MutationResult where
  /-- The rows as they were written. -/
  items : List Record
  ids : IdSet
  rejected : List Rejection
  deriving DecidableEq

/-- Rows under the ids of a range, in order. -/
def numbered (k : Kind) (rows : List (Row k)) (range : IdRange) : List (Row k) :=
  rows.zipWith (fun row i => Row.withId k i row) range.toList

def idsOf (k : Kind) (rows : List (Row k)) : IdSet := .ofIds (rows.map (Row.id k))

namespace Session

/-- The session with rows put into its snapshot. -/
def put (s : Session) (k : Kind) (rows : List (Row k)) : Session :=
  { s with snapshot := s.snapshot.putRows k rows }

/-- The session after rows were added. -/
def addRows (s : Session) (k : Kind) (rows : List (Row k)) : Session :=
  (s.put k rows).recordAdded k (idsOf k rows)

end Session

namespace Workspace

/-- Writes new rows under ids of their own. -/
def insertRows (o : Options) (w : Workspace) (k : Kind) (rows : List (Row k))
    (duplicates : IdSet) (rejected : List Rejection) : Run Workspace MutationResult :=
  let reserved := w.store.allocate k rows.length o.owner
  let w := { w with store := reserved.state }
  match reserved.outcome with
  | .error f => .failed f w reserved.log
  | .ok range =>
    let rows := numbered k rows range
    let items := rows.map (Row.toRecord k)
    let ids := idsOf k rows
    (w.commit .insert (.ofInserts k items) (w.session.addRows k (rows.map (Row.stored k)))
      ⟨items, duplicates.union ids, rejected⟩
      [.info s!"Inserted {ids.size} {k.name} records ({rejected.length} rejected)"]).after
        reserved.log

def insert (o : Options) (w : Workspace) (k : Kind) (candidates : List Record)
    (strict : Option Bool) (reportDuplicates : Bool) : Run Workspace MutationResult :=
  match w.session.snapshot.checkInsert k candidates (strict.getD o.strict) with
  | .error f => .failed f w []
  | .ok checked =>
    let log := checked.log "inserts"
    let duplicates := if reportDuplicates then checked.duplicateIds else ∅
    if checked.accepted = [] then .done ⟨[], duplicates, checked.rejected⟩ w log
    else (w.insertRows o k checked.accepted duplicates checked.rejected).after log

/-- Writes rows over those with the same ids. -/
def updateRows (w : Workspace) (k : Kind) (rows : List (Row k)) (rejected : List Rejection) :
    Run Workspace MutationResult :=
  let items := rows.map (Row.toRecord k)
  let ids := idsOf k rows
  w.commit .update (.ofUpdates k items) (w.session.put k (rows.map (Row.stored k)))
    ⟨items, ids, rejected⟩
    [.info s!"Updated {ids.size} {k.name} records ({rejected.length} rejected)"]

def update (o : Options) (w : Workspace) (k : Kind) (changes : List Record)
    (strict : Option Bool) : Run Workspace MutationResult :=
  match w.session.snapshot.checkUpdate k changes (strict.getD o.strict) with
  | .error f => .failed f w []
  | .ok checked =>
    let log := checked.log "updates"
    if checked.accepted = [] then .done ⟨[], ∅, checked.rejected⟩ w log
    else (w.updateRows k checked.accepted checked.rejected).after log

/-- Reads a record that is to be added again. -/
def readdedRow (k : Kind) (r : Record) : Except ArgumentFault (Row k) :=
  if r.id = pendingId then .error (.readdWithoutId k)
  else (Row.ofRecord k r).mapError (.readdMalformed k)

def readd (w : Workspace) (k : Kind) (records : List Record) : Run Workspace MutationResult :=
  if records = [] then .done ⟨[], ∅, []⟩ w []
  else match records.mapM (readdedRow k) with
    | .error f => .failed (.argument f) w []
    | .ok rows =>
      let ids := idsOf k rows
      w.commit .readd (.ofInserts k records) (w.session.addRows k rows) ⟨records, ids, []⟩
        [.info s!"Re-added {ids.size} {k.name} records"]

end Workspace

end EntityStore
