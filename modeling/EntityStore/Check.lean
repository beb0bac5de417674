import EntityStore.Check.Update
import EntityStore.Log
/-!
# Checks

A check holds a batch against a complete snapshot before anything is written. Lenient checks answer
every item; strict checks fail with the first item refused. A check of a removal looks for list
values that something staying behind still relies on.
-/
namespace EntityStore

/-- What a check made of a batch. -/
structure CheckResult (k : Kind) where
  accepted : List (Row k)
  rejected : List Rejection
  /-- Ids of the stored rows that refused items collide with. -/
  duplicateIds : IdSet
  deriving DecidableEq

namespace CheckResult
variable {k : Kind}

/-- Takes in the answer to the next item. -/
def add (c : CheckResult k) : Except Rejection (Row k) → CheckResult k
  | .ok row => { c with accepted := c.accepted ++ [row] }
  | .error r =>
    { c with
      rejected := c.rejected ++ [r]
      duplicateIds := r.violation.conflict.elim c.duplicateIds c.duplicateIds.insert }

def ofOutcomes (answers : List (Except Rejection (Row k))) : CheckResult k :=
  answers.foldl add ⟨[], [], ∅⟩

theorem foldl_add (answers : List (Except Rejection (Row k))) (c : CheckResult k) :
    answers.foldl add c =
      ⟨c.accepted ++ Batch.accepted answers, c.rejected ++ Batch.refused answers,
        ((Batch.refused answers).filterMap fun r => r.violation.conflict).foldl Ascending.insert
          c.duplicateIds⟩ := by
  induction answers generalizing c with
  | nil => simp
  | cons answer answers ih =>
    rw [List.foldl_cons, ih]
    cases answer with
    | ok row => simp [add]
    | error r => cases hconflict : r.violation.conflict <;> simp [add, hconflict]

/-- The ids that are gathered along the way are those of the rejections. -/
theorem ofOutcomes_eq (answers : List (Except Rejection (Row k))) :
    ofOutcomes answers =
      ⟨Batch.accepted answers, Batch.refused answers,
        .ofIds ((Batch.refused answers).filterMap fun r => r.violation.conflict)⟩ := by
  rw [ofOutcomes, foldl_add, List.nil_append, List.nil_append]
  rfl

@[simp] theorem accepted_ofOutcomes (answers : List (Except Rejection (Row k))) :
    (ofOutcomes answers).accepted = Batch.accepted answers := by
  rw [ofOutcomes_eq]

@[simp] theorem rejected_ofOutcomes (answers : List (Except Rejection (Row k))) :
    (ofOutcomes answers).rejected = Batch.refused answers := by
  rw [ofOutcomes_eq]

theorem contains_duplicateIds {answers : List (Except Rejection (Row k))} {i : Id} :
    (ofOutcomes answers).duplicateIds.contains i = true ↔
      ∃ r ∈ Batch.refused answers, r.violation.conflict = some i := by
  rw [ofOutcomes_eq, IdSet.contains_ofIds, decide_eq_true_iff, List.mem_filterMap]

end CheckResult

def Rejection.log (r : Rejection) : Log.Entry := .debug s!"Rejected {r.issue.text}"

/-- What a check writes to the log. -/
def CheckResult.log {k : Kind} (c : CheckResult k) (noun : String) : List Log.Entry :=
  c.rejected.map Rejection.log ++
    [.debug (s!"Checked {c.accepted.length + c.rejected.length} {k.name} {noun}: "
      ++ s!"{c.accepted.length} accepted, {c.rejected.length} rejected")]

/-- Runs a batch to the end, or strictly. -/
def checkBatch {σ : Type} {k : Kind} (step : σ → Record → Except Rejection (Row k) × σ) (state : σ)
    (items : List Record) (strict : Bool) : Except Failure (CheckResult k) :=
  if strict then
    match Batch.strict step state items with
    | .ok accepted => .ok ⟨accepted, [], ∅⟩
    | .error r => .error (.rejected r.issue)
  else .ok (.ofOutcomes (Batch.outcomes step state items))

namespace Snapshot

def checkInsert (s : Snapshot) (k : Kind) (candidates : List Record) (strict : Bool) :
    Except Failure (CheckResult k) :=
  if s.isComplete then checkBatch (insertStep s k) (.ofTable k (s.table k)) candidates strict
  else .error (.argument (.incompleteSnapshot .insert))

def checkUpdate (s : Snapshot) (k : Kind) (changes : List Record) (strict : Bool) :
    Except Failure (CheckResult k) :=
  if s.isComplete then checkBatch (updateStep s k) (.ofTable (s.table k)) changes strict
  else .error (.argument (.incompleteSnapshot .update))

/-- Why a list value cannot be removed with the rest of a removal. The list values of a list that
goes as a whole can. -/
def keptValue (s : Snapshot) (removal : IdMap) (i : Id) : Option Rejection := do
  let v ← s.find? .listValue i
  if removal.has .valueList v.parameterValueListId then none
  else
    let user ← s.listUser v removal true true
    return ⟨.listValue, .remove, some i, .listValueKept v.value user⟩

/-- The list values of a removal that cannot go, by id. -/
def keptValues (s : Snapshot) (removal : IdMap) : List Rejection :=
  (removal.ids .listValue).toList.filterMap (s.keptValue removal)

def checkRemoval (s : Snapshot) (removal : IdMap) : Except Failure (List Rejection) :=
  if s.isComplete then .ok (s.keptValues removal)
  else .error (.argument (.incompleteSnapshot .remove))

end Snapshot

end EntityStore
