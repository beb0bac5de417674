import EntityStore.Issue
import EntityStore.Record
/-!
# Failures

A call that fails names its cause. Each cause has one report, given by `Failure.report`.
-/
namespace EntityStore

/-- What a call does with the rows it is given. -/
inductive Operation where
  | insert
  | update
  | remove
  | readd
  deriving DecidableEq, Repr

def Operation.name : Operation → String
  | insert => "insert"
  | update => "update"
  | remove => "remove"
  | readd => "readd"

/-- An argument that a call cannot work with. -/
inductive ArgumentFault where
  /-- A check was asked of a snapshot that lacks a kind. -/
  | incompleteSnapshot (check : Operation)
  /-- A removal set was asked of a snapshot that lacks a kind it may reach. -/
  | kindNotLoaded (kind : Kind)
  | readdWithoutId (kind : Kind)
  | readdMalformed (kind : Kind) (fault : FieldFault)
  | unknownKind (index : Nat)
  deriving DecidableEq, Repr

namespace ArgumentFault

def message : ArgumentFault → String
  | incompleteSnapshot _ => "The checker needs a snapshot holding every kind"
  | kindNotLoaded k => s!"The cascade cache holds no {k.name} rows"
  | readdWithoutId k => s!"Re-added {k.name} record has no id"
  | readdMalformed k f => s!"Malformed re-added {k.name}: {f.message}"
  | unknownKind i => s!"Unknown record kind {i}"

def context : ArgumentFault → String
  | incompleteSnapshot .insert => "check_for_insert"
  | incompleteSnapshot .update => "check_for_update"
  | incompleteSnapshot _ => "check_for_removal"
  | kindNotLoaded _ => "cascading_ids"
  | readdWithoutId _ | readdMalformed _ _ => "readd"
  | unknownKind _ => "visit_kind"

end ArgumentFault

/-- What the store refuses. -/
inductive StorageFault where
  | rowWithoutId (kind : Kind)
  | updateOfMissing (kind : Kind) (id : Id)
  | duplicateId (kind : Kind) (id : Id)
  | malformedRow (kind : Kind) (fault : FieldFault)
  | commitWithoutClaim
  /-- The failure that was asked for beforehand. -/
  | injected
  deriving DecidableEq, Repr

namespace StorageFault

def message : StorageFault → String
  | rowWithoutId k => s!"{k.name} row without an id"
  | updateOfMissing k i => s!"Update of missing {k.name} row {i}"
  | duplicateId k i => s!"Duplicate primary key {i} in {k.name}"
  | malformedRow k f => s!"Malformed {k.name} row: {f.message}"
  | commitWithoutClaim => "Cursor committed without a claim"
  | injected => "Injected apply failure"

def context : StorageFault → String
  | rowWithoutId _ => "MemoryStore"
  | updateOfMissing _ _ | duplicateId _ _ | injected => "MemoryStore::apply"
  | malformedRow _ _ => "Snapshot::reload"
  | commitWithoutClaim => "MemoryStore::commit_cursor"

end StorageFault

/-- Why the cursor cannot be claimed. -/
inductive ContentionFault where
  | flushFailed
  | alreadyClaimed (owner : String)
  deriving DecidableEq, Repr

def ContentionFault.message : ContentionFault → String
  | flushFailed => "Flush of the cursor claim failed"
  | alreadyClaimed owner => s!"Cursor already claimed by {Text.quote owner}"

inductive Failure where
  /-- In strict mode, the first item refused. -/
  | rejected (issue : Issue)
  | argument (fault : ArgumentFault)
  | storage (fault : StorageFault)
  /-- The store refused the changes of a call. -/
  | applyFailed (operation : Operation) (fault : StorageFault)
  | contention (fault : ContentionFault)
  deriving DecidableEq, Repr

def Failure.report : Failure → Report
  | rejected i => .ofIssue i
  | argument f => .invalidArgument f.message f.context
  | storage f => .storage f.message f.context
  | applyFailed op f =>
    .storage s!"Apply failed: {f.message}" s!"{op.name} batch"
      "The batch was rolled back; nothing was written"
  | contention f => .contention f.message "MemoryStore::claim_cursor"

end EntityStore
