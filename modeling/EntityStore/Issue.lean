import EntityStore.Kind
import EntityStore.Id
import EntityStore.Text.Cut
/-!
# Issues and reports

An issue says which rule an item of a batch broke. A report is what a caller sees of a failed call:
a category, a code, a message, and where known a context and a suggestion.
-/
namespace EntityStore

/-- Codes of failures. Codes without a name here may still be reported. -/
structure ErrorCode where
  number : Int
  deriving DecidableEq, Repr

namespace ErrorCode

def invalidArgument : ErrorCode := ⟨1⟩
def validationFailed : ErrorCode := ⟨100⟩
def notFound : ErrorCode := ⟨101⟩
def connectionFailed : ErrorCode := ⟨200⟩
def queryFailed : ErrorCode := ⟨201⟩
def transactionFailed : ErrorCode := ⟨202⟩
def lockContention : ErrorCode := ⟨300⟩

def name (c : ErrorCode) : String :=
  if c = invalidArgument then "invalid argument"
  else if c = validationFailed then "validation failed"
  else if c = notFound then "not found"
  else if c = connectionFailed then "connection failed"
  else if c = queryFailed then "query failed"
  else if c = transactionFailed then "transaction failed"
  else if c = lockContention then "lock contention"
  else "unknown"

end ErrorCode

/-- A broken rule, attributed to the item that broke it. -/
structure Issue where
  code : ErrorCode
  kind : Kind
  operation : String
  /-- The field at fault, or the label of a uniqueness key. -/
  key : String
  message : String
  /-- The item's id, when it has one. -/
  id : Option Id
  /-- The stored row that the item collides with. -/
  conflictingId : Option Id
  deriving DecidableEq, Repr

namespace Issue

def isNotFound (i : Issue) : Bool := i.code = .notFound

def text (i : Issue) : String :=
  s!"{i.kind.name} {i.operation}: {i.message}"
    ++ (if i.key = "" then "" else s!" [{i.key}]")
    ++ i.id.elim "" (fun id => s!" (id {id})")
    ++ i.conflictingId.elim "" (fun id => s!" (conflicts with id {id})")

end Issue

/-- What sort of failure a report is about. -/
inductive Category where
  | validation (issue : Issue)
  | notFound (issue : Issue)
  | invalidArgument
  | storage
  | contention
  | general
  deriving DecidableEq, Repr

structure Report where
  category : Category
  code : ErrorCode
  message : String
  context : String
  suggestion : String
  deriving DecidableEq, Repr

namespace Report

def invalidArgument (message context : String) (suggestion : String := "") : Report :=
  ⟨.invalidArgument, .invalidArgument, message, context, suggestion⟩

def storage (message context : String) (suggestion : String := "")
    (code : ErrorCode := .queryFailed) : Report :=
  ⟨.storage, code, message, context, suggestion⟩

def contention (message context : String) : Report :=
  ⟨.contention, .lockContention, message, context,
    "Retry the insert once the other writer has released the id cursor"⟩

def general (code : ErrorCode) (message context : String) (suggestion : String := "") : Report :=
  ⟨.general, code, message, context, suggestion⟩

/-- The report that an issue is raised as. -/
def ofIssue (i : Issue) : Report :=
  ⟨if i.isNotFound then .notFound i else .validation i, i.code, i.text, i.kind.name, ""⟩

/-- The report of a condition that does not hold; none when it holds. -/
def ofCondition (holds : Bool) (code : ErrorCode) (message context : String) : Option Report :=
  if holds then none
  else if code = .invalidArgument then some (invalidArgument message context)
  else some (general code message context)

/-- The whole report on up to three lines, ended by a NUL that a part of it brings in. -/
def text (r : Report) : String :=
  Text.beforeNul <| s!"ergraph error [{r.code.name}]: {r.message}"
    ++ (if r.context = "" then "" else "\nContext: " ++ r.context)
    ++ (if r.suggestion = "" then "" else "\nSuggestion: " ++ r.suggestion)

end Report

end EntityStore
