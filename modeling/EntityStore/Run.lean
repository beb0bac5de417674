import EntityStore.Failure
import EntityStore.Log
/-!
# Runs

A run of a call ends with a result or a failure, leaves a state behind either way, and has written
a log. What was logged before a run changes neither its outcome nor its state.
-/
namespace EntityStore

structure Run (σ α : Type) where
  outcome : Except Failure α
  state : σ
  log : List Log.Entry

namespace Run
variable {σ α : Type}

def done (a : α) (s : σ) (log : List Log.Entry) : Run σ α := ⟨.ok a, s, log⟩

def failed (f : Failure) (s : σ) (log : List Log.Entry) : Run σ α := ⟨.error f, s, log⟩

/-- The run with entries written before it began. -/
def after (r : Run σ α) (log : List Log.Entry) : Run σ α := { r with log := log ++ r.log }

@[simp] theorem outcome_after (r : Run σ α) (log : List Log.Entry) :
    (r.after log).outcome = r.outcome := rfl

@[simp] theorem state_after (r : Run σ α) (log : List Log.Entry) :
    (r.after log).state = r.state := rfl

@[simp] theorem after_nil (r : Run σ α) : r.after [] = r := rfl

theorem after_after (r : Run σ α) (first second : List Log.Entry) :
    (r.after second).after first = r.after (first ++ second) := by
  simp [after]

end Run

end EntityStore
