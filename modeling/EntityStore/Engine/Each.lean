import EntityStore.Engine.Call
/-!
# Calls one after the other

A list of inputs is worked off with one call for each, and the first call that fails is the last.
-/
namespace EntityStore

namespace Run
variable {σ α β : Type}

/-- Calls for some inputs in order, with their results. -/
def each (call : σ → α → Run σ β) (s : σ) : List α → Run σ (List β)
  | [] => .done [] s []
  | a :: inputs =>
    let first := call s a
    match first.outcome with
    | .error f => .failed f first.state first.log
    | .ok b => ((each call first.state inputs).map (b :: ·)).after first.log

@[simp] theorem each_nil (call : σ → α → Run σ β) (s : σ) : each call s [] = .done [] s [] := rfl

theorem each_cons {call : σ → α → Run σ β} {s : σ} {a : α} {b : β} (inputs : List α)
    (h : (call s a).outcome = .ok b) :
    each call s (a :: inputs) =
      ((each call (call s a).state inputs).map (b :: ·)).after (call s a).log := by
  rw [each, h]

@[simp] theorem outcome_map (f : α → β) (r : Run σ α) : (r.map f).outcome = r.outcome.map f := rfl

@[simp] theorem state_map (f : α → β) (r : Run σ α) : (r.map f).state = r.state := rfl

section Cons
variable {call : σ → α → Run σ β} {s : σ} {a : α} {b : β} {inputs : List α}

theorem outcome_each_cons {bs : List β} (h : (call s a).outcome = .ok b)
    (hrest : (each call (call s a).state inputs).outcome = .ok bs) :
    (each call s (a :: inputs)).outcome = .ok (b :: bs) := by
  rw [each_cons inputs h, outcome_after, outcome_map, hrest]
  rfl

theorem state_each_cons (h : (call s a).outcome = .ok b) :
    (each call s (a :: inputs)).state = (each call (call s a).state inputs).state := by
  rw [each_cons inputs h, state_after, state_map]

end Cons

end Run

/-- What several calls did, as if one had done it. -/
def MutationResult.total : List MutationResult → MutationResult
  | [] => ⟨[], ∅, []⟩
  | r :: rs =>
    ⟨r.items ++ (total rs).items, r.ids.union (total rs).ids, r.rejected ++ (total rs).rejected⟩

namespace Snapshot

/-- The rows of a kind that a map names, as they are stored. -/
def recordsOf (s : Snapshot) (m : IdMap) (k : Kind) : List Record :=
  ((s.table k).toList.filter fun row => m.has k (Row.id k row)).map (Row.toRecord k)

end Snapshot

/-- Adds records again, one call for each kind. -/
def Workspace.restore (w : Workspace) (records : Kind → List Record) (kinds : List Kind) :
    Run Workspace (List MutationResult) :=
  Run.each (fun w k => w.readd k (records k)) w kinds

end EntityStore
