import EntityStore.Engine.Call
/-!
# Histories of a workspace

A history is what happens to a workspace whose rows nobody else writes: calls of the engine, and in
between events that leave the rows of the store alone. The cursor may be moved, claimed or let go,
and the next apply or the next claim may be set up to fail. A call that fails is part of the
history; the next event meets the state that it left behind.
-/
namespace EntityStore

inductive Event where
  | call (c : Call)
  /-- The cursor, its claim and the failures to come are set to what is given. -/
  | disturb (cursor : Option Cursor) (claimed applyFails claimFails : Bool)
  deriving DecidableEq

/-- Whether what a call writes is checked first. Rows that are added again are not. -/
def Call.isChecked : Call → Bool
  | .readd _ _ => false
  | _ => true

def Event.isChecked : Event → Bool
  | .call c => c.isChecked
  | .disturb _ _ _ _ => true

namespace Workspace

/-- The workspace that an event leaves behind. -/
def react (o : Options) (w : Workspace) : Event → Workspace
  | .call c => (w.perform o c).state
  | .disturb cursor claimed applyFails claimFails =>
    { w with store := { w.store with cursor, claimed, applyFails, claimFails } }

/-- The workspace that a history leaves behind. -/
def run (o : Options) (w : Workspace) (events : List Event) : Workspace := events.foldl (react o) w

/-- What every checked event keeps holds at the end of every checked history. -/
theorem run_invariant {o : Options} {P : Workspace → Prop}
    (keeps : ∀ w e, e.isChecked = true → P w → P (w.react o e)) {w : Workspace} (h : P w)
    {events : List Event} (hchecked : ∀ e ∈ events, e.isChecked = true) : P (w.run o events) := by
  induction events generalizing w with
  | nil => exact h
  | cons e events ih =>
    apply ih
    · exact keeps w e (hchecked e List.mem_cons_self) h
    · intro e' he'
      exact hchecked e' (List.mem_cons_of_mem e he')

/-- When an event keeps `P` exactly if it is not of the sort `B`, then `P` holds throughout a
checked history exactly if no event of the history is of that sort where it happens. -/
theorem run_prefixes_iff {o : Options} {I P : Workspace → Prop} {B : Workspace → Event → Prop}
    (keeps : ∀ w e, e.isChecked = true → I w → I (w.react o e))
    (step : ∀ w e, e.isChecked = true → I w → P w → (P (w.react o e) ↔ ¬ B w e))
    {w : Workspace} (hI : I w) (hP : P w) {events : List Event}
    (hchecked : ∀ e ∈ events, e.isChecked = true) :
    (∀ first, first <+: events → P (w.run o first)) ↔
      ∀ first e, first ++ [e] <+: events → ¬ B (w.run o first) e := by
  induction events generalizing w with
  | nil =>
    constructor
    · intro _ first e hpre
      simp at hpre
    · intro _ first hpre
      rw [List.prefix_nil.1 hpre]
      exact hP
  | cons e events ih =>
    have he := hchecked e List.mem_cons_self
    have hrest (hnext : P (w.react o e)) := ih (keeps w e he hI) hnext
      fun e' he' => hchecked e' (List.mem_cons_of_mem e he')
    constructor
    · intro hall first e' hpre
      have hnext : P (w.react o e) := hall [e] (List.prefix_append [e] events)
      cases first with
      | nil =>
        obtain rfl := (List.cons_prefix_cons.1 hpre).1
        exact (step w e' he hI hP).1 hnext
      | cons e'' first =>
        rcases List.cons_prefix_cons.1 hpre with ⟨rfl, htail⟩
        refine (hrest hnext).1 (fun later hlater => ?_) first e' htail
        exact hall (e'' :: later) (List.cons_prefix_cons.2 ⟨rfl, hlater⟩)
    · intro hnone first hpre
      cases first with
      | nil => exact hP
      | cons e'' first =>
        rcases List.cons_prefix_cons.1 hpre with ⟨rfl, htail⟩
        have hnext := (step w e'' he hI hP).2 (hnone [] e'' (List.prefix_append [e''] events))
        refine (hrest hnext).2 (fun later e' hlater => ?_) first htail
        exact hnone (e'' :: later) e' (List.cons_prefix_cons.2 ⟨rfl, hlater⟩)

end Workspace

end EntityStore
