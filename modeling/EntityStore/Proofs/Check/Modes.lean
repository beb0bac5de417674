import EntityStore.Check
import Mathlib.Data.List.Forall2
/-!
# Strict and lenient checks

A strict check is the lenient one stopped at the first item refused: it fails exactly when the
lenient one refuses something, with the first of these issues, and gives the same result otherwise
(`Agrees`). A lenient check of a complete snapshot never fails, and answers every item once
(`Accounts`).
-/
namespace EntityStore

/-- The outcome of a strict run beside that of a lenient one that refuses `rejected`. -/
structure Agrees {α : Type} (rejected : List Rejection) (lenient strict : Except Failure α) : Prop
  where
  fails_iff : (∃ f, strict = .error f) ↔ rejected ≠ []
  first : ∀ f, strict = .error f → ∃ r, rejected.head? = some r ∧
    f.report.category =
      if r.issue.isNotFound then .notFound r.issue else .validation r.issue
  same : rejected = [] → strict = lenient

theorem agrees_refused {α : Type} (r : Rejection) (rest : List Rejection)
    (lenient : Except Failure α) : Agrees (r :: rest) lenient (.error (.rejected r.issue)) where
  fails_iff := by simp
  first f hf := by
    obtain rfl := Except.error.inj hf
    exact ⟨r, rfl, rfl⟩
  same := by simp

theorem agrees_ok {α : Type} (a : α) : Agrees [] (.ok a) (.ok a) where
  fails_iff := by simp
  first := by simp
  same _ := rfl

namespace Batch
variable {σ ι ε α : Type}

theorem forall₂_outcomes (step : σ → ι → Except ε α × σ) (state : σ) (items : List ι) :
    List.Forall₂ (fun item answer => ∃ state, (step state item).1 = answer) items
      (outcomes step state items) := by
  induction items generalizing state with
  | nil => exact .nil
  | cons item items ih => exact .cons ⟨state, rfl⟩ (ih _)

theorem exists_sublist_accepted {R : ι → Except ε α → Prop} {items : List ι}
    {answers : List (Except ε α)} (h : List.Forall₂ R items answers) :
    ∃ kept, kept.Sublist items ∧ List.Forall₂ (fun item a => R item (.ok a)) kept
      (accepted answers) := by
  induction h with
  | nil => exact ⟨[], .refl [], .nil⟩
  | @cons item answer items answers hitem _ ih =>
    obtain ⟨kept, hsub, hkept⟩ := ih
    cases answer with
    | error e => exact ⟨kept, hsub.cons item, hkept⟩
    | ok a => exact ⟨item :: kept, hsub.cons_cons item, .cons hitem hkept⟩

end Batch

/-- A check with the given step answers every item once, and accepts in their order. -/
structure Accounts {σ : Type} {k : Kind} (step : σ → Record → Except Rejection (Row k) × σ)
    (items : List Record) (c : CheckResult k) : Prop where
  answers : ∃ answers, List.Forall₂ (fun item answer => ∃ state, (step state item).1 = answer) items
    answers ∧ c = .ofOutcomes answers
  length_eq : c.accepted.length + c.rejected.length = items.length
  in_order : ∃ kept, kept.Sublist items ∧
    List.Forall₂ (fun item row => ∃ state, (step state item).1 = .ok row) kept c.accepted

theorem checkBatch_modes {σ : Type} {k : Kind} (step : σ → Record → Except Rejection (Row k) × σ)
    (state : σ) (items : List Record) :
    ∃ c, checkBatch step state items false = .ok c ∧ Accounts step items c ∧
      Agrees c.rejected (checkBatch step state items false) (checkBatch step state items true) := by
  have hanswers := Batch.forall₂_outcomes step state items
  refine ⟨_, rfl, ⟨⟨_, hanswers, rfl⟩, ?_, ?_⟩, ?_⟩
  · simp [Batch.length_accepted_add_refused]
  · rw [CheckResult.accepted_ofOutcomes]
    exact Batch.exists_sublist_accepted hanswers
  · simp only [checkBatch, Batch.strict_eq, CheckResult.ofOutcomes_eq]
    cases Batch.refused (Batch.outcomes step state items) with
    | nil => exact agrees_ok _
    | cons r rest => exact agrees_refused r rest _

namespace Snapshot
variable {s : Snapshot}

theorem checkInsert_modes (h : s.isComplete = true) (k : Kind) (candidates : List Record) :
    ∃ c, s.checkInsert k candidates false = .ok c ∧ Accounts (insertStep s k) candidates c ∧
      Agrees c.rejected (s.checkInsert k candidates false) (s.checkInsert k candidates true) := by
  simp only [checkInsert, h]
  exact checkBatch_modes (insertStep s k) _ candidates

theorem checkUpdate_modes (h : s.isComplete = true) (k : Kind) (changes : List Record) :
    ∃ c, s.checkUpdate k changes false = .ok c ∧ Accounts (updateStep s k) changes c ∧
      Agrees c.rejected (s.checkUpdate k changes false) (s.checkUpdate k changes true) := by
  simp only [checkUpdate, h]
  exact checkBatch_modes (updateStep s k) _ changes

end Snapshot

end EntityStore
