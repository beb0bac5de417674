import Mathlib.Data.List.TakeWhile
/-!
# Where lists are cut

A list that is put together from a part with a property and a rest without it at its front is taken
apart at the same place, and a list in which something has a property has a last such entry.
-/
namespace EntityStore
variable {α : Type} {p : α → Bool} {l r : List α}

theorem takeWhile_append_exact (hl : ∀ x ∈ l, p x = true) (hr : ∀ x ∈ r.head?, p x = false) :
    (l ++ r).takeWhile p = l := by
  rw [List.takeWhile_append_of_pos hl]
  cases r with
  | nil => simp
  | cons x r => simp [hr x rfl]

theorem dropWhile_append_exact (hl : ∀ x ∈ l, p x = true) (hr : ∀ x ∈ r.head?, p x = false) :
    (l ++ r).dropWhile p = r := by
  rw [List.dropWhile_append_of_pos hl]
  cases r with
  | nil => rfl
  | cons x r => exact List.dropWhile_cons_of_neg (by simp [hr x rfl])

theorem head?_dropWhile : ∀ x ∈ (l.dropWhile p).head?, p x = false := by
  intro x hx
  have hstop := List.head?_dropWhile_not p l
  rw [Option.mem_def.1 hx] at hstop
  exact hstop

theorem mem_head?_append {x : α} (h : x ∈ (l ++ r).head?) :
    x ∈ l.head? ∨ l = [] ∧ x ∈ r.head? := by
  cases l with
  | nil => exact Or.inr ⟨rfl, h⟩
  | cons y l => exact Or.inl h

theorem exists_last (P : α → Prop) (l : List α) :
    (∀ x ∈ l, ¬P x) ∨ ∃ before x after, l = before ++ x :: after ∧ P x ∧ ∀ y ∈ after, ¬P y := by
  induction l with
  | nil => exact Or.inl (by simp)
  | cons x l ih =>
    obtain hnone | ⟨before, last, after, rfl, hlast⟩ := ih
    · by_cases hx : P x
      · exact Or.inr ⟨[], x, l, rfl, hx, hnone⟩
      · exact Or.inl (List.forall_mem_cons.2 ⟨hx, hnone⟩)
    · exact Or.inr ⟨x :: before, last, after, rfl, hlast⟩

end EntityStore
