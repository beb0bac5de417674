import EntityStore.Proofs.Lists
import EntityStore.Text.Blank
/-!
# Blanks at either end

What is left of a text without the blanks at either end is the one part of it that neither begins
nor ends with a blank and has only blanks around it.
-/
namespace EntityStore.Text

/-- A text without the blanks at either end. -/
def Trims (cs t : List Char) : Prop :=
  ∃ before after, cs = before ++ t ++ after ∧ (∀ ch ∈ before, isBlank ch = true) ∧
    (∀ ch ∈ after, isBlank ch = true) ∧ (∀ ch ∈ t.head?, isBlank ch = false) ∧
    ∀ ch ∈ t.getLast?, isBlank ch = false

theorem trims_trimChars (cs : List Char) : Trims cs (trimChars cs) := by
  have hfront := List.takeWhile_append_dropWhile (p := isBlank) (l := cs)
  have hback := List.takeWhile_append_dropWhile (p := isBlank) (l := (cs.dropWhile isBlank).reverse)
  have hrest : cs.dropWhile isBlank =
      trimChars cs ++ ((cs.dropWhile isBlank).reverse.takeWhile isBlank).reverse := by
    rw [trimChars, ← List.reverse_append, hback, List.reverse_reverse]
  refine ⟨cs.takeWhile isBlank, ((cs.dropWhile isBlank).reverse.takeWhile isBlank).reverse, ?_,
    fun ch => List.mem_takeWhile_imp, fun ch hch => ?_, fun ch hch => ?_, fun ch hch => ?_⟩
  · rw [List.append_assoc, ← hrest, hfront]
  · exact List.mem_takeWhile_imp (List.mem_reverse.1 hch)
  · have hhead : ch ∈ (cs.dropWhile isBlank).head? := by
      rw [hrest, List.head?_append, Option.mem_def.1 hch]
      rfl
    exact head?_dropWhile ch hhead
  · rw [trimChars, List.getLast?_reverse] at hch
    exact head?_dropWhile ch hch

theorem trims_iff {cs t : List Char} : Trims cs t ↔ t = trimChars cs := by
  constructor
  · rintro ⟨before, after, rfl, hbefore, hafter, hfirst, hlast⟩
    rw [trimChars, List.append_assoc]
    by_cases ht : t = []
    · rw [ht, List.nil_append, List.dropWhile_append_of_pos hbefore,
        List.dropWhile_eq_nil_iff.2 hafter]
      rfl
    · have hhead : ∀ ch ∈ (t ++ after).head?, isBlank ch = false := by
        intro ch hch
        obtain hch | ⟨hnil, _⟩ := mem_head?_append hch
        · exact hfirst ch hch
        · exact absurd hnil ht
      rw [dropWhile_append_exact hbefore hhead, List.reverse_append,
        dropWhile_append_exact (fun ch hch => hafter ch (List.mem_reverse.1 hch)),
        List.reverse_reverse]
      rwa [List.head?_reverse]
  · rintro rfl
    exact trims_trimChars cs

end EntityStore.Text
