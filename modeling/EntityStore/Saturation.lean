/-!
# Saturating a set

Candidates join a set as long as one of them is let in by what the set holds already. Every round
takes in at least one candidate from outside, so the rounds end when no candidate is left that
joins. The saturated set holds the first one (`subset_saturate`) and every candidate that it lets in
(`mem_saturate_of_joins`), and nothing else (`saturate_induction`).
-/
namespace EntityStore.Saturation
variable {α : Type} [DecidableEq α]

/-- The candidates outside a set that it lets in. -/
def newcomers (candidates : List α) (joins : List α → α → Bool) (set : List α) : List α :=
  candidates.filter fun c => !set.contains c && joins set c

/-- The candidates that a set does not hold. -/
def outside (candidates set : List α) : List α := candidates.filter fun c => !set.contains c

theorem outside_append (candidates set fresh : List α) :
    outside candidates (set ++ fresh) =
      (outside candidates set).filter fun c => !fresh.contains c := by
  simp only [outside, List.filter_filter]
  congr 1
  funext x
  simp [Bool.and_comm]

theorem length_outside_append_le (candidates set fresh : List α) :
    (outside candidates (set ++ fresh)).length ≤ (outside candidates set).length := by
  rw [outside_append]
  exact List.length_filter_le _ _

theorem length_outside_append_lt {candidates set fresh : List α} {c : α}
    (hc : c ∈ outside candidates set) (hf : c ∈ fresh) :
    (outside candidates (set ++ fresh)).length < (outside candidates set).length := by
  rw [outside_append]
  exact List.length_filter_lt_length_iff_exists.2 ⟨c, hc, by simpa using hf⟩

theorem length_outside_newcomers_lt {candidates : List α} {joins : List α → α → Bool}
    {set : List α} (h : newcomers candidates joins set ≠ []) :
    (outside candidates (set ++ newcomers candidates joins set)).length <
      (outside candidates set).length := by
  obtain ⟨c, hc⟩ := List.exists_mem_of_ne_nil _ h
  refine length_outside_append_lt ?_ hc
  simp only [newcomers, List.mem_filter, Bool.and_eq_true] at hc
  exact List.mem_filter.2 ⟨hc.1, hc.2.1⟩

/-- The set with every candidate that it ever lets in. -/
def saturate (candidates : List α) (joins : List α → α → Bool) (set : List α) : List α :=
  if newcomers candidates joins set = [] then set
  else saturate candidates joins (set ++ newcomers candidates joins set)
termination_by (outside candidates set).length
decreasing_by exact length_outside_newcomers_lt ‹_›

theorem mem_newcomers {candidates : List α} {joins : List α → α → Bool} {set : List α} {c : α} :
    c ∈ newcomers candidates joins set ↔ c ∈ candidates ∧ c ∉ set ∧ joins set c = true := by
  simp [newcomers]

theorem subset_saturate (candidates : List α) (joins : List α → α → Bool) (set : List α) :
    set ⊆ saturate candidates joins set := by
  fun_induction saturate candidates joins set with
  | case1 => exact List.Subset.refl _
  | case2 set _ ih => exact fun x hx => ih (List.mem_append_left _ hx)

theorem mem_saturate_of_joins {candidates : List α} {joins : List α → α → Bool} {set : List α}
    {c : α} (hc : c ∈ candidates)
    (hj : joins (saturate candidates joins set) c = true) : c ∈ saturate candidates joins set := by
  fun_induction saturate candidates joins set with
  | case1 set h =>
    false_or_by_contra
    rename_i hn
    exact List.ne_nil_of_mem (mem_newcomers.2 ⟨hc, hn, hj⟩) h
  | case2 set h ih => exact ih hj

/-- What holds of the set, and of whatever joins a set that it holds of, holds of the saturated
set. -/
theorem saturate_induction {candidates : List α} {joins : List α → α → Bool} {set : List α}
    {p : α → Prop} (start : ∀ x ∈ set, p x)
    (step : ∀ set', (∀ x ∈ set', p x) → ∀ c ∈ candidates, joins set' c = true → p c) :
    ∀ x ∈ saturate candidates joins set, p x := by
  fun_induction saturate candidates joins set with
  | case1 => exact start
  | case2 set _ ih =>
    refine ih fun x hx => ?_
    rcases List.mem_append.1 hx with hx | hx
    · exact start x hx
    · obtain ⟨hc, _, hj⟩ := mem_newcomers.1 hx
      exact step set start x hc hj

end EntityStore.Saturation
