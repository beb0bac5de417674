/-!
# Batches

A batch takes its items through a step that answers each item and changes a state the later items
see. Run to the end, every item has its answer; run strictly, the first refusal ends the batch.
`strict_eq` says that the two agree up to there.
-/
namespace EntityStore.Batch
variable {σ ι ε α : Type}

/-- The answer to every item, in order. -/
def outcomes (step : σ → ι → Except ε α × σ) (state : σ) : List ι → List (Except ε α)
  | [] => []
  | item :: items =>
    let (answer, next) := step state item
    answer :: outcomes step next items

/-- The results of all items, or the first refusal. -/
def strict (step : σ → ι → Except ε α × σ) (state : σ) : List ι → Except ε (List α)
  | [] => .ok []
  | item :: items =>
    match step state item with
    | (.error e, _) => .error e
    | (.ok a, next) => (strict step next items).map (a :: ·)

def accepted (answers : List (Except ε α)) : List α := answers.filterMap Except.toOption

def refusal? : Except ε α → Option ε
  | .error e => some e
  | .ok _ => none

def refused (answers : List (Except ε α)) : List ε := answers.filterMap refusal?

section Answers
variable (a : α) (e : ε) (answers : List (Except ε α))

@[simp] theorem accepted_nil : accepted ([] : List (Except ε α)) = [] := rfl

@[simp] theorem accepted_cons_ok : accepted (.ok a :: answers) = a :: accepted answers := rfl

@[simp] theorem accepted_cons_error : accepted (.error e :: answers) = accepted answers := rfl

@[simp] theorem refused_nil : refused ([] : List (Except ε α)) = [] := rfl

@[simp] theorem refused_cons_ok : refused (.ok a :: answers) = refused answers := rfl

@[simp] theorem refused_cons_error : refused (.error e :: answers) = e :: refused answers := rfl

theorem length_accepted_add_refused :
    (accepted answers).length + (refused answers).length = answers.length := by
  induction answers with
  | nil => rfl
  | cons answer answers ih =>
    cases answer with
    | ok a => simp; omega
    | error e => simp; omega

end Answers

@[simp] theorem length_outcomes (step : σ → ι → Except ε α × σ) (state : σ) (items : List ι) :
    (outcomes step state items).length = items.length := by
  induction items generalizing state with
  | nil => rfl
  | cons item items ih => simp [outcomes, ih]

/-- A strict run fails with the first refusal, and without one gives all results. -/
theorem strict_eq (step : σ → ι → Except ε α × σ) (state : σ) (items : List ι) :
    strict step state items =
      match refused (outcomes step state items) with
      | [] => .ok (accepted (outcomes step state items))
      | e :: _ => .error e := by
  induction items generalizing state with
  | nil => rfl
  | cons item items ih =>
    simp only [strict, outcomes]
    rcases step state item with ⟨e | a, next⟩
    · simp
    · simp only [ih next, refused_cons_ok, accepted_cons_ok]
      cases refused (outcomes step next items) with
      | nil => rfl
      | cons e rest => rfl

end EntityStore.Batch
