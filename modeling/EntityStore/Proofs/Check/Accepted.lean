import EntityStore.Check
import EntityStore.Proofs.Rules.Valid
/-!
# What a check accepts

A row accepted for insertion is valid against the snapshot. A row accepted as an update is valid and
revises a row of the same id, which stood in the snapshot or was accepted earlier in the batch; what
holds of all rows of the snapshot and outlasts every revision holds of all rows accepted
(`accepted_of_checkUpdate`).
-/
namespace EntityStore

/-- What the steps of a batch keep of the state, and give of a result from there, holds of every
result accepted. -/
theorem Batch.forall_accepted {σ ι ε α : Type} {step : σ → ι → Except ε α × σ} {I : σ → Prop}
    {P : α → Prop} (keeps : ∀ state item, I state → I (step state item).2)
    (gives : ∀ state item a, I state → (step state item).1 = .ok a → P a)
    {state : σ} (h : I state) (items : List ι) :
    ∀ a ∈ accepted (outcomes step state items), P a := by
  induction items generalizing state with
  | nil => intro a ha; cases ha
  | cons item items ih =>
    intro a ha
    have hrest := ih (keeps state item h)
    rcases List.mem_filterMap.1 ha with ⟨answer, hmem, ha⟩
    rcases List.mem_cons.1 hmem with rfl | hmem
    · cases hstep : (step state item).1 with
      | error e => rw [hstep] at ha; cases ha
      | ok b =>
        rw [hstep] at ha
        obtain rfl := Option.some.inj ha
        exact gives state item b h hstep
    · exact hrest a (List.mem_filterMap.2 ⟨answer, hmem, ha⟩)

namespace Batch
variable {σ ι ε α : Type} (step : σ → ι → Except ε α × σ) (state : σ) (items : List ι)

/-- The state that a batch leaves behind. -/
def final : σ := items.foldl (fun state item => (step state item).2) state

theorem getElem?_outcomes (n : Nat) :
    (outcomes step state items)[n]? =
      items[n]?.map fun item => (step (final step state (items.take n)) item).1 := by
  induction items generalizing state n with
  | nil => rfl
  | cons item items ih =>
    cases n with
    | zero => rfl
    | succ n => exact ih (step state item).2 n

theorem take_outcomes (n : Nat) :
    (outcomes step state items).take n = outcomes step state (items.take n) := by
  induction items generalizing state n with
  | nil => simp [outcomes]
  | cons item items ih =>
    cases n with
    | zero => rfl
    | succ n => exact congrArg ((step state item).1 :: ·) (ih (step state item).2 n)

end Batch

theorem accepted_checkBatch {σ : Type} {k : Kind} {step : σ → Record → Except Rejection (Row k) × σ}
    {state : σ} {items : List Record} {strict : Bool} {c : CheckResult k}
    (h : checkBatch step state items strict = .ok c) :
    c.accepted = Batch.accepted (Batch.outcomes step state items) := by
  unfold checkBatch at h
  split at h
  · rw [Batch.strict_eq] at h
    cases hr : Batch.refused (Batch.outcomes step state items) with
    | nil =>
      rw [hr] at h
      obtain rfl := Except.ok.inj h
      rfl
    | cons r rs =>
      rw [hr] at h
      cases h
  · obtain rfl := Except.ok.inj h
    exact CheckResult.accepted_ofOutcomes _

section Insert
variable {s : Snapshot} {k : Kind}

theorem valid_of_candidateRow {taken : KeyIndex} {candidate : Record} {row : Row k}
    (h : candidateRow s k taken candidate = .ok row) : Row.Valid s k row := by
  simp only [candidateRow, bind_eq_ok_iff, pure_eq_ok_iff] at h
  rcases h with ⟨_, _, _, _, _, hvalidate, _, _, rfl⟩
  exact (Row.valid_of_validate hvalidate).2

theorem valid_of_checkInsert {candidates : List Record} {strict : Bool} {c : CheckResult k}
    (h : s.checkInsert k candidates strict = .ok c) : ∀ row ∈ c.accepted, Row.Valid s k row := by
  unfold Snapshot.checkInsert at h
  split at h
  next =>
    rw [accepted_checkBatch h]
    refine Batch.forall_accepted (I := fun _ => True) (fun _ _ _ => trivial) ?_ trivial candidates
    intro taken candidate row _ hstep
    unfold insertStep at hstep
    split at hstep
    next row' hrow =>
      obtain rfl := Except.ok.inj hstep
      exact valid_of_candidateRow hrow
    next => cases hstep
  next => cases h

end Insert

/-- `Row.Revises s k before row`: an update may turn the row `before` into `row`. -/
def Row.Revises (s : Snapshot) (k : Kind) (before row : Row k) : Prop :=
  ∃ after, Row.id k after = Row.id k before ∧ Row.checkFixed k s before after = .ok () ∧
    Row.validate k s after = .ok row

section Update
variable {s : Snapshot} {k : Kind} {before row : Row k}

theorem Row.Revises.id_eq (h : Row.Revises s k before row) : Row.id k row = Row.id k before := by
  rcases h with ⟨after, hid, _, hvalidate⟩
  rw [(Row.valid_of_validate hvalidate).1, hid]

theorem Row.Revises.valid (h : Row.Revises s k before row) : Row.Valid s k row := by
  rcases h with ⟨after, _, _, hvalidate⟩
  exact (Row.valid_of_validate hvalidate).2

theorem revises_of_revise {w : Working k} {changes : Record}
    (h : w.revise s before changes = .ok row) : Row.Revises s k before row := by
  simp only [Working.revise, bind_eq_ok_iff, pure_eq_ok_iff] at h
  rcases h with ⟨_, _, read, _, ⟨⟩, hfixed, after, hvalidate, _, _, rfl⟩
  exact ⟨Row.withId k (Row.id k before) read, Row.id_withId k _ read, hfixed, hvalidate⟩

theorem find?_of_target {w : Working k} {changes : Record} (h : w.target changes = .ok row) :
    ∃ i, w.rows.find? i = some row := by
  unfold Working.target at h
  split at h
  next => cases h
  next i _ =>
    split at h
    next => cases h
    next =>
      split at h
      next => cases h
      next r hr =>
        obtain rfl := Except.ok.inj h
        exact ⟨i, hr⟩

/-- What holds of the rows of the snapshot, and of a row whenever it holds of the one that the row
revises, holds of every row accepted; each of these revises some row of which it holds. -/
theorem revises_of_checkUpdate {P : Row k → Prop} (start : ∀ row ∈ s.rows k, P row)
    (step : ∀ before row, P before → Row.Revises s k before row → P row)
    {changes : List Record} {strict : Bool} {c : CheckResult k}
    (h : s.checkUpdate k changes strict = .ok c) :
    ∀ row ∈ c.accepted, ∃ before, P before ∧ Row.Revises s k before row := by
  let I : Working k → Prop := fun w => ∀ i row, w.rows.find? i = some row → P row
  have hput (w : Working k) (row : Row k) (hw : I w) (hrow : P row) : I (w.put row) := by
    intro i r hr
    rw [Working.put, Ascending.find?_insert] at hr
    split at hr
    · obtain rfl := Option.some.inj hr
      exact hrow
    · exact hw i r hr
  have hremove (w : Working k) (row : Row k) (hw : I w) : I (w.remove row) := by
    intro i r hr
    rw [Working.remove, Ascending.find?_erase] at hr
    split at hr
    · cases hr
    · exact hw i r hr
  unfold Snapshot.checkUpdate at h
  split at h
  next =>
    rw [accepted_checkBatch h]
    refine Batch.forall_accepted (I := I) ?_ ?_ ?_ changes
    · intro w item hw
      unfold updateStep
      split
      next => exact hw
      next before htarget =>
        rcases find?_of_target htarget with ⟨i, hi⟩
        have hbefore := hw i before hi
        dsimp only
        split
        next => exact hput _ _ (hremove w before hw) hbefore
        next row hrow =>
          exact hput _ _ (hremove w before hw) (step before row hbefore (revises_of_revise hrow))
    · intro w item row hw hstep
      unfold updateStep at hstep
      split at hstep
      next => cases hstep
      next before htarget =>
        rcases find?_of_target htarget with ⟨i, hi⟩
        dsimp only at hstep
        split at hstep
        next => cases hstep
        next row' hrow =>
          obtain rfl := Except.ok.inj hstep
          exact ⟨before, hw i before hi, revises_of_revise hrow⟩
    · intro i row hrow
      exact start row (Ascending.mem_of_find? hrow)
  next => cases h

variable {changes : List Record} {strict : Bool} {c : CheckResult k}

theorem accepted_of_checkUpdate {P : Row k → Prop} (start : ∀ row ∈ s.rows k, P row)
    (step : ∀ before row, P before → Row.Revises s k before row → P row)
    (h : s.checkUpdate k changes strict = .ok c) : ∀ row ∈ c.accepted, P row := by
  intro row hrow
  rcases revises_of_checkUpdate start step h row hrow with ⟨before, hbefore, hrevises⟩
  exact step before row hbefore hrevises

theorem valid_of_checkUpdate (h : s.checkUpdate k changes strict = .ok c) :
    ∀ row ∈ c.accepted, Row.Valid s k row := by
  intro row hrow
  obtain ⟨before, _, hrevises⟩ := revises_of_checkUpdate (P := fun _ => True)
    (fun _ _ => trivial) (fun _ _ _ _ => trivial) h row hrow
  exact hrevises.valid

theorem length_accepted_le_of_checkUpdate (h : s.checkUpdate k changes strict = .ok c) :
    c.accepted.length ≤ changes.length := by
  unfold Snapshot.checkUpdate at h
  split at h
  next =>
    have hcount := Batch.length_accepted_add_refused
      (Batch.outcomes (updateStep s k) (.ofTable (s.table k)) changes)
    rw [Batch.length_outcomes] at hcount
    rw [accepted_checkBatch h]
    omega
  next => cases h

theorem contains_of_checkUpdate (h : s.checkUpdate k changes strict = .ok c) :
    ∀ row ∈ c.accepted, s.contains k (Row.id k row) = true := by
  refine accepted_of_checkUpdate (fun row hrow => Snapshot.contains_of_mem hrow) ?_ h
  intro before row hbefore hrevises
  rw [hrevises.id_eq]
  exact hbefore

end Update

end EntityStore
