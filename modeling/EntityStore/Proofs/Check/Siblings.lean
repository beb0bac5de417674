import EntityStore.Proofs.Check.PlainTable
/-!
# What a candidate collides with

In a batch of inserts the index has the keys of stored rows under their ids, and those of candidates
accepted before under no id (`KeyIndex.Ledger`). So a candidate is accepted exactly when it makes a
row of its kind that shares no key with a stored row or with a sibling accepted before it, and the
refusal of a key says which of the two has the key: with the id of a stored row, or without one
(`InsertAnswer`).
-/
namespace EntityStore

/-- The row that a candidate makes, whatever keys other rows have. -/
def Row.formed (s : Snapshot) (k : Kind) (candidate : Record) : Except Violation (Row k) := do
  let resolved ← Row.resolveNames k s candidate
  let row ← Row.read k resolved
  Row.validate k s (Row.withId k pendingId row)

theorem Row.uncolliding_formed {s : Snapshot} {k : Kind} (candidate : Record) :
    Uncolliding (Row.formed s k candidate) :=
  .bind (Row.uncolliding_resolveNames _) fun _ => .bind (Row.uncolliding_read _) fun _ =>
    Row.uncolliding_validate _

namespace KeyIndex
variable {k : Kind} {x : KeyIndex} {stored new : List (Row k)} {row : Row k}

theorem checkUnique_eq_ok_iff :
    x.checkUnique k row = .ok () ↔ ∀ key ∈ Row.keys k row, x.find? key = none := by
  refine ⟨find?_of_checkUnique, fun h => forM_eq_ok_of_forall fun key hkey => ?_⟩
  rw [h key hkey]

theorem checkUnique_eq_error {v : Violation} (h : x.checkUnique k row = .error v) :
    ∃ key ∈ Row.keys k row, ∃ i, x.find? key = some i ∧
      v = .duplicateKey k key (if i = pendingId then none else some i) := by
  obtain ⟨key, hkey, hfound⟩ := forM_eq_error h
  split at hfound
  next => cases hfound
  next i hi => exact ⟨key, hkey, i, hi, (Except.error.inj hfound).symm⟩

/-- The index knows the keys of stored rows by their ids, those of new rows without an id, and no
others. -/
structure Ledger (x : KeyIndex) (stored new : List (Row k)) : Prop where
  of_stored : ∀ old ∈ stored, ∀ key ∈ Row.keys k old,
    ∃ holder ∈ stored, key ∈ Row.keys k holder ∧ x.find? key = some (Row.id k holder)
  of_new : ∀ row ∈ new, ∀ key ∈ Row.keys k row, x.find? key = some pendingId
  free : ∀ key, (∀ row, row ∈ stored ∨ row ∈ new → key ∉ Row.keys k row) → x.find? key = none

theorem ledger_ofTable (t : Table k) : (ofTable k t).Ledger t.toList [] where
  of_stored old hold key hkey := by
    rw [find?_ofTable]
    cases hholder : t.toList.reverse.find? fun row => key ∈ Row.keys k row with
    | none =>
      have hnone := List.find?_eq_none.1 hholder old (List.mem_reverse.2 hold)
      simp [hkey] at hnone
    | some holder =>
      exact ⟨holder, List.mem_reverse.1 (List.mem_of_find?_eq_some hholder),
        by simpa using List.find?_some hholder, rfl⟩
  of_new row hrow := by cases hrow
  free key h := by
    rw [find?_ofTable, Option.map_eq_none_iff, List.find?_eq_none]
    intro row hrow
    simpa using h row (Or.inl (List.mem_reverse.1 hrow))

theorem Ledger.addRow (h : x.Ledger stored new) (hid : Row.id k row = pendingId)
    (hfree : ∀ key ∈ Row.keys k row, x.find? key = none) :
    (x.addRow k row).Ledger stored (new ++ [row]) where
  of_stored old hold key hkey := by
    obtain ⟨holder, hholder, hkey', hfound⟩ := h.of_stored old hold key hkey
    have hother : key ∉ Row.keys k row := by
      intro hrow
      rw [hfree key hrow] at hfound
      cases hfound
    exact ⟨holder, hholder, hkey', by rw [find?_addRow, if_neg hother, hfound]⟩
  of_new other hother key hkey := by
    rw [find?_addRow, hid]
    split
    next => rfl
    next hnot =>
      rcases List.mem_append.1 hother with hmem | hmem
      · exact h.of_new other hmem key hkey
      · obtain rfl := List.mem_singleton.1 hmem
        exact absurd hkey hnot
  free key hnot := by
    rw [find?_addRow, if_neg (hnot row (Or.inr (by simp)))]
    exact h.free key fun other hother => hnot other (hother.imp_right (List.mem_append_left [row]))

theorem Ledger.checkUnique_eq_ok_iff (h : x.Ledger stored new) :
    x.checkUnique k row = .ok () ↔ ∀ other, other ∈ stored ∨ other ∈ new →
      List.Disjoint (Row.keys k other) (Row.keys k row) := by
  rw [KeyIndex.checkUnique_eq_ok_iff]
  constructor
  · rintro hfree other (hother | hother) key hkey hkey'
    · obtain ⟨_, _, _, hfound⟩ := h.of_stored other hother key hkey
      rw [hfree key hkey'] at hfound
      cases hfound
    · have hfound := h.of_new other hother key hkey
      rw [hfree key hkey'] at hfound
      cases hfound
  · intro hdisjoint key hkey
    exact h.free key fun other hother hkey' => hdisjoint other hother hkey' hkey

theorem Ledger.of_checkUnique_eq_error (h : x.Ledger stored new)
    (hids : ∀ old ∈ stored, Row.id k old ≠ pendingId) {v : Violation}
    (hv : x.checkUnique k row = .error v) :
    ∃ key ∈ Row.keys k row,
      (∃ holder ∈ stored, key ∈ Row.keys k holder ∧
        v = .duplicateKey k key (some (Row.id k holder))) ∨
      (∃ sibling ∈ new, key ∈ Row.keys k sibling) ∧ v = .duplicateKey k key none ∧
        ∀ old ∈ stored, key ∉ Row.keys k old := by
  obtain ⟨key, hkey, i, hfound, rfl⟩ := checkUnique_eq_error hv
  refine ⟨key, hkey, ?_⟩
  by_cases hstored : ∃ old ∈ stored, key ∈ Row.keys k old
  · obtain ⟨old, hold, hkey'⟩ := hstored
    obtain ⟨holder, hholder, hkey', hid⟩ := h.of_stored old hold key hkey'
    obtain rfl := Option.some.inj (hfound.symm.trans hid)
    exact Or.inl ⟨holder, hholder, hkey', by rw [if_neg (hids holder hholder)]⟩
  · push Not at hstored
    have hsibling : ∃ sibling ∈ new, key ∈ Row.keys k sibling := by
      by_contra hnew
      push Not at hnew
      have hfree := h.free key fun other hother => hother.elim (hstored other) (hnew other)
      rw [hfree] at hfound
      cases hfound
    obtain ⟨sibling, hmem, hkey'⟩ := hsibling
    obtain rfl := Option.some.inj (hfound.symm.trans (h.of_new sibling hmem key hkey'))
    exact Or.inr ⟨⟨sibling, hmem, hkey'⟩, by rw [if_pos rfl], hstored⟩

end KeyIndex

/-- What a batch of inserts answers to a candidate when it has accepted the rows `earlier`
before. -/
structure InsertAnswer (s : Snapshot) (k : Kind) (earlier : List (Row k)) (candidate : Record)
    (answer : Except Rejection (Row k)) : Prop where
  /-- It is accepted when it makes a row that has no key of a stored or an earlier one. -/
  accepted_iff : ∀ row, answer = .ok row ↔ Row.formed s k candidate = .ok row ∧
    ∀ other, other ∈ s.rows k ∨ other ∈ earlier →
      List.Disjoint (Row.keys k other) (Row.keys k row)
  /-- A key is refused that its row has. The refusal names a stored row that has the key if any has
  it, and else an earlier one does. -/
  collision : ∀ r kind key conflict, answer = .error r →
    r.violation = .duplicateKey kind key conflict →
    kind = k ∧ (∃ row, Row.formed s k candidate = .ok row ∧ key ∈ Row.keys k row) ∧
      (conflict.isSome = true ↔ ∃ old ∈ s.rows k, key ∈ Row.keys k old) ∧
      (∀ i, conflict = some i → ∃ old ∈ s.rows k, Row.id k old = i ∧ key ∈ Row.keys k old) ∧
      (conflict = none → ∃ sibling ∈ earlier, key ∈ Row.keys k sibling)

section Batch
variable {s : Snapshot} {k : Kind} {x : KeyIndex} {earlier : List (Row k)}

theorem candidateRow_eq_formed (s : Snapshot) (k : Kind) (x : KeyIndex) (candidate : Record) :
    candidateRow s k x candidate = (do
      let row ← Row.formed s k candidate
      x.checkUnique k row
      return row) :=
  candidateRow_eq s k x candidate

theorem insertStep_fst_eq_ok_iff (candidate : Record) (row : Row k) :
    (insertStep s k x candidate).1 = .ok row ↔
      Row.formed s k candidate = .ok row ∧ x.checkUnique k row = .ok () := by
  have hcandidate : (insertStep s k x candidate).1 = .ok row ↔
      candidateRow s k x candidate = .ok row := by
    unfold insertStep
    split <;> simp_all
  rw [hcandidate, candidateRow_eq_formed]
  simp only [bind_eq_ok_iff, pure_eq_ok_iff]
  constructor
  · rintro ⟨_, hformed, _, hunique, rfl⟩
    exact ⟨hformed, hunique⟩
  · rintro ⟨hformed, hunique⟩
    exact ⟨row, hformed, (), hunique, rfl⟩

theorem checkUnique_of_insertStep {candidate : Record} {r : Rejection}
    (h : (insertStep s k x candidate).1 = .error r) (hr : r.violation.isCollision = true) :
    ∃ row, Row.formed s k candidate = .ok row ∧ x.checkUnique k row = .error r.violation := by
  have hcandidate : candidateRow s k x candidate = .error r.violation := by
    unfold insertStep at h
    split at h
    next => cases h
    next v hv =>
      obtain rfl := Except.error.inj h
      exact hv
  rw [candidateRow_eq_formed] at hcandidate
  cases hformed : Row.formed s k candidate with
  | error v =>
    rw [hformed] at hcandidate
    obtain rfl : v = r.violation := Except.error.inj hcandidate
    rw [Row.uncolliding_formed candidate _ hformed] at hr
    cases hr
  | ok row =>
    refine ⟨row, rfl, ?_⟩
    rw [hformed] at hcandidate
    cases hunique : x.checkUnique k row with
    | error v =>
      simp only [bind, Except.bind, hunique] at hcandidate
      rw [Except.error.inj hcandidate]
    | ok =>
      simp only [bind, Except.bind, hunique] at hcandidate
      cases hcandidate

theorem insertAnswer_insertStep (h : x.Ledger (s.rows k) earlier)
    (hids : ∀ old ∈ s.rows k, Row.id k old ≠ pendingId) (candidate : Record) :
    InsertAnswer s k earlier candidate (insertStep s k x candidate).1 where
  accepted_iff row := by rw [insertStep_fst_eq_ok_iff, h.checkUnique_eq_ok_iff]
  collision r kind key conflict hr hv := by
    obtain ⟨row, hformed, hunique⟩ := checkUnique_of_insertStep hr (by rw [hv]; rfl)
    rw [hv] at hunique
    obtain ⟨key', hkey, ⟨holder, hholder, hkey', hsame⟩ | ⟨hsibling, hsame, hnone⟩⟩ :=
      h.of_checkUnique_eq_error hids hunique
    · obtain ⟨rfl, rfl, rfl⟩ := Violation.duplicateKey.inj hsame
      refine ⟨rfl, ⟨row, hformed, hkey⟩, by simpa using ⟨holder, hholder, hkey'⟩, ?_, by simp⟩
      rintro i ⟨⟩
      exact ⟨holder, hholder, rfl, hkey'⟩
    · obtain ⟨rfl, rfl, rfl⟩ := Violation.duplicateKey.inj hsame
      exact ⟨rfl, ⟨row, hformed, hkey⟩, by simpa using hnone, by simp, fun _ => hsibling⟩

theorem ledger_insertStep (h : x.Ledger (s.rows k) earlier) (candidate : Record) :
    (insertStep s k x candidate).2.Ledger (s.rows k)
      (earlier ++ (insertStep s k x candidate).1.toOption.toList) := by
  cases hanswer : (insertStep s k x candidate).1 with
  | error r =>
    rw [insertStep_eq_error hanswer]
    simpa [Except.toOption] using h
  | ok row =>
    obtain ⟨hunique, hnext⟩ := insertStep_eq_ok hanswer
    rw [hnext]
    exact h.addRow (id_of_insertStep hanswer) (KeyIndex.find?_of_checkUnique hunique)

/-- After a batch the index has the keys of the stored rows and of all candidates accepted. -/
theorem ledger_final (h : x.Ledger (s.rows k) earlier) (candidates : List Record) :
    (Batch.final (insertStep s k) x candidates).Ledger (s.rows k)
      (earlier ++ Batch.accepted (Batch.outcomes (insertStep s k) x candidates)) := by
  induction candidates generalizing x earlier with
  | nil => simpa [Batch.final, Batch.outcomes, Batch.accepted] using h
  | cons candidate candidates ih =>
    rw [Batch.accepted_outcomes_cons, ← List.append_assoc]
    exact ih (ledger_insertStep h candidate)

end Batch

namespace Snapshot

/-- A lenient check of candidates answers each of them as it should, given what the batch accepted
before it, and its duplicate ids are those that its refusals report. -/
theorem insertAnswers_answer {s : Snapshot} {k : Kind} (hcomplete : s.isComplete = true)
    (hids : s.contains k pendingId = false) (candidates : List Record) :
    let answers := s.insertAnswers k candidates
    let checked := CheckResult.ofOutcomes answers
    s.checkInsert k candidates false = .ok checked ∧ answers.length = candidates.length ∧
      (∀ n candidate answer, candidates[n]? = some candidate → answers[n]? = some answer →
        InsertAnswer s k (Batch.accepted (answers.take n)) candidate answer) ∧
      ∀ i, checked.duplicateIds.contains i = true ↔
        ∃ r ∈ checked.rejected, r.issue.conflictingId = some i := by
  intro answers checked
  refine ⟨by rw [checkInsert, if_pos hcomplete]; rfl, Batch.length_outcomes _ _ _, ?_, ?_⟩
  · intro n candidate answer hcandidate hanswer
    have hpending (old : Row k) (hold : old ∈ s.rows k) : Row.id k old ≠ pendingId := by
      intro hid
      rw [← hid, contains_of_mem hold] at hids
      cases hids
    have hledger := ledger_final (KeyIndex.ledger_ofTable (s.table k)) (candidates.take n)
    simp only [answers, insertAnswers] at hanswer ⊢
    rw [Batch.getElem?_outcomes, hcandidate, Option.map_some, Option.some.injEq] at hanswer
    rw [← hanswer, Batch.take_outcomes]
    exact insertAnswer_insertStep hledger hpending candidate
  · intro i
    rw [CheckResult.contains_duplicateIds, CheckResult.rejected_ofOutcomes]
    rfl

/-- A name that a stored row has, a new one, and the new one again. -/
def names : List Record :=
  [.ofFields [("name", some (.text "high"))], .ofFields [("name", some (.text "low"))],
    .ofFields [("name", some (.text "low"))]]

/-- The answers to the names. The last one collides with the second, which is stored nowhere. -/
theorem insertAnswers_baseAndHigh :
    baseAndHigh.insertAnswers .alternative names =
      [.error ⟨.alternative, .insert, none,
          .duplicateKey .alternative ⟨"name", [.text "high"]⟩ (some 2)⟩,
        .ok ⟨0, "low", none⟩,
        .error ⟨.alternative, .insert, none,
          .duplicateKey .alternative ⟨"name", [.text "low"]⟩ none⟩] ∧
      (∃ sibling ∈ Batch.accepted ((baseAndHigh.insertAnswers .alternative names).take 2),
        ⟨"name", [.text "low"]⟩ ∈ Row.keys .alternative sibling) ∧
      ∃ r ∈ (CheckResult.ofOutcomes (baseAndHigh.insertAnswers .alternative names)).rejected,
        r.issue.conflictingId = some 2 := by
  obtain ⟨_, _, hanswers, hids⟩ := insertAnswers_answer (s := baseAndHigh) (k := .alternative)
    (by decide) (by decide) names
  exact ⟨rfl, ((hanswers 2 _ _ rfl rfl).collision _ _ _ _ rfl rfl).2.2.2.2 rfl, (hids 2).1 rfl⟩

end Snapshot

end EntityStore
