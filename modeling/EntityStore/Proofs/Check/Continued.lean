import EntityStore.Proofs.Check.Keys
import EntityStore.Proofs.IdMap
import EntityStore.Proofs.Row
import EntityStore.Proofs.Rules.Frame
import Mathlib.Data.List.Forall2
/-!
# Checks that go on from the rows accepted

A batch goes on after an item with the keys that the item left behind, and the rules go on reading
the snapshot of before. A check of the rest alone starts from a snapshot that has the accepted row
under an id of its own. For kinds whose rules leave their own table aside the two answer alike: an
update exactly (`updateAnswers_cons`), and an insert but for whom a candidate collides with, which
is no stored row yet within a batch (`insertAnswers_cons`).
-/
namespace EntityStore

namespace Batch
variable {σ τ ι ε α : Type}

theorem accepted_append (as bs : List (Except ε α)) :
    accepted (as ++ bs) = accepted as ++ accepted bs :=
  List.filterMap_append

theorem refused_append (as bs : List (Except ε α)) :
    refused (as ++ bs) = refused as ++ refused bs :=
  List.filterMap_append

theorem length_accepted_outcomes_singleton (step : σ → ι → Except ε α × σ) (state : σ) (item : ι) :
    (accepted (outcomes step state [item])).length ≤ 1 := by
  have hlength := length_accepted_add_refused (outcomes step state [item])
  rw [length_outcomes, List.length_singleton] at hlength
  omega

/-- Steps that answer alike from related states, and lead to such, answer whole batches alike. -/
theorem forall₂_outcomes_of_related {step : σ → ι → Except ε α × σ}
    {step' : τ → ι → Except ε α × τ} {R : σ → τ → Prop} {A : Except ε α → Except ε α → Prop}
    (h : ∀ x y item, R x y →
      A (step x item).1 (step' y item).1 ∧ R (step x item).2 (step' y item).2)
    {x : σ} {y : τ} (hxy : R x y) (items : List ι) :
    List.Forall₂ A (outcomes step x items) (outcomes step' y items) := by
  induction items generalizing x y with
  | nil => exact .nil
  | cons item items ih => exact .cons (h x y item hxy).1 (ih (h x y item hxy).2)

end Batch

theorem CheckResult.duplicateIds_append {k : Kind} (as bs : List (Except Rejection (Row k))) :
    (CheckResult.ofOutcomes (as ++ bs)).duplicateIds =
      (CheckResult.ofOutcomes as).duplicateIds.union (CheckResult.ofOutcomes bs).duplicateIds := by
  apply IdSet.ext_contains
  intro i
  simp [ofOutcomes_eq, Batch.refused_append]

namespace KeyIndex
variable {k : Kind} {x y : KeyIndex} {own : List Id}

/-- `x.Stands own y`: where `y` gives a key to one of the rows `own`, `x` may have it for a row
without an id; else the two agree. -/
def Stands (own : List Id) (x y : KeyIndex) : Prop :=
  ∀ key, x.find? key = y.find? key ∨
    x.find? key = some pendingId ∧ ∃ i ∈ own, y.find? key = some i

theorem Stands.addRow (h : x.Stands own y) (row : Row k) :
    (x.addRow k row).Stands own (y.addRow k row) := by
  intro key
  rw [find?_addRow, find?_addRow]
  split
  · exact Or.inl rfl
  · exact h key

theorem Stands.checkUnique (h : x.Stands own y) (hown : pendingId ∉ own) (row : Row k) :
    x.checkUnique k row = y.checkUnique k row ∨ ∃ key, ∃ i ∈ own,
      x.checkUnique k row = .error (.duplicateKey k key none) ∧
      y.checkUnique k row = .error (.duplicateKey k key (some i)) := by
  unfold KeyIndex.checkUnique
  induction Row.keys k row with
  | nil => exact Or.inl rfl
  | cons key keys ih =>
    simp only [List.forM_eq_forM, List.forM_cons] at ih ⊢
    rcases h key with heq | ⟨hx, i, hi, hy⟩
    · rw [heq]
      cases y.find? key with
      | none => exact ih
      | some i => exact Or.inl rfl
    · have hne : i ≠ pendingId := fun h => hown (h ▸ hi)
      rw [hx, hy]
      refine Or.inr ⟨key, i, hi, rfl, ?_⟩
      simp [hne, bind, Except.bind]

theorem checkUnique_congr (h : ∀ key, x.find? key = y.find? key) (row : Row k) :
    x.checkUnique k row = y.checkUnique k row := by
  simp only [checkUnique, h]

end KeyIndex

section Insert
variable {s : Snapshot} {k : Kind} {own : List Id}

/-- The answer to a candidate within a batch beside the one after a call for the earlier ones. -/
def Follows (own : List Id) (a b : Except Rejection (Row k)) : Prop :=
  a = b ∨ ∃ key, ∃ i ∈ own, a = .error ⟨k, .insert, none, .duplicateKey k key none⟩ ∧
    b = .error ⟨k, .insert, none, .duplicateKey k key (some i)⟩

theorem candidateRow_eq (s : Snapshot) (k : Kind) (taken : KeyIndex) (candidate : Record) :
    candidateRow s k taken candidate = (do
      let row ← (do
        let resolved ← Row.resolveNames k s candidate
        let row ← Row.read k resolved
        Row.validate k s (Row.withId k pendingId row))
      taken.checkUnique k row
      return row) := by
  simp only [candidateRow, bind_assoc]

theorem insertStep_follows (hclass : k ≠ .entityClass) (hentity : k ≠ .entity) (t : Table k)
    (hown : pendingId ∉ own) {x y : KeyIndex} (h : x.Stands own y) (candidate : Record) :
    Follows own (insertStep s k x candidate).1 (insertStep (s.withTable k t) k y candidate).1 ∧
      (insertStep s k x candidate).2.Stands own
        (insertStep (s.withTable k t) k y candidate).2 := by
  unfold insertStep
  rw [candidateRow_eq, candidateRow_eq, Row.resolveNames_withTable hclass hentity,
    Row.validate_withTable hclass hentity]
  generalize (do
    let resolved ← Row.resolveNames k s candidate
    let row ← Row.read k resolved
    Row.validate k s (Row.withId k pendingId row)) = checked
  cases checked with
  | error v => exact ⟨Or.inl rfl, h⟩
  | ok row =>
    rcases h.checkUnique hown row with heq | ⟨key, i, hi, hx, hy⟩
    · simp only [bind, Except.bind, heq]
      cases y.checkUnique k row with
      | error v => exact ⟨Or.inl rfl, h⟩
      | ok => exact ⟨Or.inl rfl, h.addRow row⟩
    · simp only [bind, Except.bind, hx, hy]
      exact ⟨Or.inr ⟨key, i, hi, rfl, rfl⟩, h⟩

theorem id_of_candidateRow {taken : KeyIndex} {candidate : Record} {row : Row k}
    (h : candidateRow s k taken candidate = .ok row) : Row.id k row = pendingId := by
  simp only [candidateRow, bind_eq_ok_iff, pure_eq_ok_iff] at h
  rcases h with ⟨_, _, read, _, _, hvalidate, _, _, rfl⟩
  rw [(Row.valid_of_validate hvalidate).1, Row.id_withId]

theorem id_of_insertStep {taken : KeyIndex} {candidate : Record} {row : Row k}
    (h : (insertStep s k taken candidate).1 = .ok row) : Row.id k row = pendingId := by
  unfold insertStep at h
  split at h
  next row' hrow =>
    obtain rfl := Except.ok.inj h
    exact id_of_candidateRow hrow
  next => cases h

theorem insertStep_eq_error {taken : KeyIndex} {candidate : Record} {e : Rejection}
    (h : (insertStep s k taken candidate).1 = .error e) :
    (insertStep s k taken candidate).2 = taken := by
  unfold insertStep at *
  split at h
  next => cases h
  next => rfl

end Insert

namespace Working
variable {k : Kind} {w w' : Working k}

/-- Rows that differ in their variants only, and the same keys taken by the same rows. -/
structure Alike (w w' : Working k) : Prop where
  rows : ∀ i, (w.rows.find? i).map (Row.stored k) = (w'.rows.find? i).map (Row.stored k)
  taken : ∀ key, w.taken.find? key = w'.taken.find? key

theorem exists_key_iff {a b : Option (Row k)} (h : a.map (Row.stored k) = b.map (Row.stored k))
    (key : UniqueKey) :
    (∃ row, a = some row ∧ key ∈ Row.keys k row) ↔ ∃ row, b = some row ∧ key ∈ Row.keys k row := by
  cases a with
  | none =>
    rw [Option.map_none, eq_comm, Option.map_eq_none_iff] at h
    rw [h]
  | some row =>
    rcases Option.map_eq_some_iff.1 h.symm with ⟨row', rfl, hrow⟩
    simp [← Row.keys_stored k row, ← hrow]

theorem keysDiffer_of_stored_eq {t t' : Table k} (h : t.KeysDiffer)
    (hrows : ∀ i, (t.find? i).map (Row.stored k) = (t'.find? i).map (Row.stored k)) :
    t'.KeysDiffer := by
  apply h.of_rows
  intro row hrow
  have hsame := hrows (Row.id k row)
  rw [Ascending.mem_iff_find?.1 hrow] at hsame
  rcases Option.map_eq_some_iff.1 hsame with ⟨before, hbefore, hstored⟩
  refine ⟨before, Ascending.mem_of_find? hbefore, Ascending.key_of_find? hbefore, ?_⟩
  rw [← Row.keys_stored k before, hstored, Row.keys_stored]

theorem Exact.alike (h : w.Exact) (h' : w'.Exact)
    (hrows : ∀ i, (w.rows.find? i).map (Row.stored k) = (w'.rows.find? i).map (Row.stored k)) :
    w.Alike w' where
  rows := hrows
  taken key := by
    ext i
    rw [h, h', exists_key_iff (hrows i)]

section Step
variable {before before' : Row k} (hbefore : Row.stored k before = Row.stored k before')
include hbefore

theorem id_eq_of_stored_eq : Row.id k before = Row.id k before' := by
  rw [← Row.id_stored k before, hbefore, Row.id_stored]

theorem Alike.remove (h : w.Alike w') : (w.remove before).Alike (w'.remove before') where
  rows i := by
    rw [Working.remove, Working.remove, Ascending.find?_erase, Ascending.find?_erase,
      id_eq_of_stored_eq hbefore]
    split
    · rfl
    · exact h.rows i
  taken key := by
    rw [Working.remove, Working.remove, KeyIndex.find?_removeRow, KeyIndex.find?_removeRow,
      h.taken, id_eq_of_stored_eq hbefore, ← Row.keys_stored k before, hbefore, Row.keys_stored]

theorem Alike.put (h : w.Alike w') : (w.put before).Alike (w'.put before') where
  rows i := by
    rw [Working.put, Working.put, Ascending.find?_insert, Ascending.find?_insert,
      id_eq_of_stored_eq hbefore]
    split
    · exact congrArg some hbefore
    · exact h.rows i
  taken key := by
    rw [Working.put, Working.put, KeyIndex.find?_addRow, KeyIndex.find?_addRow,
      h.taken, id_eq_of_stored_eq hbefore, ← Row.keys_stored k before, hbefore, Row.keys_stored]

theorem Alike.revise_eq (h : w.Alike w') {s : Snapshot} (hclass : k ≠ .entityClass)
    (hentity : k ≠ .entity) (hvalue : k ≠ .listValue) (t : Table k) (changes : Record) :
    w.revise s before changes = w'.revise (s.withTable k t) before' changes := by
  have hrecord : Row.toRecord k before = Row.toRecord k before' := by
    rw [← Row.toRecord_stored, hbefore, Row.toRecord_stored]
  have hfixed (after : Row k) :
      Row.checkFixed k s before after = Row.checkFixed k s before' after := by
    rw [← Row.checkFixed_stored s before, hbefore, Row.checkFixed_stored]
  simp only [revise, hrecord, hfixed, id_eq_of_stored_eq hbefore,
    KeyIndex.checkUnique_congr h.taken, Row.resolveNames_withTable hclass hentity,
    Row.validate_withTable hclass hentity, Row.checkFixed_withTable hclass hentity hvalue]

end Step

theorem Alike.target_cases (h : w.Alike w') (changes : Record) :
    (∃ v, w.target changes = .error v ∧ w'.target changes = .error v) ∨
      ∃ before before', Row.stored k before = Row.stored k before' ∧
        w.target changes = .ok before ∧ w'.target changes = .ok before' := by
  unfold target
  cases changes.int? "id" with
  | none => exact Or.inl ⟨_, rfl, rfl⟩
  | some i =>
    by_cases hi : i = pendingId
    · exact Or.inl ⟨.missingId k, by simp [hi], by simp [hi]⟩
    · simp only [if_neg hi]
      have hrow := h.rows i
      cases hfound : w.rows.find? i with
      | none =>
        rw [hfound, Option.map_none, eq_comm, Option.map_eq_none_iff] at hrow
        rw [hrow]
        exact Or.inl ⟨_, rfl, rfl⟩
      | some before =>
        rw [hfound] at hrow
        rcases Option.map_eq_some_iff.1 hrow.symm with ⟨before', hfound', hsame⟩
        rw [hfound']
        exact Or.inr ⟨before, before', hsame.symm, rfl, rfl⟩

theorem updateStep_alike (hclass : k ≠ .entityClass) (hentity : k ≠ .entity)
    (hvalue : k ≠ .listValue) {s : Snapshot} (t : Table k) (h : w.Alike w') (changes : Record) :
    (updateStep s k w changes).1 = (updateStep (s.withTable k t) k w' changes).1 ∧
      (updateStep s k w changes).2.Alike (updateStep (s.withTable k t) k w' changes).2 := by
  unfold updateStep
  rcases h.target_cases changes with ⟨v, hv, hv'⟩ | ⟨before, before', hbefore, hrow, hrow'⟩
  · rw [hv, hv']
    exact ⟨rfl, h⟩
  · rw [hrow, hrow']
    have hrest := h.remove hbefore
    dsimp only
    rw [hrest.revise_eq hbefore hclass hentity hvalue t changes]
    cases (w'.remove before').revise (s.withTable k t) before' changes with
    | error v => exact ⟨rfl, hrest.put hbefore⟩
    | ok after => exact ⟨rfl, hrest.put rfl⟩

end Working

namespace Snapshot
variable {k : Kind}

/-- The answers to a batch of candidates. -/
def insertAnswers (s : Snapshot) (k : Kind) (candidates : List Record) :
    List (Except Rejection (Row k)) :=
  Batch.outcomes (insertStep s k) (.ofTable k (s.table k)) candidates

/-- The answers to a batch of updates. -/
def updateAnswers (s : Snapshot) (k : Kind) (changes : List Record) :
    List (Except Rejection (Row k)) :=
  Batch.outcomes (updateStep s k) (.ofTable (s.table k)) changes

end Snapshot

section Rest
variable {s : Snapshot} {k : Kind}

/-- After the first update of a batch the rest is answered as by itself, on the row that the first
one left. -/
theorem updateAnswers_cons (hclass : k ≠ .entityClass) (hentity : k ≠ .entity)
    (hvalue : k ≠ .listValue) (h : (s.table k).KeysDiffer) (item : Record) (items : List Record) :
    let rows := (Batch.accepted (s.updateAnswers k [item])).map (Row.stored k)
    s.updateAnswers k (item :: items) = s.updateAnswers k [item] ++
      (s.withTable k (rows.foldl Ascending.insert (s.table k))).updateAnswers k items := by
  intro rows
  let first := updateStep s k (.ofTable (s.table k)) item
  let t := rows.foldl Ascending.insert (s.table k)
  have hrows : rows = first.1.toOption.toList.map (Row.stored k) := by
    simp only [rows, Snapshot.updateAnswers, Batch.accepted_outcomes_cons]
    simp [Batch.outcomes, Batch.accepted, first]
  rcases (Working.exact_ofTable h).step (s := s) item with ⟨hexact, hleft⟩
  have hsame (i : Id) : (first.2.rows.find? i).map (Row.stored k) =
      (t.find? i).map (Row.stored k) := by
    change first.2.rows = first.1.toOption.toList.foldl Ascending.insert (s.table k) at hleft
    simp only [hleft, t, hrows]
    cases first.1 with
    | error e => simp [Except.toOption]
    | ok row =>
      simp only [Except.toOption, Option.toList_some, List.map_cons, List.map_nil,
        List.foldl_cons, List.foldl_nil, Ascending.find?_insert, Row.id_stored]
      split
      · simp
      · rfl
  have halike : first.2.Alike (.ofTable t) := hexact.alike
    (Working.exact_ofTable (Working.keysDiffer_of_stored_eq hexact.keysDiffer hsame)) hsame
  have hstep (x y : Working k) (changes : Record) (hxy : x.Alike y) :=
    Working.updateStep_alike (s := s) hclass hentity hvalue t hxy changes
  have hrest := Batch.forall₂_outcomes_of_related (A := Eq) hstep halike items
  rw [List.forall₂_eq_eq_eq] at hrest
  rw [Snapshot.updateAnswers, Snapshot.updateAnswers, Snapshot.updateAnswers,
    Snapshot.table_withTable_self, ← hrest]
  rfl

theorem find?_ofTable_insert {t : Table k} (h : t.KeysDiffer) (row : Row k)
    (hnew : t.find? (Row.id k row) = none)
    (hfree : ∀ key ∈ Row.keys k row, (KeyIndex.ofTable k t).find? key = none) (key : UniqueKey) :
    (KeyIndex.ofTable k (t.insert row)).find? key =
      if key ∈ Row.keys k row then some (Row.id k row) else (KeyIndex.ofTable k t).find? key := by
  have hput := (Working.exact_ofTable h).put hnew hfree
  have hwhole := (Working.exact_ofTable hput.keysDiffer).alike hput fun _ => rfl
  rw [← KeyIndex.find?_addRow]
  exact hwhole.taken key

/-- After the first candidate of a batch the rest is answered as by itself, when the first one is
stored under an id of its own. -/
theorem insertAnswers_cons (hclass : k ≠ .entityClass) (hentity : k ≠ .entity)
    (h : (s.table k).KeysDiffer) {i : Id} (hi : i ≠ pendingId) (hnew : (s.table k).find? i = none)
    (item : Record) (items : List Record) :
    let rows := (Batch.accepted (s.insertAnswers k [item])).map fun row =>
      Row.stored k (Row.withId k i row)
    ∃ rest, s.insertAnswers k (item :: items) = s.insertAnswers k [item] ++ rest ∧
      List.Forall₂ (Follows (rows.map (Row.id k))) rest
        ((s.withTable k (rows.foldl Ascending.insert (s.table k))).insertAnswers k items) := by
  intro rows
  let first := insertStep s k (.ofTable k (s.table k)) item
  let t := rows.foldl Ascending.insert (s.table k)
  have hrows : rows = first.1.toOption.toList.map fun row =>
      Row.stored k (Row.withId k i row) := by
    simp only [rows, Snapshot.insertAnswers, Batch.accepted_outcomes_cons]
    simp [Batch.outcomes, Batch.accepted, first]
  have hown : pendingId ∉ rows.map (Row.id k) := by
    simp only [rows, List.map_map, List.mem_map, Function.comp_apply, Row.id_stored, Row.id_withId]
    rintro ⟨_, _, rfl⟩
    exact hi rfl
  have hstands : first.2.Stands (rows.map (Row.id k)) (.ofTable k t) := by
    intro key
    cases hfirst : first.1 with
    | error e =>
      left
      simp [t, hrows, hfirst, Except.toOption, first, insertStep_eq_error hfirst]
    | ok row =>
      obtain ⟨hunique, hnext⟩ := insertStep_eq_ok hfirst
      have hkeys := find?_ofTable_insert h (Row.stored k (Row.withId k i row))
        (by simpa using hnew) (by simpa using KeyIndex.find?_of_checkUnique hunique) key
      simp only [t, hrows, hfirst, first, hnext, Except.toOption, Option.toList_some, List.map_cons,
        List.map_nil, List.foldl_cons, List.foldl_nil, hkeys, KeyIndex.find?_addRow,
        id_of_insertStep hfirst, Row.keys_stored, Row.keys_withId, Row.id_stored, Row.id_withId]
      by_cases hkey : key ∈ Row.keys k row <;> simp [hkey]
  have hstep (x y : KeyIndex) (candidate : Record) (hxy : x.Stands (rows.map (Row.id k)) y) :=
    insertStep_follows (s := s) hclass hentity t hown hxy candidate
  refine ⟨Batch.outcomes (insertStep s k) first.2 items, rfl, ?_⟩
  rw [Snapshot.insertAnswers, Snapshot.table_withTable_self]
  exact Batch.forall₂_outcomes_of_related hstep hstands items

end Rest

section Follows
variable {k : Kind} {own : List Id} {as bs : List (Except Rejection (Row k))}

theorem accepted_eq_of_follows (h : List.Forall₂ (Follows own) as bs) :
    Batch.accepted as = Batch.accepted bs := by
  induction h with
  | nil => rfl
  | @cons a b as bs hab _ ih =>
    unfold Batch.accepted at ih ⊢
    rcases hab with rfl | ⟨key, i, hi, rfl, rfl⟩
    · rw [List.filterMap_cons, List.filterMap_cons, ih]
    · exact ih

/-- Candidates collide with the same stored rows, but for those that the batch itself has stored. -/
theorem duplicateIds_of_follows (h : List.Forall₂ (Follows own) as bs) (i : Id) :
    ((CheckResult.ofOutcomes as).duplicateIds.contains i = true ∨ i ∈ own) ↔
      ((CheckResult.ofOutcomes bs).duplicateIds.contains i = true ∨ i ∈ own) := by
  simp only [CheckResult.ofOutcomes_eq, IdSet.contains_ofIds,
    decide_eq_true_eq, Batch.refused, List.filterMap_filterMap]
  induction h with
  | nil => rfl
  | @cons a b as bs hab _ ih =>
    rcases hab with rfl | ⟨key, j, hj, rfl, rfl⟩
    · simp only [List.mem_filterMap, List.exists_mem_cons_iff, or_assoc] at ih ⊢
      rw [ih]
    · rw [List.filterMap_cons_none (by rfl), ih]
      rw [List.filterMap_cons_some (b := j) (by rfl), List.mem_cons]
      constructor
      · exact Or.imp_left Or.inr
      · rintro ((rfl | hi) | hi)
        · exact Or.inr hj
        · exact Or.inl hi
        · exact Or.inr hi

end Follows

end EntityStore
