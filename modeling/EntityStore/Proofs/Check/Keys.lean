import EntityStore.Proofs.Check.Accepted
/-!
# Keys during a check

While a batch of inserts is checked, the index has the keys of all rows of the table and of all
candidates accepted so far, so whatever is accepted shares no key with either
(`disjoint_of_checkInsert`). While a batch of updates is checked, the index has exactly the keys of
the rows as the batch has left them (`Working.Exact`): a row gives its keys back before it is
revised, and takes them again when the update is refused. An index that is exact gives every key to
one row, so the rows that the batch leaves have no key in common (`keysDiffer_of_checkUpdate`).
-/
namespace EntityStore

namespace Row

@[simp] theorem keys_withId (k : Kind) (i : Id) (row : Row k) :
    keys k (withId k i row) = keys k row := by
  cases k <;> rfl

@[simp] theorem keys_stored (k : Kind) (row : Row k) : keys k (stored k row) = keys k row := by
  cases k <;> rfl

end Row

/-- No two rows of a table have a key in common. -/
def Table.KeysDiffer {k : Kind} (t : Table k) : Prop :=
  ∀ a ∈ t.toList, ∀ b ∈ t.toList, ∀ key ∈ Row.keys k a, key ∈ Row.keys k b → a = b

instance {k : Kind} (t : Table k) : Decidable t.KeysDiffer :=
  inferInstanceAs (Decidable (∀ a ∈ t.toList, ∀ b ∈ t.toList, ∀ key ∈ Row.keys k a,
    key ∈ Row.keys k b → a = b))

/-- No two rows of a kind have a key in common. -/
def Snapshot.KeysDiffer (s : Snapshot) : Prop := ∀ k, (s.table k).KeysDiffer

instance (s : Snapshot) : Decidable s.KeysDiffer :=
  decidable_of_iff (∀ k ∈ Kind.all, ∀ a ∈ s.rows k, ∀ b ∈ s.rows k, ∀ key ∈ Row.keys k a,
    key ∈ Row.keys k b → a = b) ⟨fun h k => h k (Kind.mem_all k), fun h k _ => h k⟩

theorem Table.KeysDiffer.of_rows {k : Kind} {t t' : Table k} (h : t.KeysDiffer)
    (hrows : ∀ row ∈ t'.toList, ∃ before ∈ t.toList, Row.id k before = Row.id k row ∧
      Row.keys k before = Row.keys k row) : t'.KeysDiffer := by
  intro a ha b hb key hkey hkey'
  rcases hrows a ha with ⟨a', ha', hida, hkeysa⟩
  rcases hrows b hb with ⟨b', hb', hidb, hkeysb⟩
  rw [← hkeysa] at hkey
  rw [← hkeysb] at hkey'
  have hsame : Row.id k a = Row.id k b := by
    rw [← hida, ← hidb, h a' ha' b' hb' key hkey hkey']
  rw [Ascending.mem_iff_find?] at ha hb
  rw [hsame, hb] at ha
  exact (Option.some.inj ha).symm

namespace KeyIndex
variable {x : KeyIndex} {k : Kind} {row : Row k} {key : UniqueKey}

theorem find?_addRow (x : KeyIndex) (row : Row k) (key : UniqueKey) :
    (x.addRow k row).find? key =
      if key ∈ Row.keys k row then some (Row.id k row) else x.find? key := by
  unfold addRow
  induction Row.keys k row generalizing x with
  | nil => rfl
  | cons first keys ih =>
    rw [List.foldl_cons, ih, find?_insert]
    by_cases hkeys : key ∈ keys
    · rw [if_pos hkeys, if_pos (List.mem_cons_of_mem first hkeys)]
    · simp [hkeys, eq_comm]

theorem find?_removeRow (x : KeyIndex) (row : Row k) (key : UniqueKey) :
    (x.removeRow k row).find? key =
      if key ∈ Row.keys k row ∧ x.find? key = some (Row.id k row) then none
      else x.find? key := by
  unfold removeRow
  induction Row.keys k row generalizing x with
  | nil => simp
  | cons first keys ih =>
    rw [List.foldl_cons, ih, find?_release]
    by_cases hfirst : first = key
    · subst hfirst
      by_cases hfound : x.find? first = some (Row.id k row) <;> simp [hfound]
    · simp [hfirst, Ne.symm hfirst]

theorem find?_ofTable (t : Table k) (key : UniqueKey) :
    (ofTable k t).find? key =
      (t.toList.reverse.find? fun row => key ∈ Row.keys k row).map (Row.id k) := by
  have hfold (rows : List (Row k)) (x : KeyIndex) :
      (rows.foldl (fun x row => x.addRow k row) x).find? key =
        ((rows.reverse.find? fun row => key ∈ Row.keys k row).map (Row.id k)).or
          (x.find? key) := by
    induction rows generalizing x with
    | nil => rfl
    | cons row rows ih =>
      rw [List.foldl_cons, ih, find?_addRow, List.reverse_cons, List.find?_append, Option.map_or,
        Option.or_assoc]
      by_cases h : key ∈ Row.keys k row <;> simp [h]
  rw [ofTable, hfold]
  exact Option.or_none

theorem find?_of_checkUnique (h : x.checkUnique k row = .ok ()) :
    ∀ key ∈ Row.keys k row, x.find? key = none := by
  intro key hkey
  have hfree := forM_eq_ok h key hkey
  split at hfree
  next hnone => exact hnone
  next => cases hfree

/-- Every key of a row is taken, by whichever row. -/
def Holds (x : KeyIndex) (k : Kind) (row : Row k) : Prop :=
  ∀ key ∈ Row.keys k row, (x.find? key).isSome = true

theorem holds_addRow_self (x : KeyIndex) (row : Row k) : (x.addRow k row).Holds k row := by
  intro key hkey
  rw [find?_addRow, if_pos hkey]
  rfl

theorem Holds.addRow (h : x.Holds k row) (new : Row k) : (x.addRow k new).Holds k row := by
  intro key hkey
  rw [find?_addRow]
  split
  · rfl
  · exact h key hkey

theorem holds_ofTable {t : Table k} (h : row ∈ t.toList) : (ofTable k t).Holds k row := by
  intro key hkey
  rw [find?_ofTable, Option.isSome_map, List.find?_isSome]
  exact ⟨row, List.mem_reverse.2 h, by simpa using hkey⟩

theorem Holds.disjoint (h : x.Holds k row) {new : Row k} (hnew : x.checkUnique k new = .ok ()) :
    List.Disjoint (Row.keys k row) (Row.keys k new) := by
  intro key hkey hkey'
  have hheld := h key hkey
  rw [find?_of_checkUnique hnew key hkey'] at hheld
  cases hheld

end KeyIndex

theorem Batch.accepted_outcomes_cons {σ ι ε α : Type} (step : σ → ι → Except ε α × σ) (state : σ)
    (item : ι) (items : List ι) :
    accepted (outcomes step state (item :: items)) =
      (step state item).1.toOption.toList ++
        accepted (outcomes step (step state item).2 items) := by
  have hcons : outcomes step state (item :: items) =
      (step state item).1 :: outcomes step (step state item).2 items := rfl
  rw [hcons, accepted, List.filterMap_cons]
  cases (step state item).1 <;> rfl

/-- When the state remembers every result, and lets none in that does not go with the remembered
ones, any two results accepted go together. -/
theorem Batch.pairwise_accepted {σ ι ε α : Type} {step : σ → ι → Except ε α × σ}
    {R : α → α → Prop} {S : σ → α → Prop}
    (adds : ∀ state item a, (step state item).1 = .ok a → S (step state item).2 a)
    (stays : ∀ state item a, S state a → S (step state item).2 a)
    (clear : ∀ state item a b, S state a → (step state item).1 = .ok b → R a b)
    (state : σ) (items : List ι) : (accepted (outcomes step state items)).Pairwise R := by
  induction items generalizing state with
  | nil => exact List.Pairwise.nil
  | cons item items ih =>
    have hrest := ih (step state item).2
    rw [accepted_outcomes_cons]
    cases hstep : (step state item).1 with
    | error e => exact hrest
    | ok a =>
      apply List.pairwise_cons.2 ⟨_, hrest⟩
      exact forall_accepted (I := fun state => S state a) (fun state item h => stays state item a h)
        (fun state item b h hb => clear state item a b h hb) (adds state item a hstep) items

section Insert
variable {s : Snapshot} {k : Kind}

theorem checkUnique_of_candidateRow {taken : KeyIndex} {candidate : Record} {row : Row k}
    (h : candidateRow s k taken candidate = .ok row) : taken.checkUnique k row = .ok () := by
  simp only [candidateRow, bind_eq_ok_iff, pure_eq_ok_iff] at h
  rcases h with ⟨_, _, _, _, _, _, _, hunique, rfl⟩
  exact hunique

theorem insertStep_eq_ok {taken : KeyIndex} {candidate : Record} {row : Row k}
    (h : (insertStep s k taken candidate).1 = .ok row) :
    taken.checkUnique k row = .ok () ∧
      (insertStep s k taken candidate).2 = taken.addRow k row := by
  unfold insertStep at *
  split at h
  next row' hrow =>
    obtain rfl := Except.ok.inj h
    exact ⟨checkUnique_of_candidateRow hrow, rfl⟩
  next => cases h

theorem holds_insertStep {taken : KeyIndex} {row : Row k} (h : taken.Holds k row)
    (candidate : Record) : (insertStep s k taken candidate).2.Holds k row := by
  unfold insertStep
  split
  next new _ => exact h.addRow new
  next => exact h

/-- Candidates that are accepted together share no key with one another or with a row of the
table. -/
theorem disjoint_of_checkInsert {candidates : List Record} {strict : Bool} {c : CheckResult k}
    (h : s.checkInsert k candidates strict = .ok c) :
    (c.accepted.Pairwise fun a b => List.Disjoint (Row.keys k a) (Row.keys k b)) ∧
      ∀ old ∈ s.rows k, ∀ row ∈ c.accepted,
        List.Disjoint (Row.keys k old) (Row.keys k row) := by
  unfold Snapshot.checkInsert at h
  split at h
  next =>
    rw [accepted_checkBatch h]
    constructor
    · apply Batch.pairwise_accepted (S := fun taken row => taken.Holds k row)
      · intro taken candidate row hrow
        rw [(insertStep_eq_ok hrow).2]
        exact taken.holds_addRow_self row
      · exact fun taken candidate row hrow => holds_insertStep hrow candidate
      · exact fun taken candidate a b ha hb => ha.disjoint (insertStep_eq_ok hb).1
    · intro old hold
      exact Batch.forall_accepted (I := fun taken => taken.Holds k old)
        (fun taken candidate htaken => holds_insertStep htaken candidate)
        (fun taken candidate row htaken hrow => htaken.disjoint (insertStep_eq_ok hrow).1)
        (KeyIndex.holds_ofTable hold) candidates
  next => cases h

end Insert

namespace Working
variable {s : Snapshot} {k : Kind} {w : Working k}

/-- The index gives every key to the row that has it, and to no other id. -/
def Exact (w : Working k) : Prop :=
  ∀ key i, w.taken.find? key = some i ↔ ∃ row, w.rows.find? i = some row ∧ key ∈ Row.keys k row

theorem Exact.keysDiffer (h : w.Exact) : Table.KeysDiffer w.rows := by
  intro a ha b hb key hkey hkey'
  rw [Ascending.mem_iff_find?] at ha hb
  have hid := (h key _).2 ⟨a, ha, hkey⟩
  rw [(h key _).2 ⟨b, hb, hkey'⟩, Option.some.injEq] at hid
  rw [hid, ha] at hb
  exact Option.some.inj hb

theorem exact_ofTable {t : Table k} (h : t.KeysDiffer) : (ofTable t).Exact := by
  intro key i
  rw [ofTable, KeyIndex.find?_ofTable, Option.map_eq_some_iff]
  constructor
  · rintro ⟨row, hrow, rfl⟩
    have hmem : row ∈ t.toList := List.mem_reverse.1 (List.mem_of_find?_eq_some hrow)
    exact ⟨row, Ascending.mem_iff_find?.1 hmem, by simpa using List.find?_some hrow⟩
  · rintro ⟨row, hrow, hkey⟩
    have hmem := Ascending.mem_of_find? hrow
    cases hfound : t.toList.reverse.find? fun row => key ∈ Row.keys k row with
    | none =>
      have hnot := List.find?_eq_none.1 hfound row (List.mem_reverse.2 hmem)
      simp [hkey] at hnot
    | some row' =>
      have hmem' : row' ∈ t.toList := List.mem_reverse.1 (List.mem_of_find?_eq_some hfound)
      have hkey' : key ∈ Row.keys k row' := by simpa using List.find?_some hfound
      refine ⟨row', rfl, ?_⟩
      rw [h row' hmem' row hmem key hkey' hkey]
      exact Ascending.key_of_find? hrow

theorem Exact.put (h : w.Exact) {row : Row k} (hnew : w.rows.find? (Row.id k row) = none)
    (hfree : ∀ key ∈ Row.keys k row, w.taken.find? key = none) : (w.put row).Exact := by
  intro key i
  rw [Working.put, KeyIndex.find?_addRow, Ascending.find?_insert]
  by_cases hi : Row.id k row = i
  · subst hi
    rw [if_pos rfl]
    by_cases hkey : key ∈ Row.keys k row
    · simp [hkey]
    · rw [if_neg hkey, h key, hnew]
      simp [hkey]
  · rw [if_neg hi, ← h key]
    by_cases hkey : key ∈ Row.keys k row
    · rw [if_pos hkey, hfree key hkey]
      simp [hi]
    · rw [if_neg hkey]

theorem Exact.remove (h : w.Exact) {row : Row k} (hrow : w.rows.find? (Row.id k row) = some row) :
    (w.remove row).Exact := by
  intro key i
  rw [Working.remove, KeyIndex.find?_removeRow, Ascending.find?_erase]
  by_cases hi : Row.id k row = i
  · subst hi
    rw [if_pos rfl]
    split
    next => simp
    next hkept =>
      constructor
      · intro hfound
        rcases (h key _).1 hfound with ⟨row', hrow', hkey⟩
        rw [hrow] at hrow'
        obtain rfl := Option.some.inj hrow'
        exact absurd ⟨hkey, hfound⟩ hkept
      · rintro ⟨_, hnone, _⟩
        cases hnone
  · rw [if_neg hi, ← h key]
    split
    next hgone =>
      rw [hgone.2, Option.some.injEq]
      simp [hi]
    next => exact Iff.rfl

theorem Exact.free_remove (h : w.Exact) {row : Row k}
    (hrow : w.rows.find? (Row.id k row) = some row) :
    (w.remove row).rows.find? (Row.id k row) = none ∧
      ∀ key ∈ Row.keys k row, (w.remove row).taken.find? key = none := by
  constructor
  · rw [Working.remove, Ascending.find?_erase, if_pos rfl]
  · intro key hkey
    have hfound := (h key _).2 ⟨row, hrow, hkey⟩
    rw [Working.remove, KeyIndex.find?_removeRow, if_pos ⟨hkey, hfound⟩]

theorem put_remove_rows {before row : Row k} (hid : Row.id k row = Row.id k before) :
    ((w.remove before).put row).rows = w.rows.insert row := by
  apply Ascending.ext_find?
  intro i
  rw [Working.put, Working.remove, Ascending.find?_insert, Ascending.find?_insert,
    Ascending.find?_erase, hid]
  split <;> rfl

theorem insert_self {t : Table k} {row : Row k} (h : t.find? (Row.id k row) = some row) :
    t.insert row = t := by
  apply Ascending.ext_find?
  intro i
  rw [Ascending.find?_insert]
  split
  next hi => rw [← hi, h]
  next => rfl

theorem checkUnique_of_revise {before row : Row k} {changes : Record}
    (h : w.revise s before changes = .ok row) : w.taken.checkUnique k row = .ok () := by
  simp only [revise, bind_eq_ok_iff, pure_eq_ok_iff] at h
  rcases h with ⟨_, _, _, _, _, _, _, _, _, hunique, rfl⟩
  exact hunique

theorem rows_updateStep (w : Working k) (changes : Record) :
    (updateStep s k w changes).2.rows =
      (updateStep s k w changes).1.toOption.toList.foldl Ascending.insert w.rows := by
  unfold updateStep
  split
  next => rfl
  next before htarget =>
    rcases find?_of_target htarget with ⟨i, hi⟩
    obtain rfl : Row.id k before = i := Ascending.key_of_find? hi
    dsimp only
    split
    next =>
      rw [put_remove_rows rfl]
      exact insert_self hi
    next row hrow => exact put_remove_rows (revises_of_revise hrow).id_eq

theorem Exact.step (h : w.Exact) (changes : Record) :
    (updateStep s k w changes).2.Exact ∧
      (updateStep s k w changes).2.rows =
        (updateStep s k w changes).1.toOption.toList.foldl Ascending.insert w.rows := by
  refine ⟨?_, rows_updateStep w changes⟩
  unfold updateStep
  split
  next => exact h
  next before htarget =>
    rcases find?_of_target htarget with ⟨i, hi⟩
    obtain rfl : Row.id k before = i := Ascending.key_of_find? hi
    rcases h.free_remove hi with ⟨hnone, hkeys⟩
    have hrest := h.remove hi
    dsimp only
    split
    next => exact hrest.put hnone hkeys
    next row hrow =>
      apply hrest.put
      · rw [(revises_of_revise hrow).id_eq]
        exact hnone
      · exact KeyIndex.find?_of_checkUnique (checkUnique_of_revise hrow)

/-- The rows that a batch of updates leaves are those of before with the accepted ones put in, and
the index is exact for them. -/
theorem Exact.exists_final (h : w.Exact) (items : List Record) :
    ∃ final : Working k, final.Exact ∧
      final.rows = (Batch.accepted (Batch.outcomes (updateStep s k) w items)).foldl
        Ascending.insert w.rows := by
  induction items generalizing w with
  | nil => exact ⟨w, h, rfl⟩
  | cons item items ih =>
    rcases h.step (s := s) item with ⟨hnext, hrows⟩
    rcases ih hnext with ⟨final, hfinal, hsame⟩
    refine ⟨final, hfinal, ?_⟩
    rw [hsame, hrows, Batch.accepted_outcomes_cons, List.foldl_append]

end Working

/-- Accepted updates, put over rows whose keys differ, leave rows whose keys differ. -/
theorem keysDiffer_of_checkUpdate {s : Snapshot} {k : Kind} (h : (s.table k).KeysDiffer)
    {changes : List Record} {strict : Bool} {c : CheckResult k}
    (check : s.checkUpdate k changes strict = .ok c) :
    Table.KeysDiffer (c.accepted.foldl Ascending.insert (s.table k)) := by
  unfold Snapshot.checkUpdate at check
  split at check
  next =>
    rcases (Working.exact_ofTable h).exists_final (s := s) changes with ⟨final, hfinal, hrows⟩
    have hdiffer := hfinal.keysDiffer
    rw [hrows] at hdiffer
    rw [accepted_checkBatch check]
    exact hdiffer
  next => cases check

end EntityStore
