import EntityStore.Proofs.Store.Apply
/-!
# What claims and reservations do to the cursor

A claim that is refused leaves the store as it was, but for a failure that was set up. Ids are
reserved from the first one that neither the cursor nor the table of the kind has reached
(`Store.firstFree`); when they are handed out the kind's next id moves past them and those of the
other kinds stay (`Store.allocate_cases`).
-/
namespace EntityStore

namespace IdRange
variable {r : IdRange} {i : Id}

/-- Neither the ids of a range nor the id after them leave the 64 bits. -/
structure Fits (r : IdRange) : Prop where
  first : Id.Fits r.first
  last : Id.Fits (r.first + r.count)

theorem Fits.wrap_add (h : r.Fits) {n : Nat} (hn : n ≤ r.count) :
    Id.wrap (r.first + n) = r.first + n := by
  refine (h.first.of_le h.last ?_ ?_).wrap_eq
  · exact Int.le_add_of_nonneg_right (Int.natCast_nonneg n)
  · exact Int.add_le_add_left (Int.ofNat_le.2 hn) _

theorem Fits.stop_eq (h : r.Fits) : r.stop = r.first + r.count := h.last.wrap_eq

theorem Fits.first_lt_stop (h : r.Fits) (hcount : 0 < r.count) : r.first < r.stop := by
  rw [h.stop_eq]
  exact Int.lt_add_of_pos_right _ (Int.natCast_pos.2 hcount)

theorem Fits.toList_eq (h : r.Fits) :
    r.toList = (List.range r.count).map fun n : Nat => r.first + (n : Int) :=
  List.map_congr_left fun _ hn => h.wrap_add (Nat.le_of_lt (List.mem_range.1 hn))

theorem Fits.mem_toList (h : r.Fits) : i ∈ r.toList ↔ r.first ≤ i ∧ i < r.stop := by
  simp only [h.toList_eq, h.stop_eq, List.mem_map, List.mem_range]
  constructor
  · rintro ⟨n, hn, rfl⟩
    exact ⟨Int.le_add_of_nonneg_right (Int.natCast_nonneg n), Int.add_lt_add_left (by omega) _⟩
  · rintro ⟨hfirst, hstop⟩
    obtain ⟨n, hn⟩ := Int.le.dest hfirst
    exact ⟨n, by rw [← hn] at hstop; exact Int.ofNat_lt.1 (Int.lt_of_add_lt_add_left hstop), hn⟩

theorem Fits.pairwise_toList (h : r.Fits) : r.toList.Pairwise (· < ·) := by
  rw [h.toList_eq]
  refine List.pairwise_map.2 (List.pairwise_lt_range.imp fun hlt => ?_)
  exact Int.add_lt_add_left (Int.ofNat_lt.2 hlt) _

theorem stop_add (first : Id) (n m : Nat) :
    stop ⟨stop ⟨first, n⟩, m⟩ = stop ⟨first, n + m⟩ := by
  simp only [stop, Id.wrap_wrap_add, Int.natCast_add, Int.add_assoc]

theorem toList_add (first : Id) (n m : Nat) :
    (⟨first, n + m⟩ : IdRange).toList =
      (⟨first, n⟩ : IdRange).toList ++ (⟨stop ⟨first, n⟩, m⟩ : IdRange).toList := by
  simp only [toList, List.range_add, List.map_append, List.map_map]
  congr 2
  funext i
  rw [Function.comp_apply, stop, Id.wrap_wrap_add, Int.natCast_add, Int.add_assoc]

theorem length_toList (r : IdRange) : r.toList.length = r.count := by
  simp [toList]

end IdRange

namespace Store

/-- The next ids on record, of which there are none without a cursor. -/
def nextIds (s : Store) : SortedMap Kind Id := s.cursor.elim ∅ Cursor.nextIds

/-- The first id of a kind that neither the cursor nor the table has reached. -/
def firstFree (s : Store) (k : Kind) : Id :=
  (s.nextIds.get? k).elim (s.floorId k) (max (s.floorId k))

/-- Handing out so many ids of a kind takes no sum that 64 bits do not hold. -/
def Room (s : Store) (k : Kind) (count : Nat) : Prop :=
  count ≠ 0 → Id.Fits (s.maxId k + 1) ∧ Id.Fits (s.firstFree k + count)

theorem le_maxId {s : Store} {k : Kind} {i : Id} (h : (s.table k).contains i = true) :
    i ≤ s.maxId k := by
  obtain ⟨r, hr, rfl⟩ := Ascending.contains_iff.1 h
  have hsorted := (s.table k).ascending
  obtain ⟨rest, last, hrest⟩ : ∃ rest last, (s.table k).toList = rest ++ [last] :=
    ⟨_, _, (List.dropLast_concat_getLast (List.ne_nil_of_mem hr)).symm⟩
  have hmax : s.maxId k = last.id := by
    rw [maxId, RecordTables.maxId, Ascending.last?, hrest, List.getLast?_concat]
    rfl
  rw [hrest] at hr hsorted
  rw [hmax]
  cases List.mem_append.1 hr with
  | inl hr =>
    have hlt := (List.pairwise_append.1 hsorted).2.2 r hr last List.mem_cons_self
    exact Int.le_of_lt (Int.compare_eq_lt.1 hlt)
  | inr hr => exact Int.le_of_eq (congrArg Record.id (List.mem_singleton.1 hr))

theorem maxId_lt {s : Store} {k : Kind} {b : Id} (hb : pendingId < b)
    (h : ∀ i, (s.table k).contains i = true → i < b) : s.maxId k < b := by
  unfold maxId RecordTables.maxId Ascending.last?
  cases hlast : (s.table k).toList.getLast? with
  | none => exact hb
  | some r => exact h r.id (Ascending.contains_iff.2 ⟨r, List.mem_of_getLast? hlast, rfl⟩)

theorem pendingId_le_maxId {s : Store} {k : Kind}
    (h : ∀ i, (s.table k).contains i = true → pendingId < i) : pendingId ≤ s.maxId k := by
  unfold maxId RecordTables.maxId Ascending.last?
  cases hlast : (s.table k).toList.getLast? with
  | none => exact Int.le_refl _
  | some r =>
    exact Int.le_of_lt (h r.id (Ascending.contains_iff.2 ⟨r, List.mem_of_getLast? hlast, rfl⟩))

theorem floorId_le_firstFree (s : Store) (k : Kind) : s.floorId k ≤ s.firstFree k := by
  unfold firstFree
  cases s.nextIds.get? k with
  | none => exact Int.le_refl _
  | some n => exact Int.le_max_left _ _

theorem le_firstFree {s : Store} {k : Kind} {n : Id} (h : s.nextIds.get? k = some n) :
    n ≤ s.firstFree k := by
  rw [firstFree, h]
  exact Int.le_max_right _ _

namespace Room
variable {s : Store} {k : Kind} {count : Nat} (h : s.Room k count) (hcount : count ≠ 0)
include h hcount

theorem maxId_lt_firstFree : s.maxId k < s.firstFree k := by
  have hfloor : s.floorId k = s.maxId k + 1 := (h hcount).1.wrap_eq
  exact Int.lt_of_lt_of_le (hfloor ▸ Int.lt_succ _) (s.floorId_le_firstFree k)

theorem lt_firstFree_of_contains {i : Id} (hi : (s.table k).contains i = true) :
    i < s.firstFree k :=
  Int.lt_of_le_of_lt (le_maxId hi) (h.maxId_lt_firstFree hcount)

theorem fits : IdRange.Fits ⟨s.firstFree k, count⟩ where
  first := by
    refine (Id.fits_wrap _).of_le (h hcount).2 (s.floorId_le_firstFree k) ?_
    exact Int.le_add_of_nonneg_right (Int.natCast_nonneg _)
  last := (h hcount).2

omit hcount in
theorem mono {n : Nat} (hle : n ≤ count) : s.Room k n := by
  intro hn
  have hcount : count ≠ 0 := by omega
  refine ⟨(h hcount).1, (h.fits hcount).first.of_le (h hcount).2 ?_ ?_⟩
  · exact Int.le_add_of_nonneg_right (Int.natCast_nonneg n)
  · exact Int.add_le_add_left (Int.ofNat_le.2 hle) _

omit hcount in
theorem mem_toList {i : Id} :
    i ∈ (⟨s.firstFree k, count⟩ : IdRange).toList ↔
      s.firstFree k ≤ i ∧ i < s.firstFree k + count := by
  by_cases hcount : count = 0
  · subst hcount
    simp [IdRange.toList]
  · rw [(h.fits hcount).mem_toList, (h.fits hcount).stop_eq]

omit hcount in
theorem pairwise_toList : (⟨s.firstFree k, count⟩ : IdRange).toList.Pairwise (· < ·) := by
  by_cases hcount : count = 0
  · subst hcount
    exact List.Pairwise.nil
  · exact (h.fits hcount).pairwise_toList

end Room

theorem Untouched.nextIds {s s' : Store} (h : s.Untouched s') : s'.nextIds = s.nextIds := by
  rw [Store.nextIds, Store.nextIds, h.cursor]

theorem nextIds_apply (s : Store) (c : ChangeSet) : (s.apply c).2.nextIds = s.nextIds := by
  unfold apply
  split
  · rfl
  · split <;> rfl

theorem claimed_apply (s : Store) (c : ChangeSet) : (s.apply c).2.claimed = s.claimed := by
  unfold apply
  split
  · rfl
  · split <;> rfl

theorem nextIds_abandon (s : Store) : s.abandon.nextIds = s.nextIds := by
  cases hcursor : s.cursor <;> simp [abandon, nextIds, hcursor]

theorem putRaw_leaves (s : Store) (k : Kind) (r : Record) :
    ((s.putRaw k r).toOption.getD s).nextIds = s.nextIds ∧
      ((s.putRaw k r).toOption.getD s).claimed = s.claimed := by
  cases hput : s.putRaw k r with
  | error f => exact ⟨rfl, rfl⟩
  | ok next =>
    simp only [putRaw, bind_eq_ok_iff, pure_eq_ok_iff] at hput
    obtain ⟨i, _, rfl⟩ := hput
    exact ⟨rfl, rfl⟩

/-- A claim is refused and changes nothing, or it is the only one and starts from the next ids on
record. -/
theorem claim_cases (s : Store) (owner : String) :
    (∃ f, (s.claim owner).1 = .error f ∧ s.Untouched (s.claim owner).2) ∨
      s.claimed = false ∧ s.claim owner = (.ok ⟨owner, s.nextIds⟩,
        { s with cursor := some ⟨owner, s.nextIds⟩, claimed := true }) := by
  unfold claim
  split
  · exact Or.inl ⟨_, rfl, rfl, rfl, rfl, rfl⟩
  · split
    next => exact Or.inl ⟨_, rfl, .refl s⟩
    next hfree => exact Or.inr ⟨Bool.not_eq_true _ ▸ hfree, rfl⟩

/-- The store after ids of a kind up to `stop` were handed out. -/
def advanced (s : Store) (k : Kind) (stop : Id) : Store :=
  { s with cursor := some ⟨"", s.nextIds.set k stop⟩, claimed := false }

theorem claim_of_free {s : Store} (hfree : s.claimed = false) (hclaims : s.claimFails = false)
    (owner : String) :
    s.claim owner = (.ok ⟨owner, s.nextIds⟩,
      { s with cursor := some ⟨owner, s.nextIds⟩, claimed := true }) := by
  rw [claim, hclaims, hfree]
  rfl

theorem allocate_of_claim {s : Store} {count : Nat} {owner : String} (k : Kind) (hcount : count ≠ 0)
    (hclaim : s.claim owner = (.ok ⟨owner, s.nextIds⟩,
      { s with cursor := some ⟨owner, s.nextIds⟩, claimed := true })) :
    (s.allocate k count owner).outcome = .ok ⟨s.firstFree k, count⟩ ∧
      (s.allocate k count owner).state =
        s.advanced k (IdRange.stop ⟨s.firstFree k, count⟩) := by
  rw [allocate, if_neg hcount, hclaim]
  exact ⟨rfl, rfl⟩

/-- Handing out ids is refused and changes nothing, or it gives the first free ones and moves the
kind's next id past them. -/
theorem allocate_cases (s : Store) (k : Kind) {count : Nat} (owner : String) (hcount : count ≠ 0) :
    (∃ f, (s.allocate k count owner).outcome = .error (.contention f) ∧
        s.Untouched (s.allocate k count owner).state) ∨
      s.claimed = false ∧ (s.allocate k count owner).outcome = .ok ⟨s.firstFree k, count⟩ ∧
        (s.allocate k count owner).state =
          s.advanced k (IdRange.stop ⟨s.firstFree k, count⟩) := by
  rcases s.claim_cases owner with ⟨f, hf, huntouched⟩ | ⟨hfree, hclaim⟩
  · left
    rw [allocate, if_neg hcount]
    rcases hclaim : s.claim owner with ⟨answer, next⟩
    rw [hclaim] at hf huntouched
    subst hf
    exact ⟨f, rfl, huntouched⟩
  · exact Or.inr ⟨hfree, allocate_of_claim k hcount hclaim⟩

end Store

end EntityStore
