import EntityStore.Proofs.Store.Cursor
import EntityStore.Store.Requests
/-!
# Who has the cursor

A cursor that is claimed names the last claimant as its owner, and one that is free names nobody
(`Custody.Kept`). Every request keeps this, granted or refused. Beside a drop, only a commit that is
granted moves the next ids, whether it is asked for by itself or ends the handing out of ids
(`Store.nextIds_serve`).
-/
namespace EntityStore

namespace Store

theorem cursor_apply (s : Store) (c : ChangeSet) : (s.apply c).2.cursor = s.cursor := by
  unfold apply
  split
  · rfl
  · split <;> rfl

theorem cursor_of_putRaw {s next : Store} {k : Kind} {r : Record} (h : s.putRaw k r = .ok next) :
    next.cursor = s.cursor ∧ next.claimed = s.claimed := by
  simp only [putRaw, bind_eq_ok_iff, pure_eq_ok_iff] at h
  obtain ⟨_, _, rfl⟩ := h
  exact ⟨rfl, rfl⟩

theorem isOk_claim_iff (s : Store) (owner : String) :
    (s.claim owner).1.isOk = true ↔ s.claimed = false ∧ s.claimFails = false := by
  unfold claim
  cases s.claimFails <;> cases s.claimed <;> simp [Except.isOk, Except.toBool]

theorem claimed_of_claim {s : Store} {owner : String} (h : (s.claim owner).1.isOk = true) :
    (s.claim owner).2.claimed = true ∧
      (s.claim owner).2.cursor = some ⟨owner, s.nextIds⟩ := by
  obtain ⟨f, hf, _⟩ | ⟨_, hclaim⟩ := s.claim_cases owner
  · rw [hf] at h
    cases h
  · rw [hclaim]
    exact ⟨rfl, rfl⟩

theorem serve_commit_iff (s : Store) (cursor : Cursor) :
    (s.serve (.commit cursor)).1 = true ↔ s.claimed = true := by
  cases hclaimed : s.claimed <;> simp [serve, commit, hclaimed]

theorem claimed_allocate (s : Store) (k : Kind) (count : Nat) (owner : String) :
    (s.allocate k count owner).state.claimed = s.claimed := by
  by_cases hcount : count = 0
  · simp [allocate, hcount, Run.done]
  · obtain ⟨_, _, hsame⟩ | ⟨hfree, _, hstate⟩ := s.allocate_cases k owner hcount
    · exact hsame.claimed
    · rw [hstate, hfree]
      rfl

/-- The next ids that a request commits if it is granted. -/
def committed? (s : Store) : Request → Option (SortedMap Kind Id)
  | .commit cursor => some cursor.nextIds
  | .allocate k count _ =>
    if count = 0 then none else some (s.nextIds.set k (IdRange.stop ⟨s.firstFree k, count⟩))
  | _ => none

/-- The next ids move with a commit that is granted, to those that are committed, and are forgotten
with the cursor. -/
theorem nextIds_serve (s : Store) (r : Request) :
    (s.serve r).2.nextIds =
      if r = .dropCursor then ∅
      else if (s.serve r).1 then (s.committed? r).getD s.nextIds else s.nextIds := by
  cases r with
  | claim owner =>
    simp only [committed?, Option.getD_none, ite_self]
    obtain ⟨_, _, hsame⟩ | ⟨_, hclaim⟩ := s.claim_cases owner
    · simp [serve, hsame.nextIds]
    · simp [serve, hclaim, nextIds]
  | commit cursor =>
    cases hclaimed : s.claimed <;> simp [serve, commit, hclaimed, committed?, nextIds_abandon]
    rfl
  | abandon => simp [serve, committed?, nextIds_abandon]
  | dropCursor => simp [serve, dropCursor, nextIds]
  | allocate k count owner =>
    by_cases hcount : count = 0
    · simp [serve, allocate, committed?, hcount, Run.done]
    · obtain ⟨_, houtcome, hsame⟩ | ⟨_, houtcome, hstate⟩ := s.allocate_cases k owner hcount
      · simp [serve, houtcome, hsame.nextIds, Except.isOk, Except.toBool]
      · simp [serve, houtcome, hstate, committed?, hcount, Except.isOk, Except.toBool]
        rfl
  | apply c =>
    simp only [committed?, Option.getD_none, ite_self]
    simp [serve, nextIds_apply]
  | putRaw k r =>
    cases hput : s.putRaw k r with
    | error f => simp [serve, hput]
    | ok next => simp [serve, hput, committed?, nextIds, (cursor_of_putRaw hput).1]
  | failClaim => rfl
  | failApply => rfl

theorem keyed_serve {s : Store} (h : s.Keyed) (r : Request) : (s.serve r).2.Keyed := by
  have hsame {next : Store} (htables : next.tables = s.tables) : next.Keyed := by
    intro k
    rw [table, htables]
    exact h k
  cases r with
  | claim owner =>
    obtain ⟨_, _, huntouched⟩ | ⟨_, hclaim⟩ := s.claim_cases owner
    · exact hsame huntouched.tables
    · exact hsame (by rw [serve, hclaim])
  | commit cursor =>
    cases hclaimed : s.claimed with
    | false => exact hsame (by simp [serve, commit, hclaimed])
    | true => exact hsame (by simp [serve, commit, hclaimed, abandon])
  | abandon => exact hsame rfl
  | dropCursor => exact hsame rfl
  | allocate k count owner =>
    by_cases hcount : count = 0
    · exact hsame (by simp [serve, allocate, hcount, Run.done])
    · obtain ⟨_, _, huntouched⟩ | ⟨_, _, hstate⟩ := s.allocate_cases k owner hcount
      · exact hsame huntouched.tables
      · exact hsame (by rw [serve, hstate]; rfl)
  | apply c => exact h.apply c
  | putRaw k r =>
    cases hput : s.putRaw k r with
    | error f => exact hsame (by simp [serve, hput])
    | ok next =>
      rw [serve, hput]
      exact h.putRaw hput
  | failClaim => exact hsame rfl
  | failApply => exact hsame rfl

end Store

namespace Custody

/-- No request stores a record without an id. -/
theorem keyed_run (requests : List Request) : (start.run requests).store.Keyed := by
  have hrun (c : Custody) (h : c.store.Keyed) : (c.run requests).store.Keyed := by
    induction requests generalizing c with
    | nil => exact h
    | cons r requests ih => exact ih (c.serve r) (Store.keyed_serve h r)
  exact hrun start Store.keyed_empty

/-- The cursor names who has it. -/
structure Kept (c : Custody) : Prop where
  claimed : c.store.claimed = true →
    ∃ cursor, c.store.cursor = some cursor ∧ c.claimant = some cursor.owner
  free : c.store.claimed = false → ∀ cursor, c.store.cursor = some cursor → cursor.owner = ""

theorem kept_start : start.Kept := by
  constructor <;> simp [start, Store.empty]

variable {c : Custody}

theorem Kept.of_same (h : c.Kept) {store : Store} (hcursor : store.cursor = c.store.cursor)
    (hclaimed : store.claimed = c.store.claimed) : Kept ⟨store, c.claimant⟩ := by
  constructor
  · simpa [hcursor, hclaimed] using h.claimed
  · simpa [hcursor, hclaimed] using h.free

theorem kept_of_free {store : Store} (hfree : store.claimed = false)
    (howner : ∀ cursor, store.cursor = some cursor → cursor.owner = "") (claimant : Option String) :
    Kept ⟨store, claimant⟩ := by
  constructor
  · simp [hfree]
  · exact fun _ => howner

theorem kept_abandon (s : Store) (claimant : Option String) : Kept ⟨s.abandon, claimant⟩ := by
  apply kept_of_free rfl
  intro cursor hcursor
  obtain ⟨_, _, rfl⟩ := Option.map_eq_some_iff.1 hcursor
  rfl

theorem Kept.serve (h : c.Kept) (r : Request) : (c.serve r).Kept := by
  cases r with
  | claim owner =>
    obtain ⟨f, hf, hsame⟩ | ⟨_, hclaim⟩ := c.store.claim_cases owner
    · simpa [Custody.serve, Store.serve, hf, Except.isOk, Except.toBool] using
        h.of_same hsame.cursor hsame.claimed
    · constructor <;>
        simp [Custody.serve, Store.serve, hclaim, Request.claimant?, Except.isOk, Except.toBool]
  | commit cursor =>
    cases hclaimed : c.store.claimed with
    | false => simpa [Custody.serve, Store.serve, Store.commit, hclaimed] using h
    | true =>
      simpa [Custody.serve, Store.serve, Store.commit, hclaimed] using kept_abandon _ _
  | abandon => exact kept_abandon c.store _
  | dropCursor => exact kept_of_free rfl (by simp [Store.dropCursor]) _
  | allocate k count owner =>
    by_cases hcount : count = 0
    · simpa [Custody.serve, Store.serve, Store.allocate, Request.claimant?, hcount, Run.done]
        using h
    · obtain ⟨f, houtcome, hsame⟩ | ⟨_, houtcome, hstate⟩ :=
        c.store.allocate_cases k owner hcount
      · simpa [Custody.serve, Store.serve, houtcome, Except.isOk, Except.toBool] using
          h.of_same hsame.cursor hsame.claimed
      · simp only [Custody.serve, Store.serve, hstate]
        exact kept_of_free rfl (by simp [Store.advanced]) _
  | apply changes =>
    simp only [Custody.serve, Request.claimant?, Option.none_or, ite_self]
    exact h.of_same (c.store.cursor_apply changes) (c.store.claimed_apply changes)
  | putRaw k r =>
    cases hput : c.store.putRaw k r with
    | error f => simpa [Custody.serve, Store.serve, hput] using h
    | ok next =>
      obtain ⟨hcursor, hclaimed⟩ := Store.cursor_of_putRaw hput
      simpa [Custody.serve, Store.serve, hput, Request.claimant?] using h.of_same hcursor hclaimed
  | failClaim => exact h.of_same rfl rfl
  | failApply => exact h.of_same rfl rfl

theorem Kept.run (h : c.Kept) (requests : List Request) : (c.run requests).Kept := by
  induction requests generalizing c with
  | nil => exact h
  | cons r requests ih => exact ih (h.serve r)

/-- Whatever a store was asked for since it was empty, granted or refused: its cursor names the last
claimant while it is claimed and nobody while it is free. A claim is granted exactly if the cursor
is free and no failure is set up, and then the cursor is the claimant's. A commit is granted exactly
if the cursor is claimed; handing out ids leaves the claim as it was. The next ids are moved by
commits that are granted, and forgotten with the cursor. -/
theorem run_kept (requests : List Request) :
    let c := start.run requests
    (c.store.claimed = true →
        ∃ cursor, c.store.cursor = some cursor ∧ c.claimant = some cursor.owner) ∧
      (c.store.claimed = false → ∀ cursor, c.store.cursor = some cursor → cursor.owner = "") ∧
      (∀ owner, (c.store.serve (.claim owner)).1 = true ↔
        c.store.claimed = false ∧ c.store.claimFails = false) ∧
      (∀ owner, (c.store.serve (.claim owner)).1 = true →
        (c.store.serve (.claim owner)).2.claimed = true ∧
          (c.store.serve (.claim owner)).2.cursor = some ⟨owner, c.store.nextIds⟩) ∧
      (∀ cursor, (c.store.serve (.commit cursor)).1 = true ↔ c.store.claimed = true) ∧
      (∀ k count owner,
        (c.store.serve (.allocate k count owner)).2.claimed = c.store.claimed) ∧
      ∀ request, (c.store.serve request).2.nextIds =
        if request = .dropCursor then ∅
        else if (c.store.serve request).1 then (c.store.committed? request).getD c.store.nextIds
        else c.store.nextIds := by
  intro c
  have hkept : c.Kept := kept_start.run requests
  exact ⟨hkept.claimed, hkept.free, c.store.isOk_claim_iff,
    fun _ => Store.claimed_of_claim, c.store.serve_commit_iff, c.store.claimed_allocate,
    c.store.nextIds_serve⟩

end Custody

end EntityStore
