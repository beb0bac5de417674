import EntityStore.Proofs.Store.Cursor
import EntityStore.Store.Writers
import Mathlib.Data.List.Basic
/-!
# Ids of different writers never meet

At most one writer is past its claim, its copy of the next ids is the one on record, and what it has
reserved begins where the kind's next id is or later (`Shared.Inv`). Every move keeps this, whoever
makes it, so the ranges that are committed rise while 64 bits hold the ids of the kind
(`Shared.HasRoom`). What the tables hold matters only when ids are reserved, which is above those
that were read. The last id of all is handed out again and again (`Shared.run_utmostMoves`).
-/
namespace EntityStore

/-- The range has ids, all of them above the rows that were seen. -/
structure Grant.Fresh (g : Grant) : Prop where
  count_pos : 0 < g.range.count
  above : ∀ i, g.seen.contains i = true → i < g.range.first

/-- The second range lies above the first one. -/
structure IdRange.Below (r r' : IdRange) : Prop where
  first_lt : r.first < r'.first
  stop_le : r.stop ≤ r'.first
  disjoint : r.toList.Disjoint r'.toList

/-- No sum that was taken for the range has left the 64 bits. -/
structure Grant.Fits (g : Grant) : Prop where
  floor : Id.Fits (RecordTables.maxId g.seen + 1)
  range : g.range.Fits

theorem Grant.Fits.first_lt_stop {g : Grant} (h : g.Fits) (hfresh : g.Fresh) :
    g.range.first < g.range.stop :=
  h.range.first_lt_stop hfresh.count_pos

theorem IdRange.below_of_stop_le {r r' : IdRange} (hr : r.first < r.stop) (hfits : r.Fits)
    (hfits' : r'.Fits) (h : r.stop ≤ r'.first) : r.Below r' where
  first_lt := Int.lt_of_lt_of_le hr h
  stop_le := h
  disjoint i hi hi' := by
    have hlt := Int.lt_of_lt_of_le (hfits.mem_toList.1 hi).2 h
    exact Int.not_le.2 hlt (hfits'.mem_toList.1 hi').1

/-- What a writer relies on at a stage. -/
def Stage.Holds (store : Store) : Stage → Prop
  | .idle => True
  | .claimed _ count cursor =>
    store.claimed = true ∧ cursor.nextIds = store.nextIds ∧ 0 < count
  | .reserved g cursor =>
    store.claimed = true ∧ cursor.nextIds = store.nextIds.set g.kind g.range.stop ∧
      (g.Fits → g.Fresh) ∧ ∀ n, store.nextIds.get? g.kind = some n → n ≤ g.range.first

theorem Stage.Holds.congr {stage : Stage} {store store' : Store} (h : stage.Holds store)
    (hnext : store'.nextIds = store.nextIds) (hclaimed : store'.claimed = store.claimed) :
    stage.Holds store' := by
  cases stage with
  | idle => trivial
  | claimed k count cursor => simpa only [Holds, hnext, hclaimed] using h
  | reserved g cursor => simpa only [Holds, hnext, hclaimed] using h

namespace Shared
variable {ω : Type}

/-- Whether a writer holds a claim. -/
def Live (s : Shared ω) (a : ω) : Prop := s.stage a ≠ .idle

/-- Whether 64 bits hold the ids of a kind that were handed out, and those after them. -/
def HasRoom (s : Shared ω) (k : Kind) : Prop := ∀ g ∈ s.granted, g.kind = k → g.Fits

structure Inv (s : Shared ω) : Prop where
  single : ∀ a b, s.Live a → s.Live b → a = b
  holds : ∀ a, (s.stage a).Holds s.store
  passed : ∀ g ∈ s.granted, s.HasRoom g.kind →
    ∃ n, s.store.nextIds.get? g.kind = some n ∧ g.range.stop ≤ n
  fresh : ∀ g ∈ s.granted, g.Fits → g.Fresh
  rising : s.granted.Pairwise fun g g' =>
    g.kind = g'.kind → s.HasRoom g.kind → g.range.Below g'.range

theorem inv_start (store : Store) : (start store : Shared ω).Inv := by
  constructor <;> simp [start, Live, Stage.Holds]

variable {s : Shared ω} {a : ω}

theorem Inv.claimed (h : s.Inv) (ha : s.Live a) : s.store.claimed = true := by
  have hstage := h.holds a
  unfold Live at ha
  cases hs : s.stage a with
  | idle => exact absurd hs ha
  | claimed k count cursor =>
    rw [hs] at hstage
    exact hstage.1
  | reserved g cursor =>
    rw [hs] at hstage
    exact hstage.1

theorem Inv.idle_of_free (h : s.Inv) (hfree : s.store.claimed = false) (b : ω) :
    s.stage b = .idle := by
  by_contra hb
  rw [h.claimed hb] at hfree
  cases hfree

theorem Inv.idle_of_ne (h : s.Inv) (ha : s.Live a) {b : ω} (hb : b ≠ a) : s.stage b = .idle := by
  by_contra hlive
  exact hb (h.single b a hlive ha)

theorem Inv.of_store (h : s.Inv) {store : Store} (hnext : store.nextIds = s.store.nextIds)
    (hclaimed : store.claimed = s.store.claimed) : { s with store }.Inv where
  single := h.single
  holds b := (h.holds b).congr hnext hclaimed
  passed g hg hroom := by
    simp only [hnext]
    exact h.passed g hg hroom
  fresh := h.fresh
  rising := h.rising

theorem HasRoom.of_concat {store : Store} {g : Grant} {k : Kind}
    (h : HasRoom { s with store, granted := s.granted ++ [g] } k) : s.HasRoom k :=
  fun g' hg' => h g' (List.mem_append_left [g] hg')

/-- A reserved range may be granted: nothing of its kind was granted from its first id on. -/
theorem Inv.grant (h : s.Inv) {g : Grant} {store : Store} (hidle : ∀ b, s.stage b = .idle)
    (hfresh : g.Fits → g.Fresh)
    (hahead : ∀ n, s.store.nextIds.get? g.kind = some n → n ≤ g.range.first)
    (hnext : store.nextIds = s.store.nextIds.set g.kind g.range.stop) :
    { s with store, granted := s.granted ++ [g] }.Inv := by
  have hpassed (g' : Grant) (hg' : g' ∈ s.granted) (hkind : g'.kind = g.kind)
      (hroom : s.HasRoom g'.kind) : g'.range.stop ≤ g.range.first := by
    obtain ⟨n, hn, hle⟩ := h.passed g' hg' hroom
    exact Int.le_trans hle (hahead n (hkind ▸ hn))
  have hnew : g ∈ s.granted ++ [g] := List.mem_concat_self
  constructor
  · exact h.single
  · intro b
    simp [hidle b, Stage.Holds]
  · intro g' hg' hroom
    simp only [hnext, SortedMap.get?_set]
    by_cases hkind : g.kind = g'.kind
    · have hfits : g.Fits := hroom g hnew hkind
      refine ⟨g.range.stop, if_pos hkind, ?_⟩
      obtain hold | hlast := List.mem_append.1 hg'
      · exact Int.le_trans (hpassed g' hold hkind.symm hroom.of_concat)
          (Int.le_of_lt (hfits.first_lt_stop (hfresh hfits)))
      · obtain rfl := List.mem_singleton.1 hlast
        exact Int.le_refl _
    · obtain hold | hlast := List.mem_append.1 hg'
      · simpa [hkind] using h.passed g' hold hroom.of_concat
      · exact absurd (congrArg Grant.kind (List.mem_singleton.1 hlast)).symm hkind
  · intro g' hg'
    obtain hold | hlast := List.mem_append.1 hg'
    · exact h.fresh g' hold
    · rw [List.mem_singleton.1 hlast]
      exact hfresh
  · apply List.pairwise_append.2
    refine ⟨h.rising.imp fun hbelow hkind hroom => hbelow hkind hroom.of_concat,
      List.pairwise_singleton _ g, ?_⟩
    intro g' hold g'' hlast hkind hroom
    obtain rfl := List.mem_singleton.1 hlast
    have hfits' : g'.Fits := hroom g' (List.mem_append_left _ hold) rfl
    exact IdRange.below_of_stop_le (hfits'.first_lt_stop (h.fresh g' hold hfits')) hfits'.range
      (hroom g'' hnew hkind.symm).range (hpassed g' hold hkind hroom.of_concat)

theorem Inv.commit_eq (h : s.Inv) {g : Grant} {cursor : Cursor}
    (ha : s.stage a = .reserved g cursor) :
    ∃ store, s.store.commit cursor = .ok store ∧
      store.nextIds = s.store.nextIds.set g.kind g.range.stop := by
  have hholds := h.holds a
  rw [ha] at hholds
  refine ⟨_, if_pos hholds.1, ?_⟩
  rw [Store.nextIds_abandon, ← hholds.2.1]
  rfl

variable [DecidableEq ω]

@[simp] theorem stage_setStage (s : Shared ω) (a : ω) (stage : Stage) (store : Store) (b : ω) :
    (s.setStage a stage store).stage b = if b = a then stage else s.stage b := rfl

@[simp] theorem store_setStage (s : Shared ω) (a : ω) (stage : Stage) (store : Store) :
    (s.setStage a stage store).store = store := rfl

theorem Inv.setStage (h : s.Inv) {stage : Stage} {store : Store}
    (hothers : ∀ b, b ≠ a → s.stage b = .idle) (hnext : store.nextIds = s.store.nextIds)
    (hstage : stage.Holds store) : (s.setStage a stage store).Inv := by
  have hlive (b : ω) (hb : (s.setStage a stage store).Live b) : b = a := by
    by_contra hne
    exact hb (by simp [hne, hothers b hne])
  constructor
  · intro b c hb hc
    rw [hlive b hb, hlive c hc]
  · intro b
    by_cases hb : b = a
    · simpa [hb] using hstage
    · simp [hb, hothers b hb, Stage.Holds]
  · intro g hg hroom
    rw [store_setStage, hnext]
    exact h.passed g hg hroom
  · exact h.fresh
  · exact h.rising

theorem Inv.abandon (h : s.Inv) (ha : s.Live a) : (s.setStage a .idle s.store.abandon).Inv :=
  h.setStage (fun _ => h.idle_of_ne ha) s.store.nextIds_abandon trivial

theorem Inv.claim (h : s.Inv) (a : ω) (owner : String) (k : Kind) (count : Nat) :
    (s.move (.claim a owner k count)).Inv := by
  simp only [move]
  split
  next hidle =>
    split
    · exact h
    next hcount =>
      obtain ⟨f, hf, hsame⟩ | ⟨hfree, hclaim⟩ := s.store.claim_cases owner
      · rcases hclaim : s.store.claim owner with ⟨answer, store⟩
        rw [hclaim] at hf hsame
        subst hf
        exact h.of_store hsame.nextIds hsame.claimed
      · rw [hclaim]
        exact h.setStage (fun b _ => h.idle_of_free hfree b) rfl
          ⟨rfl, rfl, Nat.pos_of_ne_zero hcount⟩
  · exact h

theorem Inv.reserve (h : s.Inv) (a : ω) : (s.move (.reserve a)).Inv := by
  simp only [move]
  split
  next k count cursor hclaimed =>
    have hlive : s.Live a := by simp [Live, hclaimed]
    have hholds := h.holds a
    rw [hclaimed] at hholds
    obtain ⟨hheld, hcopy, hcount⟩ := hholds
    have hfirst : cursor.nextId k (s.store.floorId k) = s.store.firstFree k := by
      rw [Cursor.nextId, hcopy]
      rfl
    apply h.setStage (fun b => h.idle_of_ne hlive) rfl
    simp only [Cursor.reserve, hfirst, hcopy]
    refine ⟨hheld, rfl, fun hfits => ⟨hcount, fun i hi => ?_⟩, fun n hn => Store.le_firstFree hn⟩
    have hroom : s.store.Room k count := fun _ => ⟨hfits.floor, hfits.range.last⟩
    exact hroom.lt_firstFree_of_contains (Nat.ne_of_gt hcount) hi
  · exact h

theorem Inv.commit (h : s.Inv) (a : ω) : (s.move (.commit a)).Inv := by
  simp only [move]
  split
  next g cursor hreserved =>
    have hlive : s.Live a := by simp [Live, hreserved]
    obtain ⟨store, hcommit, hnext⟩ := h.commit_eq hreserved
    have hholds := h.holds a
    rw [hreserved] at hholds
    obtain ⟨_, _, hfresh, hahead⟩ := hholds
    have hsettled := h.abandon hlive
    rw [hcommit]
    rw [← s.store.nextIds_abandon] at hnext hahead
    refine hsettled.grant (fun b => ?_) hfresh hahead hnext
    by_cases hb : b = a
    · simp [hb]
    · simp [hb, h.idle_of_ne hlive hb]
  next => exact h

theorem Inv.move (h : s.Inv) (m : Move ω) : (s.move m).Inv := by
  cases m with
  | claim a owner k count => exact h.claim a owner k count
  | reserve a => exact h.reserve a
  | commit a => exact h.commit a
  | giveUp a =>
    simp only [Shared.move]
    split
    next => exact h
    next hlive => exact h.abandon hlive
  | apply c =>
    apply h.of_store
    · exact s.store.nextIds_apply c
    · exact s.store.claimed_apply c
  | putRaw k r => exact h.of_store (s.store.putRaw_leaves k r).1 (s.store.putRaw_leaves k r).2
  | setUp applyFails claimFails => exact h.of_store rfl rfl

theorem Inv.run (h : s.Inv) (moves : List (Move ω)) : (s.run moves).Inv := by
  induction moves generalizing s with
  | nil => exact h
  | cons m moves ih => exact ih (h.move m)

/-- However the moves of the writers and of others are mixed: while there is room for the ids of a
kind, its ranges are granted in rising order and have no id in common, and each lies above the rows
that were seen for it. In any case one writer at most holds a claim and may commit what it has
reserved, and a claim that is refused changes neither the claim that is held nor the cursor. -/
theorem run_ranges (store : Store) (moves : List (Move ω)) :
    let s := (start store).run moves
    (∀ k, s.HasRoom k →
        (s.granted.Pairwise fun g g' => g.kind = k → g'.kind = k → g.range.Below g'.range) ∧
          ∀ g ∈ s.granted, g.kind = k → g.Fresh) ∧
      (∀ a b, s.Live a → s.Live b → a = b) ∧
      (∀ a g cursor, s.stage a = .reserved g cursor → ∃ next, s.store.commit cursor = .ok next) ∧
      ∀ a owner k count f, (s.store.claim owner).1 = .error f →
        let refused := s.move (.claim a owner k count)
        refused.stage = s.stage ∧ refused.granted = s.granted ∧
          s.store.Untouched refused.store := by
  intro s
  have hinv : s.Inv := (inv_start store).run moves
  refine ⟨fun k hroom => ⟨?_, ?_⟩, hinv.single, fun a g cursor ha => ?_, ?_⟩
  · refine hinv.rising.imp fun hbelow hk hk' => ?_
    exact hbelow (hk.trans hk'.symm) (by rwa [hk])
  · exact fun g hg hk => hinv.fresh g hg (hroom g hg hk)
  · obtain ⟨next, hnext, _⟩ := hinv.commit_eq ha
    exact ⟨next, hnext⟩
  · intro a owner k count f hf
    simp only [move]
    split
    next =>
      split
      · exact ⟨rfl, rfl, .refl s.store⟩
      · obtain ⟨g, _, hsame⟩ | ⟨_, hclaim⟩ := s.store.claim_cases owner
        · rcases hclaim : s.store.claim owner with ⟨answer, next⟩
          rw [hclaim] at hf hsame
          subst hf
          exact ⟨rfl, rfl, hsame⟩
        · rw [hclaim] at hf
          cases hf
    next => exact ⟨rfl, rfl, .refl s.store⟩

/-- Two writers of which the second is refused while the first holds the claim, and again when a
claim is set up to fail; rows are written before and after the largest id is read. -/
def pairMoves : List (Move Bool) :=
  [.claim true "left" .entity 2, .claim false "right" .entity 1,
    .putRaw .entity (.ofFields [("id", some (.int 5))]), .reserve true,
    .putRaw .entity (.ofFields [("id", some (.int 9))]), .commit true, .setUp false true,
    .claim false "right" .entity 1, .claim false "right" .entity 1, .reserve false, .commit false,
    .claim true "left" .entity 3, .reserve true, .giveUp true]

theorem run_pairMoves_ranges :
    let s := (start .empty).run pairMoves
    let held := (start .empty).run (pairMoves.take 1)
    s.granted.map Grant.range = [⟨6, 2⟩, ⟨10, 1⟩] ∧ s.HasRoom .entity ∧
      (s.granted.Pairwise fun g g' =>
        g.kind = .entity → g'.kind = .entity → g.range.Below g'.range) ∧
      (∀ g ∈ s.granted, g.kind = .entity → g.Fresh) ∧
      (held.move (.claim false "right" .entity 1)).stage = held.stage := by
  intro s held
  have hroom : s.HasRoom .entity := by
    have hfits : ∀ g ∈ s.granted, Id.Fits (RecordTables.maxId g.seen + 1) ∧
        Id.Fits g.range.first ∧ Id.Fits (g.range.first + g.range.count) := by
      decide
    intro g hg _
    obtain ⟨hfloor, hfirst, hlast⟩ := hfits g hg
    exact ⟨hfloor, hfirst, hlast⟩
  have hrun := run_ranges .empty pairMoves
  have hheld := run_ranges .empty (pairMoves.take 1)
  obtain ⟨hrising, hfresh⟩ := hrun.1 .entity hroom
  exact ⟨rfl, hroom, hrising, hfresh,
    (hheld.2.2.2 false "right" .entity 1 (.alreadyClaimed "left") rfl).1⟩

/-- A row is written under an id, and then a writer is handed out one id twice. -/
def utmostMoves (i : Id) : List (Move Unit) :=
  let allocation := [.claim () "left" .entity 1, .reserve (), .commit ()]
  .putRaw .entity (.ofFields [("id", some (.int i))]) :: (allocation ++ allocation)

/-- Behind the last id but one the last id is handed out twice, and behind the last one ids are
handed out from the least one on. -/
theorem run_utmostMoves :
    let s := (start .empty).run (utmostMoves (Int64.maxValue.toInt - 1))
    let past := (start .empty).run (utmostMoves Int64.maxValue.toInt)
    s.granted.map Grant.range = [⟨Int64.maxValue.toInt, 1⟩, ⟨Int64.maxValue.toInt, 1⟩] ∧
      (¬ s.granted.Pairwise fun g g' => g.kind = g'.kind → g.range.Below g'.range) ∧
      past.granted.map Grant.range = [⟨Int64.minValue.toInt, 1⟩, ⟨Int64.minValue.toInt + 1, 1⟩] ∧
      ¬ ∀ g ∈ past.granted, g.Fresh := by
  intro s past
  let seen (i : Id) : RecordTable := .ofList [.ofFields [("id", some (.int i))]]
  let last : Grant := ⟨.entity, ⟨Int64.maxValue.toInt, 1⟩, seen (Int64.maxValue.toInt - 1)⟩
  let least : Grant := ⟨.entity, ⟨Int64.minValue.toInt, 1⟩, seen Int64.maxValue.toInt⟩
  have hgranted : s.granted = [last, last] := rfl
  have hleast : least ∈ past.granted := List.mem_cons_self
  refine ⟨rfl, fun hrising => ?_, rfl, fun hfresh => ?_⟩
  · rw [hgranted] at hrising
    have hbelow := (List.pairwise_cons.1 hrising).1 last List.mem_cons_self rfl
    exact Int.lt_irrefl _ hbelow.first_lt
  · exact absurd ((hfresh least hleast).above Int64.maxValue.toInt rfl) (by decide)

/-- A writer that makes its three moves without a break hands out ids as the store does. -/
theorem run_uninterrupted (s : Shared ω) {a : ω} (ha : s.stage a = .idle) (owner : String)
    (k : Kind) {count : Nat} (hcount : count ≠ 0) :
    let allocated := s.store.allocate k count owner
    let final := s.run [.claim a owner k count, .reserve a, .commit a]
    final.store = allocated.state ∧ final.stage = s.stage ∧
      final.granted = s.granted ++
        allocated.outcome.toOption.toList.map fun range => ⟨k, range, s.store.table k⟩ := by
  obtain ⟨f, hf, _⟩ | ⟨_, hclaim⟩ := s.store.claim_cases owner
  · rcases hclaim : s.store.claim owner with ⟨answer, next⟩
    rw [hclaim] at hf
    subst hf
    simp [run, move, ha, hcount, hclaim, Store.allocate, Run.failed, Except.toOption]
  · simp +contextual [run, move, ha, hcount, hclaim, Store.allocate, Store.settleClaim,
      Store.commit, Run.done, Run.after, Except.toOption, Cursor.reserve, setStage, funext_iff]
    rfl

end Shared

end EntityStore
