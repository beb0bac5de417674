import EntityStore.Proofs.Engine.Removal
import EntityStore.Proofs.Rules.ListUse
/-!
# Giving up the roots that cannot go

A refused list value is a root, and it takes nothing along, so the roots without the refused ones
have the removal set without the refused ones (`has_removalSet_left`). With fewer list values going
and everything else the same, nothing more is refused (`keptValues_left`). So there is at most one
round of refusals, also where no round is watched for progress (`givesUp_left`).
-/
namespace EntityStore

namespace Snapshot
variable {s : Snapshot} {withClasses : Bool}

/-- The list values that refusals are about. -/
def refusedIds (kept : List Rejection) : IdSet := .ofIds (kept.filterMap Rejection.id)

/-- Roots without the list values that were refused. -/
def leftRoots (roots : IdMap) (refused : IdSet) : IdMap := (roots.remove .listValue refused).prune

theorem has_leftRoots {roots : IdMap} {refused : IdSet} {k : Kind} {i : Id} :
    (leftRoots roots refused).has k i = true ↔
      roots.has k i = true ∧ ¬ (k = .listValue ∧ refused.contains i = true) := by
  rw [leftRoots, IdMap.has_prune, IdMap.has_remove]
  simp only [Bool.and_eq_true, Bool.not_eq_true', Bool.and_eq_false_iff, decide_eq_false_iff_not,
    not_and_or, eq_comm (a := k), Bool.not_eq_true]

section Kept
variable {removal : IdMap} {i : Id} {r : Rejection}

theorem keptValue_eq_none_iff :
    s.keptValue removal i = none ↔ ∀ v, s.find? .listValue i = some v →
      removal.has .valueList v.parameterValueListId = false →
        s.listUser v removal true true = none := by
  unfold keptValue
  cases s.find? .listValue i with
  | none => simp
  | some v =>
    cases hlist : removal.has .valueList v.parameterValueListId <;>
      cases huser : s.listUser v removal true true <;> simp [hlist, huser]

theorem of_keptValue (h : s.keptValue removal i = some r) :
    r.id = some i ∧ r.kind = .listValue ∧ r.issue.code = .validationFailed := by
  simp only [keptValue, Option.bind_eq_bind, Option.bind_eq_some_iff] at h
  rcases h with ⟨v, _, h⟩
  split at h
  next => cases h
  next =>
    rcases Option.bind_eq_some_iff.1 h with ⟨user, _, h⟩
    obtain rfl := Option.some.inj h
    exact ⟨rfl, rfl, rfl⟩

theorem mem_keptValues_iff :
    r ∈ s.keptValues removal ↔ ∃ i, removal.has .listValue i = true ∧
      s.keptValue removal i = some r := by
  simp only [keptValues, List.mem_filterMap, IdSet.mem_toList]
  rfl

theorem contains_refusedIds :
    (refusedIds (s.keptValues removal)).contains i = true ↔
      removal.has .listValue i = true ∧ s.keptValue removal i ≠ none := by
  rw [refusedIds, IdSet.contains_ofIds, decide_eq_true_iff, List.mem_filterMap]
  constructor
  · rintro ⟨r, hr, hid⟩
    rcases mem_keptValues_iff.1 hr with ⟨j, hj, hkept⟩
    rw [(of_keptValue hkept).1, Option.some.injEq] at hid
    subst hid
    exact ⟨hj, hkept ▸ Option.some_ne_none r⟩
  · rintro ⟨hgoes, hkept⟩
    rcases Option.ne_none_iff_exists'.1 hkept with ⟨r, hr⟩
    exact ⟨r, mem_keptValues_iff.2 ⟨i, hgoes, hr⟩, (of_keptValue hr).1⟩

theorem exists_of_contains_refusedIds
    (h : (refusedIds (s.keptValues removal)).contains i = true) :
    ∃ v ∈ s.rows .listValue, v.id = i ∧ removal.has .listValue v.id = true ∧
      removal.has .valueList v.parameterValueListId = false := by
  rcases contains_refusedIds.1 h with ⟨hgoes, hkept⟩
  rcases Option.ne_none_iff_exists'.1 hkept with ⟨r, hr⟩
  rcases of_mem_keptValues (mem_keptValues_iff.2 ⟨i, hgoes, hr⟩) with ⟨v, hv, hid, hvgoes, hlist⟩
  rw [(of_keptValue hr).1, Option.some.injEq] at hid
  exact ⟨v, hv, hid.symm, hvgoes, hlist⟩

theorem filterMap_id_keptValues (s : Snapshot) (removal : IdMap) :
    (s.keptValues removal).filterMap Rejection.id = (refusedIds (s.keptValues removal)).toList := by
  symm
  apply IdSet.toList_ofIds
  have hids : (s.keptValues removal).filterMap Rejection.id =
      (removal.ids .listValue).toList.filter fun i => (s.keptValue removal i).isSome := by
    rw [keptValues, List.filterMap_filterMap, ← List.filterMap_eq_filter]
    congr 1
    funext i
    cases h : s.keptValue removal i with
    | none => simp [Option.guard, h]
    | some r => simp [Option.guard, h, (of_keptValue h).1]
  rw [hids]
  apply List.Pairwise.filter
  exact (removal.ids .listValue).ascending.imp fun hlt => Int.compare_eq_lt.1 hlt

end Kept

section Left
variable {roots : IdMap}

/-- The removal set of some roots. -/
def removalSet (s : Snapshot) (withClasses : Bool) (roots : IdMap) : IdMap :=
  .ofNodes (s.closure withClasses roots.nodes)

theorem removalSet_of_nodes_eq_nil (s : Snapshot) (withClasses : Bool) (h : roots.nodes = []) :
    s.removalSet withClasses roots = ∅ := by
  rw [removalSet, h, closure, Links.reach, Walk.follow]
  rfl

/-- The list values that may not go with some roots. -/
def refusedOf (s : Snapshot) (withClasses : Bool) (roots : IdMap) : IdSet :=
  refusedIds (s.keptValues (s.removalSet withClasses roots))

theorem isRemovalSet_removalSet (s : Snapshot) (withClasses : Bool) (roots : IdMap) :
    s.IsRemovalSet withClasses roots (s.removalSet withClasses roots) :=
  isRemovalSet_closure s withClasses roots

theorem not_takes_listValue {i : Id} {n : Node} : ¬ s.Takes withClasses (.listValue, i) n := by
  intro h
  cases h

theorem IsClosed.addListValues {m : IdMap} (h : s.IsClosed withClasses m) (ids : IdSet) :
    s.IsClosed withClasses (m.add .listValue ids) := by
  have hother {k : Kind} (hk : k ≠ .listValue) (i : Id) :
      (m.add .listValue ids).has k i = m.has k i := by
    rw [IdMap.has_add, decide_eq_false (Ne.symm hk), Bool.false_and, Bool.or_false]
  constructor
  · rintro ⟨k, i⟩ b htakes hgoes
    have hk : k ≠ .listValue := by
      rintro rfl
      exact not_takes_listValue htakes
    rw [hother hk] at hgoes
    rw [IdMap.has_add, h.takes _ b htakes hgoes, Bool.true_or]
  · intro i hused hall
    rw [hother (by decide)]
    apply h.metadata i hused
    intro j hj
    rw [← hall j hj, hother]
    cases hj <;> exact Kind.noConfusion

theorem has_root_of_refused {i : Id} (h : (s.refusedOf withClasses roots).contains i = true) :
    roots.has .listValue i = true := by
  rcases exists_of_contains_refusedIds h with ⟨v, hv, rfl, hgoes, hlist⟩
  exact has_root_of_kept hv hgoes hlist

/-- Without the refused list values among the roots, just these are missing from the removal
set. -/
theorem has_removalSet_left {k : Kind} {i : Id} :
    (s.removalSet withClasses (leftRoots roots (s.refusedOf withClasses roots))).has k i = true ↔
      (s.removalSet withClasses roots).has k i = true ∧
        ¬ (k = .listValue ∧ (s.refusedOf withClasses roots).contains i = true) := by
  have hfirst := isRemovalSet_removalSet s withClasses roots
  have hnext := isRemovalSet_removalSet s withClasses
    (leftRoots roots (s.refusedOf withClasses roots))
  have hsub (k : Kind) (i : Id) (h : (s.removalSet withClasses
      (leftRoots roots (s.refusedOf withClasses roots))).has k i = true) :
      (s.removalSet withClasses roots).has k i = true :=
    hnext.least _ (fun k i hi => hfirst.holdsRoots k i (has_leftRoots.1 hi).1) hfirst.closed k i h
  constructor
  · intro h
    refine ⟨hsub k i h, ?_⟩
    rintro ⟨rfl, hrefused⟩
    rcases exists_of_contains_refusedIds hrefused with ⟨v, hv, rfl, _, hlist⟩
    have hlist' : (s.removalSet withClasses (leftRoots roots
        (s.refusedOf withClasses roots))).has .valueList v.parameterValueListId = false := by
      rw [← Bool.not_eq_true] at hlist ⊢
      exact fun hgoes' => hlist (hsub _ _ hgoes')
    have hroot := has_root_of_kept hv h hlist'
    exact (has_leftRoots.1 hroot).2 ⟨rfl, hrefused⟩
  · rintro ⟨h, hnot⟩
    have hback := hfirst.least ((s.removalSet withClasses (leftRoots roots
      (s.refusedOf withClasses roots))).add .listValue (s.refusedOf withClasses roots)) ?_
      (hnext.closed.addListValues _) k i h
    · rw [IdMap.has_add, Bool.or_eq_true, Bool.and_eq_true, decide_eq_true_iff] at hback
      rcases hback with hback | ⟨hk, hrefused⟩
      · exact hback
      · exact absurd ⟨hk.symm, hrefused⟩ hnot
    · intro k i hi
      rw [IdMap.has_add, Bool.or_eq_true, Bool.and_eq_true, decide_eq_true_iff]
      by_cases hrefused : k = .listValue ∧ (s.refusedOf withClasses roots).contains i = true
      · exact Or.inr ⟨hrefused.1.symm, hrefused.2⟩
      · exact Or.inl (hnext.holdsRoots k i (has_leftRoots.2 ⟨hi, hrefused⟩))

/-- What is left of the roots can go: a round of refusals is the last one. -/
theorem keptValues_left :
    s.keptValues (s.removalSet withClasses
      (leftRoots roots (s.refusedOf withClasses roots))) = [] := by
  have hvalue (k : Kind) (i : Id) (hk : k ≠ .listValue) : (s.removalSet withClasses
      (leftRoots roots (s.refusedOf withClasses roots))).has k i =
      (s.removalSet withClasses roots).has k i := by
    rw [Bool.eq_iff_iff, has_removalSet_left]
    exact ⟨fun h => h.1, fun h => ⟨h, fun hboth => hk hboth.1⟩⟩
  apply List.eq_nil_iff_forall_not_mem.2
  intro r hr
  rcases mem_keptValues_iff.1 hr with ⟨i, hgoes, hkept⟩
  rcases has_removalSet_left.1 hgoes with ⟨hfirst, hnot⟩
  have hfree : s.keptValue (s.removalSet withClasses roots) i = none := by
    by_contra hrefused
    exact hnot ⟨rfl, contains_refusedIds.2 ⟨hfirst, hrefused⟩⟩
  have hnone : s.keptValue (s.removalSet withClasses
      (leftRoots roots (s.refusedOf withClasses roots))) i = none := by
    rw [keptValue_eq_none_iff] at hfree ⊢
    intro v hv hlist
    rw [hvalue _ _ (by decide)] at hlist
    exact listUser_eq_none_of_fewer hvalue (fun i hi => (has_removalSet_left.1 hi).1)
      (hfree v hv hlist)
  rw [hnone] at hkept
  cases hkept

theorem removalSet_left (s : Snapshot) (withClasses : Bool) (roots : IdMap) :
    s.removalSet withClasses (leftRoots roots (s.refusedOf withClasses roots)) =
      leftRoots (s.removalSet withClasses roots) (s.refusedOf withClasses roots) := by
  have hdense : (leftRoots (s.removalSet withClasses roots)
      (s.refusedOf withClasses roots)).Dense := IdMap.dense_prune _
  apply IdMap.ext_has (isRemovalSet_removalSet s withClasses _).dense hdense
  intro k i
  rw [Bool.eq_iff_iff, has_leftRoots, has_removalSet_left]

theorem refusedOf_eq_empty (h : s.keptValues (s.removalSet withClasses roots) = []) :
    s.refusedOf withClasses roots = ∅ := by
  rw [refusedOf, h]
  rfl

theorem removalSet_left_of_free (h : s.keptValues (s.removalSet withClasses roots) = []) :
    s.removalSet withClasses (leftRoots roots (s.refusedOf withClasses roots)) =
      s.removalSet withClasses roots := by
  apply IdMap.ext_has (isRemovalSet_removalSet s withClasses _).dense
    (isRemovalSet_removalSet s withClasses _).dense
  intro k i
  rw [Bool.eq_iff_iff, has_removalSet_left, refusedOf_eq_empty h]
  simp

end Left

/-- `s.GivesUp withClasses roots rejected final`: the rounds in which roots are given up until the
rest can go come to an end, with the removal set `final`, having refused `rejected`. -/
inductive GivesUp (s : Snapshot) (withClasses : Bool) : IdMap → List Rejection → IdMap → Prop where
  | free {roots : IdMap} (h : s.keptValues (s.removalSet withClasses roots) = []) :
    GivesUp s withClasses roots [] (s.removalSet withClasses roots)
  | round {roots final : IdMap} {rest : List Rejection}
    (h : s.keptValues (s.removalSet withClasses roots) ≠ [])
    (hrest : GivesUp s withClasses (leftRoots roots (s.refusedOf withClasses roots)) rest final) :
    GivesUp s withClasses roots (s.keptValues (s.removalSet withClasses roots) ++ rest) final

/-- The rounds end, after the first that refuses anything. -/
theorem givesUp_left (s : Snapshot) (withClasses : Bool) (roots : IdMap) :
    s.GivesUp withClasses roots (s.keptValues (s.removalSet withClasses roots))
      (s.removalSet withClasses (leftRoots roots (s.refusedOf withClasses roots))) := by
  by_cases h : s.keptValues (s.removalSet withClasses roots) = []
  · rw [removalSet_left_of_free h, h]
    exact .free h
  · rw [← List.append_nil (s.keptValues (s.removalSet withClasses roots))]
    exact .round h (.free keptValues_left)

theorem settle_of_free {roots removed : IdMap} (h : s.keptValues removed = []) :
    s.settle withClasses roots removed = ⟨roots, removed, [], []⟩ := by
  have htotal : (roots.remove .listValue (.ofIds ([].filterMap Rejection.id))).prune.total =
      roots.total := by
    apply IdMap.total_congr
    intro k i
    rw [IdMap.has_prune, IdMap.has_remove]
    simp
  rw [settle, h]
  exact if_neg (by rw [htotal]; exact Nat.lt_irrefl _)

/-- Settling ends with the removal set of the roots that are not refused. -/
theorem settle_removalSet (s : Snapshot) (withClasses : Bool) (roots : IdMap) :
    let settled := s.settle withClasses roots (s.removalSet withClasses roots)
    settled.removed =
        s.removalSet withClasses (leftRoots roots (s.refusedOf withClasses roots)) ∧
      settled.rejected = s.keptValues (s.removalSet withClasses roots) := by
  by_cases h : s.keptValues (s.removalSet withClasses roots) = []
  · rw [settle_of_free h, removalSet_left_of_free h, h]
    exact ⟨rfl, rfl⟩
  · have hlt : (leftRoots roots (s.refusedOf withClasses roots)).total < roots.total := by
      rcases List.exists_mem_of_ne_nil _ h with ⟨r, hr⟩
      rcases mem_keptValues_iff.1 hr with ⟨i, hgoes, hkept⟩
      have hrefused : (s.refusedOf withClasses roots).contains i = true :=
        contains_refusedIds.2 ⟨hgoes, hkept ▸ Option.some_ne_none r⟩
      apply IdMap.total_lt (fun k i hi => (has_leftRoots.1 hi).1) (has_root_of_refused hrefused)
      rw [← Bool.not_eq_true, has_leftRoots]
      exact fun hleft => hleft.2 ⟨rfl, hrefused⟩
    have hrest : s.settle withClasses (leftRoots roots (s.refusedOf withClasses roots))
        (s.removalSet withClasses (leftRoots roots (s.refusedOf withClasses roots))) = _ :=
      settle_of_free keptValues_left
    unfold leftRoots refusedOf refusedIds at hlt hrest ⊢
    rw [settle, if_pos hlt]
    unfold removalSet at hrest ⊢
    dsimp only
    rw [hrest, List.append_nil]
    exact ⟨rfl, rfl⟩

end Snapshot

end EntityStore
