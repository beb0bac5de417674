import EntityStore.Proofs.Engine.InStep
import EntityStore.Proofs.Engine.Settling
import EntityStore.Proofs.Invariant.Methods
/-!
# What a lenient removal does

A removal that is not strict reports the roots that do not exist, then the list values that may not
go, and removes the rest of the roots with everything that goes with them. What stays is written as
it was, but for definitions of a list that goes: their records lose the reference to the list. The
store is written once, or not at all when nothing is left to remove (`Workspace.remove_removes`).
-/
namespace EntityStore

/-- A record as a removal leaves it behind: that of a definition without a list that goes. -/
def Record.leftBy (removed : IdMap) (k : Kind) (r : Record) : Record :=
  if k = .parameterDefinition ∧
      (r.int? "parameter_value_list_id").any (removed.has .valueList) = true then
    r.erase "parameter_value_list_id"
  else r

theorem ParameterDefinition.int?_toRecord (d : ParameterDefinition) :
    d.toRecord.int? "parameter_value_list_id" = d.parameterValueListId := by
  rcases d with ⟨i, classId, name, _ | value, _ | list, _ | description, variant⟩ <;>
    simp [toRecord, Record.int?, Record.get?_ofFields]

theorem ParameterDefinition.toRecord_detached (d : ParameterDefinition) :
    d.detached.toRecord = d.toRecord.erase "parameter_value_list_id" := by
  apply SortedMap.ext_get?
  intro f
  rw [SortedMap.get?_erase, toRecord, toRecord, Record.get?_ofFields, Record.get?_ofFields]
  by_cases hf : "parameter_value_list_id" = f
  · subst hf
    simp [detached]
  · simp [detached, hf, List.findSome?_cons]

theorem Row.toRecord_leftBy (removed : IdMap) (k : Kind) (row : Row k) :
    Row.toRecord k (Row.leftBy removed k row) = Record.leftBy removed k (Row.toRecord k row) := by
  by_cases hk : k = .parameterDefinition
  · subst hk
    have hlist : (Row.toRecord .parameterDefinition row).int? "parameter_value_list_id" =
        ParameterDefinition.parameterValueListId row := ParameterDefinition.int?_toRecord row
    rw [Row.leftBy_definition, Record.leftBy, hlist]
    by_cases hgoes : (ParameterDefinition.parameterValueListId row).any (removed.has .valueList)
    · rw [if_pos hgoes, if_pos ⟨rfl, hgoes⟩]
      exact ParameterDefinition.toRecord_detached row
    · rw [if_neg hgoes, if_neg fun h => hgoes h.2]
  · rw [Row.leftBy_of_ne removed hk, Record.leftBy, if_neg fun h => hk h.1]

theorem Record.leftBy_empty (k : Kind) (r : Record) : Record.leftBy ∅ k r = r := by
  apply if_neg
  rintro ⟨_, hgoes⟩
  rcases (Option.any_eq_true _ _).1 hgoes with ⟨list, _, hlist⟩
  cases hlist

namespace Snapshot
variable {s : Snapshot}

theorem record?_without (s : Snapshot) (removed : IdMap) (k : Kind) (i : Id) :
    (s.without removed).record? k i =
      if removed.has k i then none else (s.record? k i).map (Record.leftBy removed k) := by
  rw [record?, find?_without, record?]
  split
  · rfl
  · rw [Option.map_map, Option.map_map]
    congr 1
    funext row
    exact Row.toRecord_leftBy removed k row

/-- What is reported of refused roots: those that do not exist, and then list values. -/
theorem issues_unknownRoots (s : Snapshot) (roots : IdMap) :
    (s.unknownRoots roots).map (fun r => (r.issue.code, r.issue.kind, r.issue.id)) =
      (roots.nodes.filter fun n => !s.contains n.1 n.2).map fun n =>
        (ErrorCode.notFound, n.1, some n.2) := by
  rw [unknownRoots, List.map_map]
  rfl

theorem issues_keptValues (s : Snapshot) (removal : IdMap) :
    (s.keptValues removal).map (fun r => (r.issue.code, r.issue.kind, r.issue.id)) =
      (refusedIds (s.keptValues removal)).toList.map fun i =>
        (ErrorCode.validationFailed, Kind.listValue, some i) := by
  rw [← filterMap_id_keptValues]
  have hkept (r : Rejection) (hr : r ∈ s.keptValues removal) : ∃ i, r.id = some i ∧
      (r.issue.code, r.issue.kind, r.issue.id) = (.validationFailed, .listValue, some i) := by
    rcases mem_keptValues_iff.1 hr with ⟨i, _, hi⟩
    rcases of_keptValue hi with ⟨hid, hkind, hcode⟩
    refine ⟨i, hid, ?_⟩
    rw [hcode, ← hid, ← hkind]
    rfl
  generalize s.keptValues removal = kept at hkept
  induction kept with
  | nil => rfl
  | cons r kept ih =>
    rcases hkept r List.mem_cons_self with ⟨i, hid, hissue⟩
    rw [List.map_cons, hissue, List.filterMap_cons, hid,
      ih fun r' hr' => hkept r' (List.mem_cons_of_mem r hr')]
    rfl

end Snapshot

namespace Workspace
variable {o : Options} {w : Workspace} {strict : Option Bool}

theorem removeRows_of_isEmpty (w : Workspace) (roots : IdMap) {removed : IdMap}
    (rejected : List Rejection) (h : removed.isEmpty = true) :
    w.removeRows roots removed rejected = .done ⟨∅, [], rejected⟩ w [] := by
  rw [removeRows, if_pos h]

/-- Where there is something to remove, the store is written once or the removal fails. -/
theorem removeRows_cases (w : Workspace) (roots : IdMap) {removed : IdMap}
    (rejected : List Rejection) (h : removed.isEmpty = false) :
    let run := w.removeRows roots removed rejected
    let items := (w.session.snapshot.detachedBy removed).map ParameterDefinition.toRecord
    (∃ f, (w.store.apply (.ofRemoval removed .parameterDefinition items)).1 = .error f ∧
      run.outcome = .error (.applyFailed .remove f)) ∨
      run.outcome = .ok ⟨removed, items, rejected⟩ ∧
        w.store.apply (.ofRemoval removed .parameterDefinition items) =
          (.ok (), run.state.store) ∧
        run.state.session.snapshot = w.session.snapshot.without removed := by
  have hnot : ¬ removed.isEmpty = true := by
    rw [h]
    exact Bool.false_ne_true
  dsimp only
  rw [removeRows, if_neg hnot, commit]
  rcases happly : w.store.apply (.ofRemoval removed .parameterDefinition
    ((w.session.snapshot.detachedBy removed).map ParameterDefinition.toRecord)) with ⟨_ | _, store⟩
  · exact Or.inl ⟨_, rfl, rfl⟩
  · exact Or.inr ⟨rfl, rfl, rfl⟩

theorem applyCount_of_apply {store store' : Store} {c : ChangeSet}
    (h : store.apply c = (.ok (), store')) : store'.applyCount = store.applyCount + 1 := by
  obtain ⟨_, _, _, rfl⟩ := Store.apply_eq_ok_iff.1 h
  rfl

theorem InStep.checkRemoval (h : w.InStep) (removal : IdMap) :
    w.session.snapshot.checkRemoval removal = .ok (w.session.snapshot.keptValues removal) := by
  rw [Snapshot.checkRemoval, if_pos h.isComplete]

theorem InStep.cascade (h : w.InStep) (withClasses : Bool) (roots : IdMap) :
    w.session.snapshot.cascade withClasses roots =
      .ok (w.session.snapshot.removalSet withClasses roots) :=
  Snapshot.cascade_eq_ok roots fun k _ => (inStep_iff.1 h k).2

theorem removalSet_of_isEmpty (s : Snapshot) (withClasses : Bool) {roots : IdMap}
    (h : roots.isEmpty = true) : s.removalSet withClasses roots = ∅ :=
  s.removalSet_of_nodes_eq_nil withClasses (IdMap.nodes_eq_nil_of_isEmpty h)

/-- How the roots that exist come down to those that can go, whose removal set is `final`. -/
structure Settles (o : Options) (s : Snapshot) (known first : IdMap) (kept : List Rejection)
    (final : IdMap) : Prop where
  cascade_eq : s.cascade o.withClasses known = .ok first
  check_eq : s.checkRemoval first = .ok kept
  rounds : s.GivesUp o.withClasses known kept final
  isRoot : ∀ i, (Snapshot.refusedIds kept).contains i = true → known.has .listValue i = true
  recheck_eq : s.checkRemoval final = .ok []
  recascade_eq :
    s.cascade o.withClasses (Snapshot.leftRoots known (Snapshot.refusedIds kept)) = .ok final
  final_eq : final = Snapshot.leftRoots first (Snapshot.refusedIds kept)

theorem InStep.settles (h : w.InStep) (o : Options) (known : IdMap) :
    let s := w.session.snapshot
    let first := s.removalSet o.withClasses known
    Settles o s known first (s.keptValues first)
      (s.removalSet o.withClasses
        (Snapshot.leftRoots known (s.refusedOf o.withClasses known))) where
  cascade_eq := h.cascade o.withClasses known
  check_eq := h.checkRemoval _
  rounds := Snapshot.givesUp_left _ _ _
  isRoot _ hi := Snapshot.has_root_of_refused hi
  recheck_eq := by
    rw [h.checkRemoval, Snapshot.keptValues_left]
  recascade_eq := h.cascade o.withClasses _
  final_eq := Snapshot.removalSet_left _ _ _

/-- A removal that is not strict settles on roots, removes their removal set, and reports the roots
that do not exist before those that it gave up. -/
theorem InStep.remove_settles (hstep : w.InStep) (o : Options) (roots : IdMap)
    (hlenient : strict.getD o.strict = false) :
    ∃ first final left log,
      Settles o w.session.snapshot (w.session.snapshot.knownRoots roots) first
        (w.session.snapshot.keptValues first) final ∧
      w.remove o roots strict = (w.removeRows left final
        (w.session.snapshot.unknownRoots roots ++ w.session.snapshot.keptValues first)).after
          log := by
  have hsettles := hstep.settles o (w.session.snapshot.knownRoots roots)
  unfold remove
  dsimp only at hsettles ⊢
  rw [hlenient]
  dsimp only
  split
  next hempty =>
    have hset := removalSet_of_isEmpty w.session.snapshot o.withClasses hempty
    have hfree : w.session.snapshot.keptValues (w.session.snapshot.removalSet o.withClasses
        (w.session.snapshot.knownRoots roots)) = [] := by
      rw [hset]
      rfl
    refine ⟨_, _, ∅, (w.session.snapshot.unknownRoots roots).map Rejection.log, hsettles, ?_⟩
    rw [Snapshot.removalSet_left_of_free hfree, hfree, hset, List.append_nil,
      removeRows_of_isEmpty w ∅ _ rfl]
    simp [Run.done, Run.after]
  next =>
    rw [hstep.cascade]
    dsimp only
    rw [hstep.checkRemoval]
    dsimp only
    rcases Snapshot.settle_removalSet w.session.snapshot o.withClasses
      (w.session.snapshot.knownRoots roots) with ⟨hremoved, hrejected⟩
    rw [hremoved, hrejected]
    exact ⟨_, _, _, _, hsettles, rfl⟩

/-- A removal from `w` gives `result` and leaves `next` behind; `first` is the removal set of the
roots that exist, and `kept` is what is refused of it. -/
structure Removes (o : Options) (w : Workspace) (roots first : IdMap) (kept : List Rejection)
    (result : RemoveResult) (next : Workspace) : Prop where
  settles :
    Settles o w.session.snapshot (w.session.snapshot.knownRoots roots) first kept result.removed
  rejected_eq : result.rejected = w.session.snapshot.unknownRoots roots ++ kept
  issues : result.rejected.map (fun r => (r.issue.code, r.issue.kind, r.issue.id)) =
    ((roots.nodes.filter fun n => !w.session.snapshot.contains n.1 n.2).map fun n =>
      (.notFound, n.1, some n.2)) ++
    (Snapshot.refusedIds kept).toList.map fun i => (.validationFailed, .listValue, some i)
  ordered : (roots.nodes.filter fun n => !w.session.snapshot.contains n.1 n.2).Pairwise IdMap.Before
  records : ∀ k i, next.session.snapshot.record? k i =
    if result.removed.has k i then none
    else (w.session.snapshot.record? k i).map (Record.leftBy result.removed k)
  untouched : result.removed.isEmpty = true → next = w
  applied : result.removed.isEmpty = false →
    w.store.apply (.ofRemoval result.removed .parameterDefinition result.detached) =
        (.ok (), next.store) ∧
      next.store.applyCount = w.store.applyCount + 1

theorem Settles.removes {roots first : IdMap} {result : RemoveResult} {next : Workspace}
    (h : Settles o w.session.snapshot (w.session.snapshot.knownRoots roots) first
      (w.session.snapshot.keptValues first) result.removed)
    (hrejected : result.rejected =
      w.session.snapshot.unknownRoots roots ++ w.session.snapshot.keptValues first)
    (hrecords : ∀ k i, next.session.snapshot.record? k i =
      if result.removed.has k i then none
      else (w.session.snapshot.record? k i).map (Record.leftBy result.removed k))
    (huntouched : result.removed.isEmpty = true → next = w)
    (happlied : result.removed.isEmpty = false →
      w.store.apply (.ofRemoval result.removed .parameterDefinition result.detached) =
        (.ok (), next.store)) :
    Removes o w roots first (w.session.snapshot.keptValues first) result next where
  settles := h
  rejected_eq := hrejected
  issues := by
    rw [hrejected, List.map_append, Snapshot.issues_unknownRoots, Snapshot.issues_keptValues]
  ordered := roots.pairwise_nodes.filter _
  records := hrecords
  untouched := huntouched
  applied hnot := ⟨happlied hnot, applyCount_of_apply (happlied hnot)⟩

/-- A removal that is not strict, of a session in step with its store, refuses the roots that do not
exist and the list values that may not go, and removes the rest with what goes with it, unless the
store fails to apply this. -/
theorem remove_removes (o : Options) (hstep : w.InStep) (roots : IdMap)
    (hlenient : strict.getD o.strict = false)
    (happlies : ∀ f, (w.remove o roots strict).outcome ≠ .error (.applyFailed .remove f)) :
    ∃ first kept result, (w.remove o roots strict).outcome = .ok result ∧
      Removes o w roots first kept result (w.remove o roots strict).state := by
  rcases hstep.remove_settles o roots hlenient with ⟨first, final, left, log, hsettles, hremove⟩
  rw [hremove, Run.outcome_after] at happlies
  rw [hremove, Run.outcome_after, Run.state_after]
  cases hempty : final.isEmpty with
  | true =>
    rw [removeRows_of_isEmpty w left _ hempty]
    obtain rfl : final = ∅ := Ascending.ext (List.isEmpty_iff.1 hempty)
    refine ⟨first, _, _, rfl, hsettles.removes rfl (fun k i => ?_) (fun _ => rfl) nofun⟩
    have hkeeps : Record.leftBy ∅ k = id := funext (Record.leftBy_empty k)
    rw [hkeeps, Option.map_id]
    rfl
  | false =>
    rcases removeRows_cases w left _ hempty with ⟨f, _, hfailed⟩ | ⟨houtcome, happly, hsnapshot⟩
    · exact absurd hfailed (happlies f)
    · refine ⟨first, _, _, houtcome, hsettles.removes rfl (fun k i => ?_) ?_ fun _ => happly⟩
      · rw [hsnapshot, Snapshot.record?_without]
      · intro hall
        rw [hempty] at hall
        cases hall

/-- A class that does not exist, a list value whose index a method has, and the other list. -/
def pumpsRoots : IdMap := .ofNodes [(.entityClass, 9), (.listValue, 2), (.valueList, 2)]

/-- The other list with what goes with it. -/
def statesRemoved : IdMap := .ofNodes [(.valueList, 2), (.listValue, 3), (.feature, 2)]

theorem apply_statesRemoved :
    (pumps.apply (.ofRemoval statesRemoved .parameterDefinition
      ((pumpsSession.snapshot.detachedBy statesRemoved).map
        ParameterDefinition.toRecord))).1 = .ok () := by
  cbv

theorem remove_pumps_removes :
    ∃ first kept result,
      ((⟨pumps, pumpsSession⟩ : Workspace).remove {} pumpsRoots none).outcome = .ok result ∧
      Removes {} ⟨pumps, pumpsSession⟩ pumpsRoots first kept result
        ((⟨pumps, pumpsSession⟩ : Workspace).remove {} pumpsRoots none).state := by
  have hstep : InStep ⟨pumps, pumpsSession⟩ := inStep_of_open open_pumps
  have hlenient : (none : Option Bool).getD ({} : Options).strict = false := rfl
  apply remove_removes {} hstep pumpsRoots hlenient
  intro f hfailed
  rcases hstep.remove_settles {} pumpsRoots hlenient with
    ⟨first, final, left, log, hsettles, hremove⟩
  have hfirst : first =
      .ofNodes [(.valueList, 2), (.listValue, 2), (.listValue, 3), (.feature, 2)] := by
    apply Except.ok.inj
    rw [← hsettles.cascade_eq]
    cbv
  obtain rfl : final = statesRemoved := by
    rw [hsettles.final_eq, hfirst]
    cbv
  rw [hremove, Run.outcome_after] at hfailed
  rcases removeRows_cases ⟨pumps, pumpsSession⟩ left _ (by cbv : statesRemoved.isEmpty = false)
    with ⟨g, happly, _⟩ | ⟨hdone, _⟩
  · rw [apply_statesRemoved] at happly
    cases happly
  · rw [hdone] at hfailed
    cases hfailed

end Workspace

end EntityStore
