import EntityStore.Engine.Remove
import EntityStore.Proofs.Cascade.RemovalSet
/-!
# What a removal settles on

A list value that a removal set may not take stands in it as a root of its own, because the set
spares its list. Every round of settling therefore gives up a root, and settling ends with roots
whose removal set nothing stands against (`settle_spec`). The rows that stay are those of before,
except for definitions that are detached from a removed list (`find?_without`).
-/
namespace EntityStore.Snapshot

section Settle
variable {s : Snapshot} {withClasses : Bool}

theorem of_mem_keptValues {removed : IdMap} {r : Rejection} (h : r ∈ s.keptValues removed) :
    ∃ v ∈ s.rows .listValue, r.id = some v.id ∧ removed.has .listValue v.id = true ∧
      removed.has .valueList v.parameterValueListId = false := by
  rcases List.mem_filterMap.1 h with ⟨i, hi, h⟩
  rw [IdSet.mem_toList] at hi
  simp only [keptValue, Option.bind_eq_bind, Option.bind_eq_some_iff] at h
  rcases h with ⟨v, hv, h⟩
  split at h
  next => cases h
  next hlist =>
    rcases Option.bind_eq_some_iff.1 h with ⟨user, _, h⟩
    have hid : v.id = i := id_of_find? hv
    refine ⟨v, mem_rows_of_find? hv, ?_, ?_, Bool.not_eq_true _ ▸ hlist⟩
    · rw [← Option.some.inj h, hid]
    · rw [hid]
      exact hi

/-- Nothing relies on the list values of a removal that nothing stands against, unless their list
goes too. -/
theorem listUser_of_keptValues {removed : IdMap} (h : s.keptValues removed = []) {v : ListValue}
    (hv : v ∈ s.rows .listValue) (hgoes : removed.has .listValue v.id = true)
    (hlist : removed.has .valueList v.parameterValueListId = false) :
    s.listUser v removed true true = none := by
  have hfind : s.find? .listValue v.id = some v := mem_rows_iff.1 hv
  have hkept := List.filterMap_eq_nil_iff.1 h v.id (IdSet.mem_toList.2 hgoes)
  rw [keptValue, hfind] at hkept
  cases huser : s.listUser v removed true true with
  | none => rfl
  | some user => simp [hlist, huser] at hkept

theorem has_root_of_kept {roots : IdMap} {v : ListValue} (hv : v ∈ s.rows .listValue)
    (h : (IdMap.ofNodes (s.closure withClasses roots.nodes)).has .listValue v.id = true)
    (hlist : (IdMap.ofNodes (s.closure withClasses roots.nodes)).has .valueList
      v.parameterValueListId = false) : roots.has .listValue v.id = true := by
  cases has_closure.1 h with
  | root hroot => exact IdMap.mem_nodes.1 hroot
  | owned howned howner =>
    rcases takes_iff.1 (mem_links_owned.1 howned) with ⟨row, hrow, ha⟩
    have hrow' : row = v := eq_of_id_eq (mem_rows_of_find? hrow) hv (id_of_find? hrow)
    rw [hrow'] at ha
    rw [List.mem_singleton.1 ha] at howner
    rw [has_closure.2 howner] at hlist
    cases hlist

theorem has_of_has_knownRoots {roots : IdMap} {k : Kind} {i : Id}
    (h : (s.knownRoots roots).has k i = true) : roots.has k i = true := by
  rw [knownRoots, IdMap.has_ofNodes, decide_eq_true_iff, List.mem_filter] at h
  exact IdMap.mem_nodes.1 h.1

theorem has_left {roots : IdMap} {kept : List Rejection} {k : Kind} {i : Id} :
    (roots.remove .listValue (.ofIds (kept.filterMap Rejection.id))).prune.has k i = true ↔
      roots.has k i = true ∧ ¬ (k = .listValue ∧ ∃ r ∈ kept, r.id = some i) := by
  rw [IdMap.has_prune, IdMap.has_remove, IdSet.contains_ofIds]
  simp only [Bool.and_eq_true, Bool.not_eq_true', Bool.and_eq_false_iff, decide_eq_false_iff_not,
    List.mem_filterMap, not_and_or, eq_comm (a := k)]

/-- Settling ends with some of the roots, with their removal set, which holds no list value that
may not go. -/
theorem settle_spec (s : Snapshot) (withClasses : Bool) (roots removed : IdMap)
    (h : removed = .ofNodes (s.closure withClasses roots.nodes)) :
    let settled := s.settle withClasses roots removed
    (∀ k i, settled.roots.has k i = true → roots.has k i = true) ∧
      s.IsRemovalSet withClasses settled.roots settled.removed ∧
      s.keptValues settled.removed = [] := by
  induction roots, removed using settle.induct s withClasses with
  | case1 roots removed kept left hlt next ih =>
    rw [settle, if_pos hlt]
    rcases ih rfl with ⟨hsub, hset⟩
    refine ⟨fun k i hi => ?_, hset⟩
    exact (has_left.1 (hsub k i hi)).1
  | case2 roots removed kept left hle =>
    rw [settle, if_neg hle]
    subst h
    refine ⟨fun _ _ hi => hi, isRemovalSet_closure s withClasses roots, ?_⟩
    apply List.eq_nil_iff_forall_not_mem.2
    intro r hr
    rcases of_mem_keptValues hr with ⟨v, hv, hid, hgoes, hlist⟩
    apply hle
    apply IdMap.total_lt (fun k i hi => (has_left.1 hi).1) (has_root_of_kept hv hgoes hlist)
    rw [← Bool.not_eq_true, has_left]
    exact fun hleft => hleft.2 ⟨rfl, r, hr, hid⟩

end Settle

/-- The snapshot after a removal. -/
def without (s : Snapshot) (removed : IdMap) : Snapshot :=
  (s.eraseAll removed).putRows .parameterDefinition
    ((s.detachedBy removed).map (Row.stored .parameterDefinition))

end EntityStore.Snapshot

namespace EntityStore

/-- A row as a removal leaves it behind: a definition without a list that goes. -/
def Row.leftBy (removed : IdMap) : (k : Kind) → Row k → Row k
  | .parameterDefinition => fun d =>
    if d.parameterValueListId.any (removed.has .valueList) then
      Row.stored .parameterDefinition d.detached
    else d
  | _ => fun row => row

theorem Row.leftBy_definition (removed : IdMap) (d : ParameterDefinition) :
    Row.leftBy removed .parameterDefinition d =
      if d.parameterValueListId.any (removed.has .valueList) then
        Row.stored .parameterDefinition d.detached
      else d :=
  rfl

/-- A definition that still has a list has been left as it was, and its list stays. -/
theorem Row.leftBy_of_list {removed : IdMap} {d : ParameterDefinition} {list : Id}
    (h : (Row.leftBy removed .parameterDefinition d).parameterValueListId = some list) :
    Row.leftBy removed .parameterDefinition d = d ∧ d.parameterValueListId = some list ∧
      removed.has .valueList list = false := by
  rw [Row.leftBy_definition] at *
  split at h
  next => cases h
  next hstays =>
    rw [h] at hstays
    exact ⟨if_neg (h ▸ hstays), h, Bool.not_eq_true _ ▸ hstays⟩

theorem Row.leftBy_of_ne (removed : IdMap) {k : Kind} (h : k ≠ .parameterDefinition) (row : Row k) :
    Row.leftBy removed k row = row := by
  cases k <;> first | rfl | exact absurd rfl h

namespace Snapshot

theorem mem_detachedRows {s : Snapshot} {removed : IdMap} {d : ParameterDefinition} :
    d ∈ (s.detachedBy removed).map (Row.stored .parameterDefinition) ↔
      ∃ before ∈ s.rows .parameterDefinition, removed.has .parameterDefinition before.id = false ∧
        before.parameterValueListId.any (removed.has .valueList) = true ∧
          Row.stored .parameterDefinition before.detached = d := by
  simp only [detachedBy, List.mem_map, List.mem_filter, Bool.and_eq_true, Bool.not_eq_true', rows]
  constructor
  · rintro ⟨_, ⟨before, ⟨hmem, hlist, hstays⟩, rfl⟩, rfl⟩
    exact ⟨before, hmem, hstays, hlist, rfl⟩
  · rintro ⟨before, hmem, hstays, hlist, rfl⟩
    exact ⟨_, ⟨before, ⟨hmem, hlist, hstays⟩, rfl⟩, rfl⟩

theorem find?_without_definition (s : Snapshot) (removed : IdMap) (i : Id) :
    (s.without removed).find? .parameterDefinition i =
      if removed.has .parameterDefinition i then none
      else (s.find? .parameterDefinition i).map (Row.leftBy removed .parameterDefinition) := by
  by_cases hput : ∃ d ∈ (s.detachedBy removed).map (Row.stored .parameterDefinition),
      Row.id .parameterDefinition d = i
  · rcases hput with ⟨d, hd, rfl⟩
    have hunique (d' : ParameterDefinition)
        (hd' : d' ∈ (s.detachedBy removed).map (Row.stored .parameterDefinition))
        (hid : Row.id .parameterDefinition d' = Row.id .parameterDefinition d) : d' = d := by
      rcases mem_detachedRows.1 hd with ⟨before, hmem, _, _, rfl⟩
      rcases mem_detachedRows.1 hd' with ⟨before', hmem', _, _, rfl⟩
      rw [eq_of_id_eq hmem' hmem hid]
    rw [without, find?_putRows_of_mem hd hunique]
    rcases mem_detachedRows.1 hd with ⟨before, hmem, hstays, hlist, rfl⟩
    have hid : Row.id .parameterDefinition (Row.stored .parameterDefinition before.detached) =
        before.id := rfl
    rw [hid, hstays, if_neg Bool.false_ne_true, mem_rows_iff.1 hmem]
    exact congrArg some (if_pos hlist).symm
  · have hne (d : ParameterDefinition)
        (hd : d ∈ (s.detachedBy removed).map (Row.stored .parameterDefinition)) :
        Row.id .parameterDefinition d ≠ i :=
      fun hid => hput ⟨d, hd, hid⟩
    rw [without, find?_putRows_of_forall_ne hne, find?_eraseAll]
    split
    next => rfl
    next hstays =>
      cases hd : s.find? .parameterDefinition i with
      | none => rfl
      | some d =>
        have hid : d.id = i := id_of_find? hd
        rw [Option.map_some, Option.some.injEq, Row.leftBy_definition]
        symm
        apply if_neg
        intro hlist
        refine hput ⟨_, mem_detachedRows.2 ⟨d, mem_rows_of_find? hd, ?_, hlist, rfl⟩, hid⟩
        rw [hid]
        exact Bool.not_eq_true _ ▸ hstays

/-- A removal takes the rows that it names and leaves the others behind. -/
theorem find?_without (s : Snapshot) (removed : IdMap) (k : Kind) (i : Id) :
    (s.without removed).find? k i =
      if removed.has k i then none else (s.find? k i).map (Row.leftBy removed k) := by
  by_cases hk : k = .parameterDefinition
  · subst hk
    exact find?_without_definition s removed i
  · rw [without, find?_putRows_of_ne _ _ (Ne.symm hk), find?_eraseAll,
      show Row.leftBy removed k = fun row => row from funext (Row.leftBy_of_ne removed hk),
      Option.map_id']

theorem of_mem_rows_without {s : Snapshot} {removed : IdMap} {k : Kind} {row : Row k}
    (h : row ∈ (s.without removed).rows k) :
    ∃ before ∈ s.rows k, removed.has k (Row.id k before) = false ∧
      Row.leftBy removed k before = row := by
  have hfind := mem_rows_iff.1 h
  rw [find?_without] at hfind
  split at hfind
  next => cases hfind
  next hstays =>
    rcases Option.map_eq_some_iff.1 hfind with ⟨before, hbefore, hrow⟩
    refine ⟨before, mem_rows_of_find? hbefore, ?_, hrow⟩
    rw [id_of_find? hbefore]
    exact Bool.not_eq_true _ ▸ hstays

theorem leftBy_mem_rows_without {s : Snapshot} {removed : IdMap} {k : Kind} {row : Row k}
    (h : row ∈ s.rows k) (hstays : removed.has k (Row.id k row) = false) :
    Row.leftBy removed k row ∈ (s.without removed).rows k := by
  apply mem_rows_of_find? (i := Row.id k row)
  rw [find?_without, hstays, if_neg Bool.false_ne_true, mem_rows_iff.1 h]
  rfl

theorem contains_without {s : Snapshot} {removed : IdMap} {k : Kind} {i : Id} :
    (s.without removed).contains k i = true ↔
      s.contains k i = true ∧ removed.has k i = false := by
  have hfind : (s.without removed).contains k i = ((s.without removed).find? k i).isSome := rfl
  have hbefore : s.contains k i = (s.find? k i).isSome := rfl
  rw [hfind, hbefore, find?_without]
  cases removed.has k i <;> simp

end Snapshot

end EntityStore
