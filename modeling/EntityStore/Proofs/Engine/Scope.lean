import EntityStore.Proofs.Engine.RemoveCall
/-!
# Cascades over the kinds in reach

What goes with some roots is of a kind in reach of theirs, and is found through rows of these kinds
only: a row that takes another along has a kind from which the other's is reached, and metadata is
reached together with both sorts of joins. Two snapshots that agree on the kinds in reach therefore
have the same removal set (`Snapshot.removalSet_congr`). A cascade over a store loads no other
kinds, and gives what a session gives that holds them all (`Store.cascade_of_readable`).
-/
namespace EntityStore

namespace Kind
variable {withClasses : Bool} {roots : List Kind} {j k : Kind}

theorem mem_reached_of_mem (h : k ∈ roots) : k ∈ reached withClasses roots := by
  apply List.mem_filter.2
  simp [Saturation.subset_saturate _ _ _ h]

theorem mem_reached_of_dependents (hj : j ∈ reached withClasses roots)
    (h : k ∈ dependents withClasses j) : k ∈ reached withClasses roots := by
  have hset := (List.mem_filter.1 hj).2
  rw [List.contains_iff_mem] at hset
  apply List.mem_filter.2
  refine ⟨mem_all k, List.contains_iff_mem.2 (Saturation.mem_saturate_of_joins (mem_all k) ?_)⟩
  exact List.any_eq_true.2 ⟨j, hset, List.contains_iff_mem.2 h⟩

end Kind

namespace IdMap
variable {m : IdMap} {k : Kind}

theorem mem_kinds_of_mem_nodes {n : Node} (h : n ∈ m.nodes) : n.1 ∈ m.kinds := by
  rw [mem_nodes, ← has_prune] at h
  cases hk : m.prune.get? n.1 with
  | none =>
    rw [has_eq_false_of_get? hk] at h
    cases h
  | some ids => exact List.mem_map_of_mem (SortedMap.get?_eq_some_iff.1 hk)

theorem exists_has_of_mem_keys (hm : m.Dense) (h : k ∈ m.keys) : ∃ i, m.has k i = true := by
  rcases List.mem_map.1 h with ⟨⟨_, ids⟩, hmem, rfl⟩
  have hget := SortedMap.get?_eq_some_iff.2 hmem
  rcases IdSet.exists_contains (hm _ ids hget) with ⟨i, hi⟩
  exact ⟨i, by rw [has_eq_of_get? hget, hi]⟩

end IdMap

namespace Snapshot
variable {s t : Snapshot} {withClasses : Bool}

theorem Takes.kind {a b : Node} (h : s.Takes withClasses a b) :
    b.1 = a.1 ∨ b.1 ∈ Kind.dependents withClasses a.1 := by
  cases h <;> simp [Kind.dependents]

theorem JoinOf.kind {m : Id} {j : Node} (h : s.JoinOf m j) :
    j.1 = .entityMetadata ∨ j.1 = .valueMetadata := by
  cases h <;> simp

theorem Takes.of_table_eq {a b : Node} (h : s.Takes withClasses a b)
    (htable : s.table b.1 = t.table b.1) : t.Takes withClasses a b := by
  rw [takes_iff] at h ⊢
  rw [find?, ← htable]
  exact h

theorem joins_congr (hentity : s.table .entityMetadata = t.table .entityMetadata)
    (hvalue : s.table .valueMetadata = t.table .valueMetadata) : s.joins = t.joins := by
  rw [joins, joins, hentity, hvalue]

theorem JoinOf.reached {kinds : List Kind} {m : Id} {j : Node} (h : s.JoinOf m j)
    (hj : j.1 ∈ Kind.reached withClasses kinds) :
    .metadata ∈ Kind.reached withClasses kinds ∧
      .entityMetadata ∈ Kind.reached withClasses kinds ∧
      .valueMetadata ∈ Kind.reached withClasses kinds := by
  rcases h.kind with hkind | hkind
  all_goals
    rw [hkind] at hj
    refine ⟨Kind.mem_reached_of_dependents hj (by simp [Kind.dependents]), ?_, ?_⟩
    all_goals first
      | exact hj
      | exact Kind.mem_reached_of_dependents hj (by simp [Kind.dependents])

/-- What goes with some roots has a kind in reach of theirs, and goes with them in every snapshot
with the same tables of these kinds. -/
theorem goes_of_agree {kinds : List Kind} {roots : List Node}
    (hagree : ∀ k ∈ Kind.reached withClasses kinds, s.table k = t.table k)
    (hroots : ∀ n ∈ roots, n.1 ∈ kinds) {n : Node} (h : (s.links withClasses).Goes roots n) :
    n.1 ∈ Kind.reached withClasses kinds ∧ (t.links withClasses).Goes roots n := by
  induction h with
  | root h => exact ⟨Kind.mem_reached_of_mem (hroots _ h), .root h⟩
  | @owned owner n h _ ih =>
    have htakes := mem_links_owned.1 h
    have hkind : n.1 ∈ Kind.reached withClasses kinds := by
      rcases htakes.kind with hsame | hnext
      · rw [hsame]
        exact ih.1
      · exact Kind.mem_reached_of_dependents ih.1 hnext
    exact ⟨hkind, .owned (mem_links_owned.2 (htakes.of_table_eq (hagree _ hkind))) ih.2⟩
  | orphaned used _ ih =>
    rcases used with ⟨j, hj⟩
    rcases (mem_links_joins.1 hj).reached (ih j hj).1 with ⟨hmetadata, hentity, hvalue⟩
    have hjoins : (s.links withClasses).joins = (t.links withClasses).joins :=
      joins_congr (hagree _ hentity) (hagree _ hvalue)
    refine ⟨hmetadata, .orphaned ⟨j, hjoins ▸ hj⟩ fun j' hj' => (ih j' ?_).2⟩
    rw [hjoins]
    exact hj'

/-- Snapshots with the same tables of the kinds in reach have the same removal set. -/
theorem removalSet_congr {roots : IdMap}
    (hagree : ∀ k ∈ Kind.reached withClasses roots.kinds, s.table k = t.table k) :
    s.removalSet withClasses roots = t.removalSet withClasses roots := by
  have hroots (n : Node) (hn : n ∈ roots.nodes) : n.1 ∈ roots.kinds :=
    IdMap.mem_kinds_of_mem_nodes hn
  apply IdMap.ext_has (IdMap.dense_ofNodes _) (IdMap.dense_ofNodes _)
  intro k i
  rw [Bool.eq_iff_iff]
  simp only [has_closure]
  constructor
  · intro h
    exact (goes_of_agree hagree hroots h).2
  · intro h
    exact (goes_of_agree (fun k hk => (hagree k hk).symm) hroots h).2

theorem mem_reached_of_mem_removalSet {roots : IdMap} {k : Kind}
    (h : k ∈ (s.removalSet withClasses roots).keys) :
    k ∈ Kind.reached withClasses roots.kinds := by
  rcases IdMap.exists_has_of_mem_keys (IdMap.dense_ofNodes _) h with ⟨i, hi⟩
  exact (goes_of_agree (fun _ _ => rfl) (fun _ hn => IdMap.mem_kinds_of_mem_nodes hn)
    (has_closure.1 hi)).1

/-- The snapshot with the tables of some kinds only, loaded for these. -/
def restrict (s : Snapshot) (kinds : List Kind) : Snapshot :=
  ⟨.ofFn fun k => if k ∈ kinds then s.table k else ∅, .ofFn fun k => decide (k ∈ kinds)⟩

theorem table_restrict (s : Snapshot) (kinds : List Kind) (k : Kind) :
    (s.restrict kinds).table k = if k ∈ kinds then s.table k else ∅ :=
  ByKind.get_ofFn _ k

theorem isLoaded_restrict (s : Snapshot) (kinds : List Kind) (k : Kind) :
    (s.restrict kinds).isLoaded k = decide (k ∈ kinds) :=
  ByKind.get_ofFn _ k

/-- A load for some kinds gives these as a load for all kinds does. -/
theorem load_eq_restrict {store : Store} {kinds : List Kind} (h : load store [] = .ok s)
    (hkinds : kinds ≠ []) : load store kinds = .ok (s.restrict kinds) := by
  rw [load_kinds_iff, requested, if_neg hkinds]
  intro k
  rw [table_restrict, isLoaded_restrict]
  by_cases hk : k ∈ kinds
  · simp [hk, (load_eq_ok_iff.1 h k).1]
  · simp [hk]

end Snapshot

namespace Store

/-- Every record of the store can be read as a row of its kind. -/
def Readable (store : Store) : Prop :=
  ∀ k, ∀ r ∈ store.records k, ∃ row, Row.ofRecord k r = .ok row

theorem exists_open_iff {store : Store} :
    (∃ session, Session.open store = .ok session) ↔ store.Readable := by
  constructor
  · rintro ⟨session, hopen⟩ k r hr
    have hreads := (Workspace.inStep_iff.1 (Workspace.inStep_of_open hopen) k).1 r.id
    rw [Ascending.mem_iff_find?.1 hr] at hreads
    rcases Option.map_eq_some_iff.1 hreads.symm with ⟨row, _, hrow⟩
    exact ⟨row, hrow.symm⟩
  · intro h
    have htable (k : Kind) : ∃ t, (store.table k).Reads k t := by
      rcases exists_mapM_eq_ok (h k) with ⟨rows, hrows⟩
      exact ⟨.ofList rows, RecordTable.ofRecords_eq_ok_iff.1 (by
        rw [Table.ofRecords, ← records, hrows]
        rfl)⟩
    choose t ht using htable
    have hload : Snapshot.load store [] = .ok ⟨.ofFn t, .ofFn fun _ => true⟩ := by
      refine Snapshot.load_eq_ok_iff.2 fun k => ⟨?_, ByKind.get_ofFn _ k⟩
      rw [Snapshot.table, ByKind.get_ofFn]
      exact ht k
    exact ⟨⟨_, ∅, ∅⟩, by rw [Session.open, hload]; rfl⟩

/-- Loaded for the kinds in reach only, the store has the removal set that all its rows give. -/
theorem cascade_of_load (o : Options) {store : Store} {s : Snapshot} (roots : IdMap)
    (h : Snapshot.load store [] = .ok s) :
    (store.cascade o roots).outcome = .ok (s.removalSet o.withClasses roots) := by
  by_cases hnone : roots.kinds = []
  · have hempty : roots.nodes = [] := by
      apply List.eq_nil_iff_forall_not_mem.2
      intro n hn
      have hkind := IdMap.mem_kinds_of_mem_nodes hn
      rw [hnone] at hkind
      cases hkind
    rw [cascade, if_pos hnone, Snapshot.removalSet_of_nodes_eq_nil s _ hempty]
    rfl
  · have hkinds : Kind.reached o.withClasses roots.kinds ≠ [] := by
      rcases List.exists_mem_of_ne_nil _ hnone with ⟨k, hk⟩
      exact List.ne_nil_of_mem (Kind.mem_reached_of_mem hk)
    have hloaded (k : Kind) (hk : k ∈ Kind.reached o.withClasses roots.kinds) :
        (s.restrict (Kind.reached o.withClasses roots.kinds)).isLoaded k = true := by
      rw [Snapshot.isLoaded_restrict, decide_eq_true hk]
    have hsame : (s.restrict (Kind.reached o.withClasses roots.kinds)).removalSet o.withClasses
        roots = s.removalSet o.withClasses roots := by
      apply Snapshot.removalSet_congr
      intro k hk
      rw [Snapshot.table_restrict, if_pos hk]
    rw [cascade, if_neg hnone]
    dsimp only
    rw [Snapshot.load_eq_restrict h hkinds]
    dsimp only
    rw [Snapshot.cascade_eq_ok roots hloaded]
    exact congrArg Except.ok hsame

/-- On a store that can be read, a cascade that loads only the kinds in reach of the roots gives
what it gives in a session just opened, and only kinds in reach are in it. -/
theorem cascade_of_readable (o : Options) (store : Store) (roots : IdMap) (h : store.Readable) :
    ∃ session removed, Session.open store = .ok session ∧
      ((⟨store, session⟩ : Workspace).cascade o roots).outcome = .ok removed ∧
      (store.cascade o roots).outcome = .ok removed ∧
      ∀ k ∈ removed.keys, k ∈ Kind.reached o.withClasses roots.kinds := by
  rcases exists_open_iff.2 h with ⟨session, hopen⟩
  have hload := Workspace.inStep_of_open hopen
  refine ⟨session, session.snapshot.removalSet o.withClasses roots, hopen, ?_,
    cascade_of_load o roots hload, fun k hk => Snapshot.mem_reached_of_mem_removalSet hk⟩
  have hall := hload.cascade o.withClasses roots
  dsimp only at hall
  rw [Workspace.cascade, hall]
  rfl

theorem cascade_pumps :
    Workspace.pumps.Readable ∧
    ∃ session removed, Session.open Workspace.pumps = .ok session ∧
      ((⟨Workspace.pumps, session⟩ : Workspace).cascade {}
        (.ofNodes [(.valueList, 2)])).outcome = .ok removed ∧
      (Workspace.pumps.cascade {} (.ofNodes [(.valueList, 2)])).outcome = .ok removed ∧
      ∀ k ∈ removed.keys,
        k ∈ Kind.reached false (IdMap.ofNodes [(Kind.valueList, (2 : Id))]).kinds :=
  have hread := exists_open_iff.1 ⟨_, Workspace.open_pumps⟩
  ⟨hread, cascade_of_readable {} Workspace.pumps (.ofNodes [(.valueList, 2)]) hread⟩

end Store

end EntityStore
