import EntityStore.Proofs.Cascade.RemovalSet
/-!
# Removal sets of several roots

More roots have a larger removal set, and roots that are in the removal set already add nothing to
it. What goes with two sets of roots together goes with one of them, but for metadata that each of
them leaves a join of: it takes both to orphan it (`cascade_merge`).
-/
namespace EntityStore.Snapshot
variable {s : Snapshot} {withClasses : Bool} {A B a b : IdMap}

theorem IsRemovalSet.mono (ha : s.IsRemovalSet withClasses A a)
    (hb : s.IsRemovalSet withClasses B b) (hsub : ∀ k i, A.has k i = true → B.has k i = true)
    (k : Kind) (i : Id) (h : a.has k i = true) : b.has k i = true :=
  ha.least b (fun k i hA => hb.holdsRoots k i (hsub k i hA)) hb.closed k i h

theorem IsRemovalSet.eq_of_between (ha : s.IsRemovalSet withClasses A a)
    (hb : s.IsRemovalSet withClasses B b) (hsub : ∀ k i, A.has k i = true → B.has k i = true)
    (hwithin : ∀ k i, B.has k i = true → a.has k i = true) : b = a := by
  apply IdMap.ext_has hb.dense ha.dense
  intro k i
  rw [Bool.eq_iff_iff]
  exact ⟨hb.least a hwithin ha.closed k i, ha.mono hb hsub k i⟩

theorem joinOf_of_takes_metadata {m : Id} {n : Node} (h : s.Takes withClasses (.metadata, m) n) :
    s.JoinOf m n := by
  cases h with
  | entityJoinOfMetadata h => exact .entity h
  | valueJoinOfMetadata h => exact .value h

/-- Metadata that is in use by joins in one or the other of two maps only. -/
def OrphanedBy (s : Snapshot) (a b : IdMap) (m : Id) : Prop :=
  (∃ j, s.JoinOf m j) ∧ ∀ j, s.JoinOf m j → a.has j.1 j.2 = true ∨ b.has j.1 j.2 = true

/-- What goes with roots that are in two closed maps is in one of these, or is metadata that only
rows in them use. -/
theorem has_or_orphanedBy_of_goes {roots : List Node} (ha : s.IsClosed withClasses a)
    (hb : s.IsClosed withClasses b)
    (hroots : ∀ n ∈ roots, a.has n.1 n.2 = true ∨ b.has n.1 n.2 = true) {n : Node}
    (h : (s.links withClasses).Goes roots n) :
    (a.has n.1 n.2 = true ∨ b.has n.1 n.2 = true) ∨ n.1 = .metadata ∧ s.OrphanedBy a b n.2 := by
  induction h with
  | root h => exact Or.inl (hroots _ h)
  | @owned owner n h _ ih =>
    have htakes := mem_links_owned.1 h
    apply Or.inl
    rcases ih with (hin | hin) | ⟨hkind, horphaned⟩
    · exact Or.inl (ha.takes _ _ htakes hin)
    · exact Or.inr (hb.takes _ _ htakes hin)
    · rcases owner with ⟨k, m⟩
      obtain rfl : k = .metadata := hkind
      exact horphaned.2 n (joinOf_of_takes_metadata htakes)
  | @orphaned m used _ ih =>
    have hjoins (j : Node) (hj : s.JoinOf m j) : a.has j.1 j.2 = true ∨ b.has j.1 j.2 = true := by
      rcases ih j (mem_links_joins.2 hj) with hin | ⟨hkind, _⟩
      · exact hin
      · cases hj <;> cases hkind
    rcases used with ⟨j, hj⟩
    exact Or.inr ⟨rfl, ⟨j, mem_links_joins.1 hj⟩, hjoins⟩

/-- The removal set of two sets of roots together. -/
theorem has_removalSet_merge {both : IdMap} (ha : s.IsRemovalSet withClasses A a)
    (hb : s.IsRemovalSet withClasses B b) (hboth : s.IsRemovalSet withClasses (A.merge B) both)
    (k : Kind) (i : Id) :
    both.has k i = true ↔
      (a.has k i = true ∨ b.has k i = true) ∨ k = .metadata ∧ s.OrphanedBy a b i := by
  have hleft := ha.mono hboth fun k i h => by rw [IdMap.has_merge, h, Bool.true_or]
  have hright := hb.mono hboth fun k i h => by rw [IdMap.has_merge, h, Bool.or_true]
  constructor
  · intro h
    have hgoes := hboth.unique (isRemovalSet_closure s withClasses _)
    rw [hgoes, has_closure] at h
    refine has_or_orphanedBy_of_goes ha.closed hb.closed (fun n hn => ?_) h
    rw [IdMap.mem_nodes, IdMap.has_merge, Bool.or_eq_true] at hn
    exact hn.imp (ha.holdsRoots _ _) (hb.holdsRoots _ _)
  · rintro ((h | h) | ⟨rfl, hused, hjoins⟩)
    · exact hleft k i h
    · exact hright k i h
    · refine hboth.closed.metadata i hused fun j hj => ?_
      exact (hjoins j hj).elim (hleft j.1 j.2) (hright j.1 j.2)

/-- A cascade does not depend on how its roots are given: with those that are in it already it is
the same, and two of them together hold what each of them holds, and besides the metadata whose
joins are all in the one or the other. -/
theorem cascade_merge (s : Snapshot) (withClasses : Bool) (A B : IdMap)
    (hcomplete : s.isComplete = true) :
    ∃ a b both, s.cascade withClasses A = .ok a ∧ s.cascade withClasses B = .ok b ∧
      s.cascade withClasses (A.merge B) = .ok both ∧
      ((∀ k i, A.has k i = true → B.has k i = true) →
        (∀ k i, B.has k i = true → a.has k i = true) → b = a) ∧
      ∀ k i, both.has k i = true ↔
        (a.has k i = true ∨ b.has k i = true) ∨ k = .metadata ∧ s.OrphanedBy a b i := by
  have hok (roots : IdMap) : s.cascade withClasses roots =
      .ok (.ofNodes (s.closure withClasses roots.nodes)) :=
    cascade_eq_ok roots fun k _ => List.all_eq_true.1 hcomplete k (Kind.mem_all k)
  have hset := isRemovalSet_closure s withClasses
  exact ⟨_, _, _, hok A, hok B, hok (A.merge B), (hset A).eq_of_between (hset B),
    has_removalSet_merge (hset A) (hset B) (hset (A.merge B))⟩

/-- Metadata that two entities share. -/
def sharedMetadata : Snapshot :=
  (Snapshot.empty.put .entityMetadata ⟨1, 1, 3⟩).put .entityMetadata ⟨2, 2, 3⟩

theorem cascade_sharedMetadata :
    sharedMetadata.isComplete = true ∧
    ∃ a b both, sharedMetadata.cascade false (.ofNodes [(.entity, 1)]) = .ok a ∧
      sharedMetadata.cascade false (.ofNodes [(.entity, 2)]) = .ok b ∧
      sharedMetadata.cascade false
        ((IdMap.ofNodes [(.entity, 1)]).merge (.ofNodes [(.entity, 2)])) = .ok both ∧
      ((∀ k i, (IdMap.ofNodes [(.entity, 1)]).has k i = true →
          (IdMap.ofNodes [(.entity, 2)]).has k i = true) →
        (∀ k i, (IdMap.ofNodes [(.entity, 2)]).has k i = true → a.has k i = true) → b = a) ∧
      ∀ k i, both.has k i = true ↔
        (a.has k i = true ∨ b.has k i = true) ∨
          k = .metadata ∧ sharedMetadata.OrphanedBy a b i :=
  ⟨by decide, cascade_merge sharedMetadata false (.ofNodes [(.entity, 1)])
    (.ofNodes [(.entity, 2)]) (by decide)⟩

end EntityStore.Snapshot
