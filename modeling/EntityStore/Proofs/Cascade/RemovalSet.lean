import EntityStore.Cascade
import EntityStore.Proofs.Cascade.Traversal
import EntityStore.Proofs.IdMap
import EntityStore.Proofs.Snapshot.Rows
import Mathlib.Data.List.Permutation
/-!
# The removal set of some roots

`Snapshot.Takes` lists, reference by reference, which rows a row takes along when it is removed, and
`Snapshot.JoinOf` the joins that use a piece of metadata. A removal set is the least map of rows
that holds its roots, what its rows take along, and the metadata whose joins are all in it. Whatever
the rows of a snapshot refer to, a cascade ends with that set and no other (`cascade_isLeast`).
-/
namespace EntityStore.Snapshot

/-- `s.Takes withClasses a b`: removing the row `a` takes the row `b` along. -/
inductive Takes (s : Snapshot) (withClasses : Bool) : Node → Node → Prop where
  | entityOfClass {e : Entity} (h : e ∈ s.rows .entity) :
    Takes s withClasses (.entityClass, e.classId) (.entity, e.id)
  | definitionOfClass {d : ParameterDefinition} (h : d ∈ s.rows .parameterDefinition) :
    Takes s withClasses (.entityClass, d.entityClassId) (.parameterDefinition, d.id)
  | groupOfClass {g : EntityGroup} (h : g ∈ s.rows .entityGroup) :
    Takes s withClasses (.entityClass, g.entityClassId) (.entityGroup, g.id)
  | classOfMember {c : EntityClass} {member : Id} (h : c ∈ s.rows .entityClass)
    (hw : withClasses = true) (hm : member ∈ c.memberClassIds) :
    Takes s withClasses (.entityClass, member) (.entityClass, c.id)
  | relationshipOfMember {e : Entity} {member : Id} (h : e ∈ s.rows .entity)
    (hm : member ∈ e.memberIds) : Takes s withClasses (.entity, member) (.entity, e.id)
  | valueOfEntity {v : ParameterValue} (h : v ∈ s.rows .parameterValue) :
    Takes s withClasses (.entity, v.entityId) (.parameterValue, v.id)
  | groupOfEntity {g : EntityGroup} (h : g ∈ s.rows .entityGroup) :
    Takes s withClasses (.entity, g.entityId) (.entityGroup, g.id)
  | groupOfMember {g : EntityGroup} (h : g ∈ s.rows .entityGroup) :
    Takes s withClasses (.entity, g.memberId) (.entityGroup, g.id)
  | joinOfEntity {j : EntityMetadata} (h : j ∈ s.rows .entityMetadata) :
    Takes s withClasses (.entity, j.entityId) (.entityMetadata, j.id)
  | valueOfDefinition {v : ParameterValue} (h : v ∈ s.rows .parameterValue) :
    Takes s withClasses (.parameterDefinition, v.parameterDefinitionId) (.parameterValue, v.id)
  | featureOfDefinition {f : Feature} (h : f ∈ s.rows .feature) :
    Takes s withClasses (.parameterDefinition, f.parameterDefinitionId) (.feature, f.id)
  | tagOfDefinition {t : DefinitionTag} (h : t ∈ s.rows .definitionTag) :
    Takes s withClasses (.parameterDefinition, t.parameterDefinitionId) (.definitionTag, t.id)
  | joinOfValue {j : ValueMetadata} (h : j ∈ s.rows .valueMetadata) :
    Takes s withClasses (.parameterValue, j.parameterValueId) (.valueMetadata, j.id)
  | listValueOfList {v : ListValue} (h : v ∈ s.rows .listValue) :
    Takes s withClasses (.valueList, v.parameterValueListId) (.listValue, v.id)
  | featureOfList {f : Feature} (h : f ∈ s.rows .feature) :
    Takes s withClasses (.valueList, f.parameterValueListId) (.feature, f.id)
  | valueOfAlternative {v : ParameterValue} (h : v ∈ s.rows .parameterValue) :
    Takes s withClasses (.alternative, v.alternativeId) (.parameterValue, v.id)
  | placeOfAlternative {a : ScenarioAlternative} (h : a ∈ s.rows .scenarioAlternative) :
    Takes s withClasses (.alternative, a.alternativeId) (.scenarioAlternative, a.id)
  | placeOfScenario {a : ScenarioAlternative} (h : a ∈ s.rows .scenarioAlternative) :
    Takes s withClasses (.scenario, a.scenarioId) (.scenarioAlternative, a.id)
  | definitionTagOfTag {t : DefinitionTag} (h : t ∈ s.rows .definitionTag) :
    Takes s withClasses (.parameterTag, t.parameterTagId) (.definitionTag, t.id)
  | toolFeatureOfFeature {t : ToolFeature} (h : t ∈ s.rows .toolFeature) :
    Takes s withClasses (.feature, t.featureId) (.toolFeature, t.id)
  | toolFeatureOfTool {t : ToolFeature} (h : t ∈ s.rows .toolFeature) :
    Takes s withClasses (.tool, t.toolId) (.toolFeature, t.id)
  | methodOfToolFeature {m : ToolFeatureMethod} (h : m ∈ s.rows .toolFeatureMethod) :
    Takes s withClasses (.toolFeature, m.toolFeatureId) (.toolFeatureMethod, m.id)
  | entityJoinOfMetadata {j : EntityMetadata} (h : j ∈ s.rows .entityMetadata) :
    Takes s withClasses (.metadata, j.metadataId) (.entityMetadata, j.id)
  | valueJoinOfMetadata {j : ValueMetadata} (h : j ∈ s.rows .valueMetadata) :
    Takes s withClasses (.metadata, j.metadataId) (.valueMetadata, j.id)

/-- `s.JoinOf m j`: the row `j` is a join that uses the metadata `m`, which may not exist. -/
inductive JoinOf (s : Snapshot) : Id → Node → Prop where
  | entity {j : EntityMetadata} (h : j ∈ s.rows .entityMetadata) :
    JoinOf s j.metadataId (.entityMetadata, j.id)
  | value {j : ValueMetadata} (h : j ∈ s.rows .valueMetadata) :
    JoinOf s j.metadataId (.valueMetadata, j.id)

/-- With its rows, a map holds what they take along and the metadata that only they use. -/
structure IsClosed (s : Snapshot) (withClasses : Bool) (m : IdMap) : Prop where
  takes : ∀ a b, s.Takes withClasses a b → m.has a.1 a.2 = true → m.has b.1 b.2 = true
  metadata : ∀ i, (∃ j, s.JoinOf i j) → (∀ j, s.JoinOf i j → m.has j.1 j.2 = true) →
    m.has .metadata i = true

theorem IsClosed.stays {s : Snapshot} {withClasses : Bool} {m : IdMap}
    (hclosed : s.IsClosed withClasses m) {k j : Kind} {owner i : Id}
    (htakes : s.Takes withClasses (k, owner) (j, i)) (h : m.has j i = false) :
    m.has k owner = false := by
  rw [← Bool.not_eq_true] at *
  exact fun hgoes => h (hclosed.takes _ _ htakes hgoes)

/-- The least closed map that holds the roots, without empty kinds. -/
structure IsRemovalSet (s : Snapshot) (withClasses : Bool) (roots m : IdMap) : Prop where
  dense : m.Dense
  holdsRoots : ∀ k i, roots.has k i = true → m.has k i = true
  closed : s.IsClosed withClasses m
  least : ∀ m' : IdMap, (∀ k i, roots.has k i = true → m'.has k i = true) →
    s.IsClosed withClasses m' → ∀ k i, m.has k i = true → m'.has k i = true

theorem IsRemovalSet.unique {s : Snapshot} {withClasses : Bool} {roots m n : IdMap}
    (hm : s.IsRemovalSet withClasses roots m) (hn : s.IsRemovalSet withClasses roots n) :
    m = n := by
  apply IdMap.ext_has hm.dense hn.dense
  intro k i
  rw [Bool.eq_iff_iff]
  exact ⟨hm.least n hn.holdsRoots hn.closed k i, hn.least m hm.holdsRoots hm.closed k i⟩

section Links
variable {s : Snapshot} {withClasses : Bool}

theorem mem_ownedRows {owner n : Node} :
    (owner, n) ∈ s.ownedRows withClasses ↔
      ∃ row, s.find? n.1 n.2 = some row ∧ owner ∈ Row.owners withClasses n.1 row := by
  rcases n with ⟨k, i⟩
  simp only [ownedRows, List.mem_flatMap, List.mem_map, Prod.mk.injEq]
  constructor
  · rintro ⟨k', _, row, hrow, o, ho, rfl, rfl, rfl⟩
    exact ⟨row, mem_rows_iff.1 hrow, ho⟩
  · rintro ⟨row, hrow, ho⟩
    rcases find?_eq_some_iff.1 hrow with ⟨hmem, hi⟩
    exact ⟨k, Kind.mem_all k, row, hmem, owner, ho, rfl, rfl, hi⟩

theorem mem_joins {j : Node} {m : Id} : (j, m) ∈ s.joins ↔ s.JoinOf m j := by
  simp only [joins, List.mem_append, List.mem_map, Prod.mk.injEq]
  constructor
  · rintro (⟨r, hr, rfl, rfl⟩ | ⟨r, hr, rfl, rfl⟩)
    · exact .entity hr
    · exact .value hr
  · rintro (hr | hr)
    · exact Or.inl ⟨_, hr, rfl, rfl⟩
    · exact Or.inr ⟨_, hr, rfl, rfl⟩

theorem takes_iff {a b : Node} :
    s.Takes withClasses a b ↔
      ∃ row, s.find? b.1 b.2 = some row ∧ a ∈ Row.owners withClasses b.1 row := by
  constructor
  · intro h
    cases h with
    | classOfMember h hw hm =>
      exact ⟨_, mem_rows_iff.1 h, by simpa [Row.owners, hw] using hm⟩
    | relationshipOfMember h hm => exact ⟨_, mem_rows_iff.1 h, by simpa [Row.owners] using hm⟩
    | _ h => exact ⟨_, mem_rows_iff.1 h, by simp [Row.owners]⟩
  · rcases b with ⟨k, i⟩
    rintro ⟨row, hrow, ha⟩
    dsimp only at row hrow ha
    rcases find?_eq_some_iff.1 hrow with ⟨h, rfl⟩
    cases k with
    | entityClass =>
      simp only [Row.owners] at ha
      split at ha
      next hw =>
        rcases List.mem_map.1 ha with ⟨member, hm, rfl⟩
        exact .classOfMember h hw hm
      next => cases ha
    | entity =>
      simp only [Row.owners, List.mem_cons, List.mem_map] at ha
      rcases ha with rfl | ⟨member, hm, rfl⟩
      · exact .entityOfClass h
      · exact .relationshipOfMember h hm
    | entityGroup =>
      simp only [Row.owners, List.mem_cons, List.not_mem_nil, or_false] at ha
      rcases ha with rfl | rfl | rfl
      · exact .groupOfClass h
      · exact .groupOfEntity h
      · exact .groupOfMember h
    | parameterDefinition =>
      obtain rfl := List.mem_singleton.1 ha
      exact .definitionOfClass h
    | parameterValue =>
      simp only [Row.owners, List.mem_cons, List.not_mem_nil, or_false] at ha
      rcases ha with rfl | rfl | rfl
      · exact .valueOfEntity h
      · exact .valueOfDefinition h
      · exact .valueOfAlternative h
    | listValue =>
      obtain rfl := List.mem_singleton.1 ha
      exact .listValueOfList h
    | scenarioAlternative =>
      simp only [Row.owners, List.mem_cons, List.not_mem_nil, or_false] at ha
      rcases ha with rfl | rfl
      · exact .placeOfScenario h
      · exact .placeOfAlternative h
    | definitionTag =>
      simp only [Row.owners, List.mem_cons, List.not_mem_nil, or_false] at ha
      rcases ha with rfl | rfl
      · exact .tagOfDefinition h
      · exact .definitionTagOfTag h
    | feature =>
      simp only [Row.owners, List.mem_cons, List.not_mem_nil, or_false] at ha
      rcases ha with rfl | rfl
      · exact .featureOfDefinition h
      · exact .featureOfList h
    | toolFeature =>
      simp only [Row.owners, List.mem_cons, List.not_mem_nil, or_false] at ha
      rcases ha with rfl | rfl
      · exact .toolFeatureOfFeature h
      · exact .toolFeatureOfTool h
    | toolFeatureMethod =>
      obtain rfl := List.mem_singleton.1 ha
      exact .methodOfToolFeature h
    | entityMetadata =>
      simp only [Row.owners, List.mem_cons, List.not_mem_nil, or_false] at ha
      rcases ha with rfl | rfl
      · exact .joinOfEntity h
      · exact .entityJoinOfMetadata h
    | valueMetadata =>
      simp only [Row.owners, List.mem_cons, List.not_mem_nil, or_false] at ha
      rcases ha with rfl | rfl
      · exact .joinOfValue h
      · exact .valueJoinOfMetadata h
    | valueList | alternative | scenario | parameterTag | tool | metadata => cases ha

theorem mem_links_owned {a b : Node} :
    (a, b) ∈ (s.links withClasses).owned ↔ s.Takes withClasses a b :=
  mem_ownedRows.trans takes_iff.symm

theorem mem_links_joins {j : Node} {m : Id} :
    (j, m) ∈ (s.links withClasses).joins ↔ s.JoinOf m j :=
  mem_joins

/-- What goes with some roots is in every closed map that holds them. -/
theorem has_of_goes {roots : List Node} {m : IdMap} (hr : ∀ n ∈ roots, m.has n.1 n.2 = true)
    (hm : s.IsClosed withClasses m) {n : Node} (h : (s.links withClasses).Goes roots n) :
    m.has n.1 n.2 = true := by
  induction h with
  | root h => exact hr _ h
  | owned h _ ih => exact hm.takes _ _ (mem_links_owned.1 h) ih
  | @orphaned i used _ ih =>
    rcases used with ⟨j, hj⟩
    exact hm.metadata i ⟨j, mem_links_joins.1 hj⟩ fun j hj => ih j (mem_links_joins.2 hj)

theorem has_closure {roots : List Node} {k : Kind} {i : Id} :
    (IdMap.ofNodes (s.closure withClasses roots)).has k i = true ↔
      (s.links withClasses).Goes roots (k, i) := by
  rw [IdMap.has_ofNodes, decide_eq_true_iff, closure, Links.mem_reach_iff]

theorem isClosed_closure (s : Snapshot) (withClasses : Bool) (roots : List Node) :
    s.IsClosed withClasses (IdMap.ofNodes (s.closure withClasses roots)) where
  takes _ _ hab ha :=
    have hgoes := has_closure.1 ha
    has_closure.2 (.owned (mem_links_owned.2 hab) hgoes)
  metadata i hused hall := by
    rcases hused with ⟨j, hj⟩
    refine has_closure.2 (.orphaned ⟨j, mem_links_joins.2 hj⟩ fun j hj => ?_)
    exact has_closure.1 (hall j (mem_links_joins.1 hj))

theorem isRemovalSet_closure (s : Snapshot) (withClasses : Bool) (roots : IdMap) :
    s.IsRemovalSet withClasses roots (IdMap.ofNodes (s.closure withClasses roots.nodes)) where
  dense := IdMap.dense_ofNodes _
  holdsRoots _ _ h := has_closure.2 (.root (IdMap.mem_nodes.2 h))
  closed := isClosed_closure s withClasses roots.nodes
  least _ hroots hclosed _ _ h :=
    has_of_goes (fun n hn => hroots n.1 n.2 (IdMap.mem_nodes.1 hn)) hclosed (has_closure.1 h)

theorem cascade_eq_ok (roots : IdMap)
    (h : ∀ k ∈ Kind.reached withClasses roots.kinds, s.isLoaded k = true) :
    s.cascade withClasses roots = .ok (.ofNodes (s.closure withClasses roots.nodes)) := by
  have hnone : (Kind.reached withClasses roots.kinds).find? (fun k => !s.isLoaded k) = none :=
    List.find?_eq_none.2 fun k hk => by simp [h k hk]
  rw [cascade, hnone]

theorem eq_of_cascade_eq_ok {roots m : IdMap} (h : s.cascade withClasses roots = .ok m) :
    m = .ofNodes (s.closure withClasses roots.nodes) := by
  unfold cascade at h
  split at h
  next => cases h
  next => exact (Except.ok.inj h).symm

/-- On a snapshot that holds the kinds in reach of the roots, a cascade has a result, and a map is
the result exactly when it is the removal set of the roots. -/
theorem cascade_isLeast (s : Snapshot) (withClasses : Bool) (roots : IdMap)
    (h : ∀ k ∈ Kind.reached withClasses roots.kinds, s.isLoaded k = true) :
    (∃ m, s.cascade withClasses roots = .ok m) ∧
      ∀ m, s.cascade withClasses roots = .ok m ↔ s.IsRemovalSet withClasses roots m := by
  have hset := isRemovalSet_closure s withClasses roots
  rw [cascade_eq_ok roots h]
  refine ⟨⟨_, rfl⟩, fun m => ?_⟩
  rw [Except.ok.injEq]
  constructor
  · rintro rfl
    exact hset
  · exact hset.unique

end Links

/-- An entity of a class that does not exist, with the only join of metadata that does not. -/
def danglingJoin : Snapshot :=
  (Snapshot.empty.put .entity ⟨1, 7, "tank", none, []⟩).put .entityMetadata ⟨2, 1, 3⟩

theorem isRemovalSet_danglingJoin :
    danglingJoin.IsRemovalSet false (.ofNodes [(.entityClass, 7)])
      (.ofNodes [(.entityClass, 7), (.entity, 1), (.entityMetadata, 2), (.metadata, 3)]) := by
  have hloaded (k : Kind) (_ : k ∈ Kind.reached false (IdMap.ofNodes [(.entityClass, 7)]).kinds) :
      danglingJoin.isLoaded k = true := by
    cases k <;> rfl
  apply ((cascade_isLeast danglingJoin false (.ofNodes [(.entityClass, 7)]) hloaded).2 _).1
  cbv

end EntityStore.Snapshot
