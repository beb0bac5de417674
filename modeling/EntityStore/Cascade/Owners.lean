import EntityStore.Cascade.Walk
import EntityStore.Snapshot
/-!
# What a row depends on

A row goes when one of its owners goes. Metadata has no owner of its own: it goes with the last of
the joins that use it.
-/
namespace EntityStore

namespace Row

/-- The rows that take a row along when they are removed. A relationship class depends on its
member classes only if `withClasses` says so. -/
def owners (withClasses : Bool) : (k : Kind) → Row k → List Node
  | .entityClass => fun r =>
    if withClasses then r.memberClassIds.map fun i => (.entityClass, i) else []
  | .entity => fun r => (.entityClass, r.classId) :: r.memberIds.map fun i => (.entity, i)
  | .entityGroup => fun r =>
    [(.entityClass, r.entityClassId), (.entity, r.entityId), (.entity, r.memberId)]
  | .parameterDefinition => fun r => [(.entityClass, r.entityClassId)]
  | .parameterValue => fun r =>
    [(.entity, r.entityId), (.parameterDefinition, r.parameterDefinitionId),
      (.alternative, r.alternativeId)]
  | .listValue => fun r => [(.valueList, r.parameterValueListId)]
  | .scenarioAlternative => fun r => [(.scenario, r.scenarioId), (.alternative, r.alternativeId)]
  | .definitionTag => fun r =>
    [(.parameterDefinition, r.parameterDefinitionId), (.parameterTag, r.parameterTagId)]
  | .feature => fun r =>
    [(.parameterDefinition, r.parameterDefinitionId), (.valueList, r.parameterValueListId)]
  | .toolFeature => fun r => [(.feature, r.featureId), (.tool, r.toolId)]
  | .toolFeatureMethod => fun r => [(.toolFeature, r.toolFeatureId)]
  | .entityMetadata => fun r => [(.entity, r.entityId), (.metadata, r.metadataId)]
  | .valueMetadata => fun r => [(.parameterValue, r.parameterValueId), (.metadata, r.metadataId)]
  | .valueList | .alternative | .scenario | .parameterTag | .tool | .metadata => fun _ => []

end Row

namespace Snapshot

/-- Every row that has owners, once for each of them. -/
def ownedRows (s : Snapshot) (withClasses : Bool) : List (Node × Node) :=
  Kind.all.flatMap fun k => (s.table k).toList.flatMap fun row =>
    (Row.owners withClasses k row).map fun owner => (owner, (k, Row.id k row))

/-- The joins of both sorts, each with the metadata that it uses. -/
def joins (s : Snapshot) : List (Node × Id) :=
  (s.table .entityMetadata).toList.map (fun j => ((.entityMetadata, j.id), j.metadataId)) ++
    (s.table .valueMetadata).toList.map fun j => ((.valueMetadata, j.id), j.metadataId)

theorem nodup_ids (s : Snapshot) (k : Kind) : ((s.table k).toList.map (Row.id k)).Nodup :=
  List.pairwise_map.2 ((s.table k).ascending.imp Ascending.key_ne_of_lt)

theorem nodup_map_joins (s : Snapshot) : (s.joins.map (·.1)).Nodup := by
  simp only [joins, List.map_append, List.map_map]
  refine List.nodup_append.2 ⟨?_, ?_, ?_⟩
  · exact List.pairwise_map.2 ((List.pairwise_map.1 (s.nodup_ids .entityMetadata)).imp
      fun h he => h (congrArg Prod.snd he))
  · exact List.pairwise_map.2 ((List.pairwise_map.1 (s.nodup_ids .valueMetadata)).imp
      fun h he => h (congrArg Prod.snd he))
  · intro a ha b hb hab
    obtain ⟨_, _, rfl⟩ := List.mem_map.1 ha
    obtain ⟨_, _, rfl⟩ := List.mem_map.1 hb
    cases congrArg Prod.fst hab

/-- The links between the rows of a snapshot. -/
def links (s : Snapshot) (withClasses : Bool) : Links :=
  ⟨s.ownedRows withClasses, s.joins, s.nodup_map_joins⟩

end Snapshot

end EntityStore
