import EntityStore.Proofs.Engine.Change
/-!
# References resolve

A snapshot is resolved when every reference of its rows leads to a row. Valid rows only refer to
rows that exist, a row goes with each of the rows that it refers to, and definitions are detached
from lists that go; so checked calls keep a resolved snapshot resolved (`Resolved.change`). Member
classes are the exception: a relationship class outlives them unless the engine is told otherwise.
-/
namespace EntityStore

/-- The rows that a row refers to; the member classes of a class only with `withClasses`. -/
def Row.references (withClasses : Bool) : (k : Kind) → Row k → List Node
  | .entityClass => fun c =>
    if withClasses then c.memberClassIds.map fun i => (.entityClass, i) else []
  | .entity => fun e => (.entityClass, e.classId) :: e.memberIds.map fun i => (.entity, i)
  | .entityGroup => fun g =>
    [(.entityClass, g.entityClassId), (.entity, g.entityId), (.entity, g.memberId)]
  | .parameterDefinition => fun d =>
    (.entityClass, d.entityClassId) :: d.parameterValueListId.toList.map fun i => (.valueList, i)
  | .parameterValue => fun v =>
    [(.entity, v.entityId), (.parameterDefinition, v.parameterDefinitionId),
      (.alternative, v.alternativeId)]
  | .listValue => fun v => [(.valueList, v.parameterValueListId)]
  | .scenarioAlternative => fun a => [(.scenario, a.scenarioId), (.alternative, a.alternativeId)]
  | .definitionTag => fun t =>
    [(.parameterDefinition, t.parameterDefinitionId), (.parameterTag, t.parameterTagId)]
  | .feature => fun f =>
    [(.parameterDefinition, f.parameterDefinitionId), (.valueList, f.parameterValueListId)]
  | .toolFeature => fun t => [(.feature, t.featureId), (.tool, t.toolId)]
  | .toolFeatureMethod => fun m => [(.toolFeature, m.toolFeatureId)]
  | .entityMetadata => fun j => [(.entity, j.entityId), (.metadata, j.metadataId)]
  | .valueMetadata => fun j => [(.parameterValue, j.parameterValueId), (.metadata, j.metadataId)]
  | .valueList | .alternative | .scenario | .parameterTag | .tool | .metadata => fun _ => []

/-- Every reference leads to a row. -/
def Snapshot.Resolved (s : Snapshot) (withClasses : Bool) : Prop :=
  ∀ k, ∀ row ∈ s.rows k, ∀ n ∈ Row.references withClasses k row, s.contains n.1 n.2 = true

instance (s : Snapshot) (withClasses : Bool) : Decidable (s.Resolved withClasses) :=
  decidable_of_iff (∀ k ∈ Kind.all, ∀ row ∈ s.rows k, ∀ n ∈ Row.references withClasses k row,
      s.contains n.1 n.2 = true)
    ⟨fun h k => h k (Kind.mem_all k), fun h k _ => h k⟩

section References
variable {s : Snapshot} {withClasses : Bool}

/-- Valid rows refer to rows that exist, as long as those of the snapshot do. -/
theorem Snapshot.Resolved.contains_of_valid (h : s.Resolved withClasses) {k : Kind} {row : Row k}
    (hv : Row.Valid s k row) {n : Node} (hn : n ∈ Row.references withClasses k row) :
    s.contains n.1 n.2 = true := by
  cases k with
  | entityClass =>
    simp only [Row.references] at hn
    split at hn
    · rcases List.mem_map.1 hn with ⟨member, hmember, rfl⟩
      rcases hv.2 member hmember with ⟨m, hm, _⟩
      exact Snapshot.contains_of_find? hm
    · cases hn
  | entity =>
    rcases hv with ⟨c, hc, hshape⟩
    rcases List.mem_cons.1 hn with rfl | hn
    · exact Snapshot.contains_of_find? hc
    · rcases List.mem_map.1 hn with ⟨member, hmember, rfl⟩
      rcases hshape with ⟨_, hnone, _⟩ | ⟨_, hmembers⟩
      · rw [hnone] at hmember
        cases hmember
      · exact hmembers.contains hmember
  | entityGroup =>
    rcases hv with ⟨hclass, ⟨e, he, _⟩, ⟨m, hm, _⟩, _⟩
    simp only [Row.references, List.mem_cons, List.not_mem_nil, or_false] at hn
    rcases hn with rfl | rfl | rfl
    · exact hclass
    · exact Snapshot.contains_of_find? he
    · exact Snapshot.contains_of_find? hm
  | parameterDefinition =>
    rcases hv with ⟨hclass, _, hlist⟩
    simp only [Row.references, List.mem_cons, List.mem_map, Option.mem_toList] at hn
    rcases hn with rfl | ⟨list, hd, rfl⟩
    · exact hclass
    · exact (hlist list hd).1
  | parameterValue =>
    rcases hv with ⟨halternative, ⟨e, he, _⟩, d, hd, _⟩
    simp only [Row.references, List.mem_cons, List.not_mem_nil, or_false] at hn
    rcases hn with rfl | rfl | rfl
    · exact Snapshot.contains_of_find? he
    · exact Snapshot.contains_of_find? hd
    · exact halternative
  | listValue =>
    obtain rfl := List.mem_singleton.1 hn
    exact hv.1
  | scenarioAlternative =>
    simp only [Row.references, List.mem_cons, List.not_mem_nil, or_false] at hn
    rcases hn with rfl | rfl
    · exact hv.1
    · exact hv.2.1
  | definitionTag | entityMetadata | valueMetadata =>
    simp only [Row.references, List.mem_cons, List.not_mem_nil, or_false] at hn
    rcases hn with rfl | rfl
    · exact hv.1
    · exact hv.2
  | toolFeature =>
    simp only [Row.references, List.mem_cons, List.not_mem_nil, or_false] at hn
    rcases hn with rfl | rfl
    · exact hv.2
    · exact hv.1
  | feature =>
    rcases hv with ⟨d, hd, hlist⟩
    simp only [Row.references, List.mem_cons, List.not_mem_nil, or_false] at hn
    rcases hn with rfl | rfl
    · exact Snapshot.contains_of_find? hd
    · apply h .parameterDefinition d (Snapshot.mem_rows_of_find? hd)
      simp [Row.references, hlist]
  | toolFeatureMethod =>
    rcases hv with ⟨t, f, ht, _⟩
    obtain rfl := List.mem_singleton.1 hn
    exact Snapshot.contains_of_find? ht
  | valueList | alternative | scenario | parameterTag | tool | metadata => cases hn

theorem Snapshot.Resolved.putRows (h : s.Resolved withClasses) {k : Kind} {rows : List (Row k)}
    (hv : ∀ row ∈ rows, Row.Valid s k row) : (s.putRows k rows).Resolved withClasses := by
  intro j row hrow n hn
  apply Snapshot.contains_putRows_of_contains
  apply Snapshot.forall_mem_putRows (P := fun j row =>
    ∀ n ∈ Row.references withClasses j row, s.contains n.1 n.2 = true) _ h j row hrow n hn
  exact fun row hput n hn => h.contains_of_valid (hv row hput) hn

theorem Row.mem_references_leftBy {removed : IdMap} {k : Kind} {row : Row k} {n : Node}
    (hn : n ∈ Row.references withClasses k (Row.leftBy removed k row)) :
    n ∈ Row.references withClasses k row ∧
      (n ∈ Row.owners withClasses k row ∨ removed.has n.1 n.2 = false) := by
  cases k with
  | parameterDefinition =>
    simp only [Row.leftBy] at hn
    split at hn
    next =>
      rw [show n = (.entityClass, row.entityClassId) from List.mem_singleton.1 hn]
      exact ⟨List.mem_cons_self, Or.inl List.mem_cons_self⟩
    next hlist =>
      refine ⟨hn, ?_⟩
      rcases List.mem_cons.1 hn with rfl | hn
      · exact Or.inl List.mem_cons_self
      · rcases List.mem_map.1 hn with ⟨i, hi, rfl⟩
        rw [Option.mem_toList.1 hi] at hlist
        exact Or.inr (Bool.not_eq_true _ ▸ hlist)
  | _ => exact ⟨hn, Or.inl hn⟩

theorem Snapshot.Resolved.without (h : s.Resolved withClasses) {removed : IdMap}
    (hclosed : s.IsClosed withClasses removed) : (s.without removed).Resolved withClasses := by
  intro k row hrow n hn
  rcases Snapshot.of_mem_rows_without hrow with ⟨before, hbefore, hstays, rfl⟩
  rcases Row.mem_references_leftBy hn with ⟨hrefers, howner | hlist⟩
  · apply Snapshot.contains_without.2
    refine ⟨h k before hbefore n hrefers, ?_⟩
    rw [← Bool.not_eq_true]
    intro hgoes
    have htakes : s.Takes withClasses n (k, Row.id k before) :=
      Snapshot.takes_iff.2 ⟨before, Snapshot.mem_rows_iff.1 hbefore, howner⟩
    rw [hclosed.takes n _ htakes hgoes] at hstays
    cases hstays
  · exact Snapshot.contains_without.2 ⟨h k before hbefore n hrefers, hlist⟩

theorem Snapshot.Resolved.change {o : Options} {c : Call} {s' : Snapshot}
    (hchange : s.Change o c s') (h : s.Resolved o.withClasses) : s'.Resolved o.withClasses := by
  cases hchange with
  | insert check fresh => exact h.putRows (valid_of_inserted check)
  | update check => exact h.putRows (valid_of_updated check)
  | remove sub set free => exact h.without set.closed

end References

/-- The store with the given rows as the table of a kind. -/
def Store.seed (s : Store) (k : Kind) (rows : List (Row k)) : Store :=
  { s with tables := s.tables.set k (.ofList (rows.map (Row.toRecord k))) }

namespace Workspace

/-- A class and a relationship class over it. -/
def pipeClasses : List EntityClass := [⟨1, "tank", none, []⟩, ⟨2, "pipe", none, [1]⟩]

def pipes : Store := Store.empty.seed .entityClass pipeClasses

def pipesSession : Session := ⟨Snapshot.empty.putRows .entityClass pipeClasses, ∅, ∅⟩

theorem open_pipes : Session.open pipes = .ok pipesSession := by cbv

theorem resolved_pipes : pipesSession.snapshot.Resolved true := by decide

/-- References that resolve in a session that was just opened resolve in it after every checked
history. With `withClasses` these include the member classes of classes, which otherwise may be
removed from under a relationship class. -/
theorem run_resolved (o : Options) :
    (∀ (store : Store) (session : Session) (events : List Event),
      Session.open store = .ok session → session.snapshot.Resolved o.withClasses →
      (∀ e ∈ events, e.isChecked = true) →
      ((⟨store, session⟩ : Workspace).run o events).session.snapshot.Resolved o.withClasses) ∧
    (o.withClasses = false → ∃ (store : Store) (session : Session) (events : List Event),
      Session.open store = .ok session ∧ session.snapshot.Resolved true ∧
        (∀ e ∈ events, e.isChecked = true) ∧
        ¬ ((⟨store, session⟩ : Workspace).run o events).session.snapshot.Resolved true) := by
  constructor
  · intro store session events hopen hresolved hchecked
    have hrun := run_keeps (P := fun s => s.Resolved o.withClasses)
      (fun _ _ _ hchange h => h.change hchange) hopen hresolved hchecked
    exact hrun.2
  · intro hoff
    rcases o with ⟨owner, strict, withClasses⟩
    subst hoff
    have hrun : ((⟨pipes, pipesSession⟩ : Workspace).run ⟨owner, strict, false⟩
        [.call (.remove (.ofNodes [(.entityClass, 1)]) (some false))]).session.snapshot =
        Snapshot.empty.put .entityClass ⟨2, "pipe", none, [1]⟩ := by cbv
    refine ⟨pipes, pipesSession, [.call (.remove (.ofNodes [(.entityClass, 1)]) (some false))],
      open_pipes, resolved_pipes, by decide, ?_⟩
    rw [hrun]
    decide

theorem run_pipes_resolved :
    ((⟨pipes, pipesSession⟩ : Workspace).run ⟨"writer", false, true⟩
      [.call (.insert .entity [.ofFields [("class_name", some (.text "tank")),
        ("name", some (.text "T1"))]] none false), .disturb none false true false,
        .call (.remove (.ofNodes [(.entityClass, 1)]) none),
        .call (.remove (.ofNodes [(.entityClass, 1)]) (some true))]).session.snapshot.Resolved
      true :=
  (run_resolved ⟨"writer", false, true⟩).1 pipes pipesSession _ open_pipes resolved_pipes
    (by decide)

end Workspace

end EntityStore
