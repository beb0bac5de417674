import EntityStore.Proofs.Check.Fixed
import EntityStore.Proofs.Invariant.Resolved
/-!
# Rows agree with the rows they refer to

Objects have a name and no members, relationships have members of the classes that their class
lists, groups and values stay within one class, features have the list of their definition, and
with `withClasses` the members of relationship classes are object classes. What a row of this sort
reads in another row never changes while both are there (`Snapshot.Keeps`), so agreement with the
rows before a call becomes agreement with the rows after it.
-/
namespace EntityStore

/-- A row that agrees with the rows that it refers to. -/
def Row.WellTyped (s : Snapshot) (withClasses : Bool) : (k : Kind) → Row k → Prop
  | .entityClass => fun c => withClasses = true → ∀ member ∈ c.memberClassIds,
    ∃ m, s.find? .entityClass member = some m ∧ m.memberClassIds = []
  | .entity => fun e => ∃ c, s.find? .entityClass e.classId = some c ∧
    (c.memberClassIds = [] ∧ e.memberIds = [] ∧ e.name ≠ "" ∨
      c.memberClassIds ≠ [] ∧ s.MembersOf e.memberIds c.memberClassIds)
  | .entityGroup => fun g =>
    (∃ e, s.find? .entity g.entityId = some e ∧ e.classId = g.entityClassId) ∧
    (∃ m, s.find? .entity g.memberId = some m ∧ m.classId = g.entityClassId) ∧
    g.entityId ≠ g.memberId
  | .parameterValue => fun v =>
    (∃ e, s.find? .entity v.entityId = some e ∧ e.classId = v.entityClassId) ∧
    ∃ d, s.find? .parameterDefinition v.parameterDefinitionId = some d ∧
      d.entityClassId = v.entityClassId
  | .feature => fun f => ∃ d, s.find? .parameterDefinition f.parameterDefinitionId = some d ∧
    d.parameterValueListId = some f.parameterValueListId
  | _ => fun _ => True

def Snapshot.WellTyped (s : Snapshot) (withClasses : Bool) : Prop :=
  ∀ k, ∀ row ∈ s.rows k, Row.WellTyped s withClasses k row

theorem Row.wellTyped_of_valid {s : Snapshot} (withClasses : Bool) {k : Kind} {row : Row k}
    (h : Row.Valid s k row) : Row.WellTyped s withClasses k row := by
  cases k with
  | entityClass => exact fun _ => h.2
  | entity => exact h
  | entityGroup => exact h.2
  | parameterValue =>
    rcases h with ⟨_, hentity, d, hd, hclass, _⟩
    exact ⟨hentity, d, hd, hclass⟩
  | feature => exact h
  | _ => trivial

/-- What rows read in the rows that they refer to is the same in two snapshots, for rows that are
in both. A definition is held to its owner by values, and to its list by features. -/
structure Snapshot.Keeps (s s' : Snapshot) : Prop where
  memberClasses : ∀ {i c c'}, s.find? .entityClass i = some c → s'.find? .entityClass i = some c' →
    c'.memberClassIds = c.memberClassIds
  entityClass : ∀ {i e e'}, s.find? .entity i = some e → s'.find? .entity i = some e' →
    e'.classId = e.classId
  owner : ∀ {i d d'}, s.find? .parameterDefinition i = some d →
    s'.find? .parameterDefinition i = some d' →
    (∃ v ∈ s'.rows .parameterValue, v.parameterDefinitionId = i) →
    d'.entityClassId = d.entityClassId
  list : ∀ {i d d'}, s.find? .parameterDefinition i = some d →
    s'.find? .parameterDefinition i = some d' →
    (∃ f ∈ s'.rows .feature, f.parameterDefinitionId = i) →
    d'.parameterValueListId = d.parameterValueListId

section Keeps
variable {s s' : Snapshot} {withClasses : Bool}

theorem Snapshot.Keeps.entity (hk : s.Keeps s') {i classId : Id}
    (h : ∃ e, s.find? .entity i = some e ∧ e.classId = classId)
    (hi : s'.contains .entity i = true) :
    ∃ e, s'.find? .entity i = some e ∧ e.classId = classId := by
  rcases h with ⟨e, he, hclass⟩
  rcases Snapshot.contains_iff.1 hi with ⟨e', he'⟩
  exact ⟨e', he', (hk.entityClass he he').trans hclass⟩

theorem Snapshot.Keeps.membersOf (hk : s.Keeps s') {members classes : List Id}
    (h : s.MembersOf members classes) (hm : ∀ m ∈ members, s'.contains .entity m = true) :
    s'.MembersOf members classes := by
  induction h with
  | nil => exact .nil
  | cons hfirst _ ih =>
    refine .cons (hk.entity hfirst (hm _ List.mem_cons_self)) ?_
    exact ih fun m hmem => hm m (List.mem_cons_of_mem _ hmem)

/-- Rows that agree with a snapshot agree with one that keeps what they read in it. -/
theorem Snapshot.Keeps.wellTyped (hk : s.Keeps s') (hres : s'.Resolved withClasses)
    (h : ∀ k, ∀ row ∈ s'.rows k, Row.WellTyped s withClasses k row) :
    s'.WellTyped withClasses := by
  intro k row hrow
  have hw := h k row hrow
  have hrefs := hres k row hrow
  cases k with
  | entityClass =>
    intro hon member hm
    rcases hw hon member hm with ⟨m, hfind, hobject⟩
    have hmem : (Kind.entityClass, member) ∈ Row.references withClasses .entityClass row := by
      rw [hon]
      exact List.mem_map_of_mem hm
    rcases contains_iff.1 (hrefs _ hmem) with ⟨m', hm'⟩
    exact ⟨m', hm', (hk.memberClasses hfind hm').trans hobject⟩
  | entity =>
    rcases hw with ⟨c, hc, hshape⟩
    rcases contains_iff.1 (hrefs _ List.mem_cons_self) with ⟨c', hc'⟩
    refine ⟨c', hc', ?_⟩
    rw [hk.memberClasses hc hc']
    rcases hshape with hobject | ⟨hrel, hmembers⟩
    · exact Or.inl hobject
    · refine Or.inr ⟨hrel, hk.membersOf hmembers fun m hm => ?_⟩
      exact hrefs (.entity, m) (List.mem_cons_of_mem _ (List.mem_map_of_mem hm))
  | entityGroup =>
    rcases hw with ⟨hgroup, hmember, hne⟩
    refine ⟨hk.entity hgroup (hrefs (.entity, row.entityId) ?_),
      hk.entity hmember (hrefs (.entity, row.memberId) ?_), hne⟩
    · simp [Row.references]
    · simp [Row.references]
  | parameterValue =>
    rcases hw with ⟨hentity, d, hd, hclass⟩
    refine ⟨hk.entity hentity (hrefs (.entity, row.entityId) ?_), ?_⟩
    · simp [Row.references]
    · rcases contains_iff.1 (hrefs (.parameterDefinition, row.parameterDefinitionId)
        (by simp [Row.references])) with ⟨d', hd'⟩
      exact ⟨d', hd', (hk.owner hd hd' ⟨row, hrow, rfl⟩).trans hclass⟩
  | feature =>
    rcases hw with ⟨d, hd, hlist⟩
    rcases contains_iff.1 (hrefs (.parameterDefinition, row.parameterDefinitionId)
      (by simp [Row.references])) with ⟨d', hd'⟩
    exact ⟨d', hd', (hk.list hd hd' ⟨row, hrow, rfl⟩).trans hlist⟩
  | _ => trivial

theorem Snapshot.keeps_of_find? (h : ∀ k i row, s.find? k i = some row → s'.find? k i = some row) :
    s.Keeps s' where
  memberClasses hc hc' := by
    rw [h _ _ _ hc] at hc'
    rw [Option.some.inj hc']
  entityClass he he' := by
    rw [h _ _ _ he] at he'
    rw [Option.some.inj he']
  owner hd hd' _ := by
    rw [h _ _ _ hd] at hd'
    rw [Option.some.inj hd']
  list hd hd' _ := by
    rw [h _ _ _ hd] at hd'
    rw [Option.some.inj hd']

theorem Snapshot.eq_of_find?_putRows {j k : Kind} {rows : List (Row k)} {i : Id} {a b : Row j}
    (hj : k ≠ j) (ha : s.find? j i = some a) (hb : (s.putRows k rows).find? j i = some b) :
    b = a := by
  rw [Snapshot.find?_putRows_of_ne rows s hj, ha] at hb
  exact (Option.some.inj hb).symm

theorem Snapshot.keeps_of_checkUpdate {k : Kind} {changes : List Record} {strict : Bool}
    {checked : CheckResult k} (check : s.checkUpdate k changes strict = .ok checked) :
    s.Keeps (s.putRows k (checked.accepted.map (Row.stored k))) where
  memberClasses hc hc' := by
    by_cases hk : k = .entityClass
    · subst hk
      exact fixed_of_checkUpdate (f := EntityClass.memberClassIds) (Q := fun _ => True)
        (fun _ _ _ => EntityClass.memberClassIds_of_revises) (fun _ => rfl) check trivial hc hc'
    · rw [eq_of_find?_putRows hk hc hc']
  entityClass he he' := by
    by_cases hk : k = .entity
    · subst hk
      exact fixed_of_checkUpdate (f := Entity.classId) (Q := fun _ => True)
        (fun _ _ _ => Entity.classId_of_revises) (fun _ => rfl) check trivial he he'
    · rw [eq_of_find?_putRows hk he he']
  owner hd hd' hv := by
    by_cases hk : k = .parameterDefinition
    · subst hk
      rw [rows_putRows_of_ne (by decide)] at hv
      exact fixed_of_checkUpdate (f := ParameterDefinition.entityClassId)
        (Q := fun i => ∃ v ∈ s.rows .parameterValue, v.parameterDefinitionId = i)
        (fun _ _ hv h => ParameterDefinition.entityClassId_of_revises h hv) (fun _ => rfl) check hv
        hd hd'
    · rw [eq_of_find?_putRows hk hd hd']
  list hd hd' hf := by
    by_cases hk : k = .parameterDefinition
    · subst hk
      rw [rows_putRows_of_ne (by decide)] at hf
      refine fixed_of_checkUpdate (f := ParameterDefinition.parameterValueListId)
        (Q := fun i => ∃ f ∈ s.rows .feature, f.parameterDefinitionId = i)
        ?_ (fun _ => rfl) check hf hd hd'
      intro before d hf h
      rcases hf with ⟨f, hf, hid⟩
      rcases ParameterDefinition.list_of_revises h with hsame | ⟨hnone, _⟩
      · exact hsame
      · exact absurd hid (hnone f hf)
    · rw [eq_of_find?_putRows hk hd hd']

theorem Snapshot.WellTyped.forall_putRows (h : s.WellTyped withClasses) {k : Kind}
    {rows : List (Row k)} (hv : ∀ row ∈ rows, Row.Valid s k row) :
    ∀ j, ∀ row ∈ (s.putRows k rows).rows j, Row.WellTyped s withClasses j row :=
  forall_mem_putRows (fun row hput => Row.wellTyped_of_valid withClasses (hv row hput)) h

/-- A removal detaches no definition that a feature is made of: the feature goes with the list. -/
theorem Snapshot.WellTyped.keeps_without (h : s.WellTyped withClasses) {removed : IdMap}
    (hclosed : s.IsClosed withClasses removed) : s.Keeps (s.without removed) := by
  have hleft {k : Kind} {i : Id} {row row' : Row k} (hrow : s.find? k i = some row)
      (hrow' : (s.without removed).find? k i = some row') : Row.leftBy removed k row = row' := by
    rw [find?_without, hrow] at hrow'
    split at hrow'
    · cases hrow'
    · exact Option.some.inj hrow'
  constructor
  · intro i c c' hc hc'
    rw [← hleft hc hc']
    rfl
  · intro i e e' he he'
    rw [← hleft he he']
    rfl
  · intro i d d' hd hd' _
    rw [← hleft hd hd', Row.leftBy_definition]
    split <;> rfl
  · intro i d d' hd hd' hf
    rcases hf with ⟨f, hf, rfl⟩
    rcases of_mem_rows_without hf with ⟨before, hbefore, hstays, rfl⟩
    rcases h .feature before hbefore with ⟨d₀, hd₀, hlist⟩
    have hsame : d₀ = d := Option.some.inj (hd₀.symm.trans hd)
    rw [hsame] at hlist
    rw [← hleft hd hd', Row.leftBy_definition]
    split
    next hgoes =>
      rw [hlist] at hgoes
      have htakes := hclosed.takes _ _ (.featureOfList hbefore) hgoes
      exact absurd htakes (Bool.eq_false_iff.1 hstays)
    next => rfl

theorem Row.wellTyped_leftBy {removed : IdMap} {k : Kind} {row : Row k}
    (h : Row.WellTyped s withClasses k row) :
    Row.WellTyped s withClasses k (Row.leftBy removed k row) := by
  cases k with
  | parameterDefinition => trivial
  | _ => exact h

theorem Snapshot.WellTyped.change {o : Options} {c : Call} (hchange : s.Change o c s')
    (hres : s.Resolved o.withClasses) (h : s.WellTyped o.withClasses) :
    s'.WellTyped o.withClasses := by
  have hres' := hres.change hchange
  cases hchange with
  | insert check fresh =>
    apply (keeps_of_find? fun _ _ _ => find?_putRows_of_fresh (fresh_of_inserted fresh)).wellTyped
      hres'
    exact h.forall_putRows (valid_of_inserted check)
  | update check =>
    apply (keeps_of_checkUpdate check).wellTyped hres'
    exact h.forall_putRows (valid_of_updated check)
  | remove sub set free =>
    apply (h.keeps_without set.closed).wellTyped hres'
    intro k row hrow
    rcases of_mem_rows_without hrow with ⟨before, hbefore, _, rfl⟩
    exact Row.wellTyped_leftBy (h k before hbefore)

end Keeps

namespace Workspace

/-- Rows that agree in a session that was just opened, where references resolve, agree in it after
every checked history. -/
theorem run_wellTyped (o : Options) (store : Store) (session : Session) (events : List Event)
    (hopen : Session.open store = .ok session)
    (hresolved : session.snapshot.Resolved o.withClasses)
    (htyped : session.snapshot.WellTyped o.withClasses)
    (hchecked : ∀ e ∈ events, e.isChecked = true) :
    ((⟨store, session⟩ : Workspace).run o events).session.snapshot.WellTyped o.withClasses := by
  have hrun := run_keeps (o := o)
    (P := fun s => s.Resolved o.withClasses ∧ s.WellTyped o.withClasses)
    (fun _ _ _ hchange h => ⟨h.1.change hchange, h.2.change hchange h.1⟩) hopen
    ⟨hresolved, htyped⟩ hchecked
  exact hrun.2.2

theorem wellTyped_pipes : pipesSession.snapshot.WellTyped true := by
  intro k row hrow
  cases k with
  | entityClass =>
    have hrows : pipesSession.snapshot.rows .entityClass = pipeClasses := rfl
    rw [hrows, pipeClasses, List.mem_cons, List.mem_singleton] at hrow
    intro _ member hm
    rcases hrow with rfl | rfl
    · cases hm
    · rw [List.mem_singleton.1 hm]
      exact ⟨⟨1, "tank", none, []⟩, rfl, rfl⟩
  | _ => cases hrow

theorem run_pipes_wellTyped :
    ((⟨pipes, pipesSession⟩ : Workspace).run ⟨"writer", false, true⟩
      [.call (.insert .entity [.ofFields [("class_id", some (.int 1)),
          ("name", some (.text "T1"))]] none false),
        .call (.insert .entity [.ofFields [("class_id", some (.int 2)),
          ("member_ids", some (.ids [1]))]] none false),
        .call (.update .entity [.ofFields [("id", some (.int 1)),
          ("name", some (.text "T2"))]] none)]).session.snapshot.WellTyped true :=
  run_wellTyped ⟨"writer", false, true⟩ pipes pipesSession _ open_pipes resolved_pipes
    wellTyped_pipes (by decide)

end Workspace

end EntityStore
