import EntityStore.Proofs.Row.Columns
import EntityStore.Proofs.Rules.Names
import EntityStore.Proofs.Snapshot.Loading
/-!
# Names resolved

Resolving the names of a record gives it the ids of what it names, over ids given beside the names,
and leaves every other field as it is. It succeeds when keys differ and every name that is given is
borne by a row (`Row.fills_resolveNames`).
-/
namespace EntityStore

section Read
variable {r : Record} {f : String}

theorem Record.name?_eq_ok_iff {o : Option String} :
    r.name? f = .ok o ↔ r.given? f = o.map .text := by
  unfold Record.name?
  split <;> cases o <;> simp_all

theorem Record.names?_eq_ok_iff {o : Option (List String)} :
    r.names? f = .ok o ↔ r.given? f = o.map .names := by
  unfold Record.names?
  split <;> cases o <;> simp_all

theorem Record.int?_of_get? {i : Int} (h : r.get? f = some (.int i)) : r.int? f = some i := by
  rw [int?, h]

theorem Record.has_of_given? {v : Field} (h : r.given? f = some v) : r.has f = true := by
  rw [has, h]
  rfl

end Read

theorem Snapshot.exists_firstWhere {s : Snapshot} {k : Kind} {p : Row k → Bool} (v : Violation)
    {row : Row k} (hrow : row ∈ s.rows k) (hp : p row = true) :
    ∃ found, s.firstWhere k p v = .ok found := by
  obtain ⟨found, hfound⟩ : ∃ found, s.findWhere k p = some found :=
    Option.isSome_iff_exists.1 (List.find?_isSome.2 ⟨row, hrow, hp⟩)
  exact ⟨found, by simp only [firstWhere, hfound]⟩

/-- `Finds s k within name find`: `find` leads from a name to a row that bears it, among those of a
kind that satisfy a condition. -/
structure Finds (s : Snapshot) (k : Kind) (within : Row k → Prop) (name : Row k → String)
    (find : String → Except Violation Id) : Prop where
  sound : ∀ {n i}, find n = .ok i →
    ∃ row ∈ s.rows k, within row ∧ name row = n ∧ Row.id k row = i
  complete : ∀ {row}, row ∈ s.rows k → within row → ∃ i, find (name row) = .ok i

theorem finds_firstWhere {s : Snapshot} {k : Kind} {within : Row k → Prop} {name : Row k → String}
    {p : String → Row k → Bool} {v : String → Violation}
    (hp : ∀ n row, p n row = true ↔ within row ∧ name row = n) :
    Finds s k within name fun n =>
      s.firstWhere k (p n) (v n) >>= fun row => pure (Row.id k row) := by
  constructor
  · intro n i h
    obtain ⟨row, hrow, hid⟩ := bind_eq_ok_iff.1 h
    obtain ⟨hwithin, hname⟩ := (hp n row).1 (Snapshot.of_firstWhere hrow)
    exact ⟨row, Snapshot.mem_rows_iff.2 (Snapshot.find?_of_firstWhere hrow), hwithin, hname,
      pure_eq_ok_iff.1 hid⟩
  · intro row hrow hwithin
    obtain ⟨found, hfound⟩ :=
      Snapshot.exists_firstWhere (v (name row)) hrow ((hp _ row).2 ⟨hwithin, rfl⟩)
    exact ⟨Row.id k found, by rw [hfound]; rfl⟩

theorem Finds.exists_mapM {s : Snapshot} {k : Kind} {within : Row k → Prop} {name : Row k → String}
    {find : String → Except Violation Id} (h : Finds s k within name find) {rows : List (Row k)}
    (hrows : ∀ row ∈ rows, row ∈ s.rows k) (hwithin : ∀ row ∈ rows, within row) :
    ∃ ids, (rows.map name).mapM find = .ok ids :=
  exists_mapM_eq_ok (List.forall_mem_map.2 fun row hrow =>
    h.complete (hrows row hrow) (hwithin row hrow))

theorem Finds.exists_rows {s : Snapshot} {k : Kind} {within : Row k → Prop} {name : Row k → String}
    {find : String → Except Violation Id} (h : Finds s k within name find) {names : List String}
    {ids : List Id} (hids : names.mapM find = .ok ids) :
    ∃ rows : List (Row k), (∀ row ∈ rows, row ∈ s.rows k) ∧ rows.map name = names ∧
      rows.map (Row.id k) = ids := by
  rw [mapM_eq_ok_iff] at hids
  induction hids with
  | nil => exact ⟨[], by simp, rfl, rfl⟩
  | cons hfirst _ ih =>
    obtain ⟨rows, hrows, rfl, rfl⟩ := ih
    obtain ⟨row, hrow, _, rfl, rfl⟩ := h.sound hfirst
    exact ⟨row :: rows, List.forall_mem_cons.2 ⟨hrow, hrows⟩, rfl, rfl⟩

namespace NameReference
variable {s : Snapshot}

attribute [local simp] bind Except.bind pure Except.pure

/-- `ref.ResolvedBy s resolve`: a function resolves the reference in a record, and succeeds if a
name that is given is borne by a row. -/
structure ResolvedBy (ref : NameReference) (s : Snapshot)
    (resolve : Record → Except Violation Record) : Prop where
  step : ∀ {r r'}, resolve r = .ok r' → ref.Step s r r'
  succeeds : ∀ {r}, (ref.Given r → ∃ v, ref.Names s r v) → ∃ r', resolve r = .ok r'

/-- A function resolves the reference in a record, and with it the name of the class, if that is
given. -/
structure ResolvedInClassBy (ref : NameReference) (s : Snapshot)
    (resolve : Record → Except Violation Record) : Prop where
  step : ∀ {r r'}, resolve r = .ok r' →
    ∃ mid, (mid = r ∨ ownerClass.Step s r mid) ∧ ref.Step s mid r'
  succeeds : s.KeysDiffer → ∀ {r}, (ref.Given r → ∃ v, ref.Names s r v) → ∃ r', resolve r = .ok r'

theorem Step.sameNames {ref : NameReference} {r r' : Record} (h : ref.Step s r r') :
    r.SameNames r' := by
  have hnil : Record.Filled [] s r [] r := .nil
  exact (hnil.append h (by simp)).sameNames

section Single
variable {k : Kind} {name : Row k → String} {nameField target : String}
  {hfield : [nameField] ⊆ Record.nameFields} {htarget : target ∉ Record.nameFields}
  {hscope : ∀ scope ∈ Record.scopes, target = scope.2 → [nameField] = [scope.1]}

theorem not_given_of_none {ref : NameReference} (href : ref.fields = [nameField]) {r : Record}
    (h : r.given? nameField = none) : ¬ref.Given r := by
  simp [Given, href, Record.has, h]

theorem given_of_some {ref : NameReference} (href : ref.fields = [nameField]) {r : Record}
    {v : Field} (h : r.given? nameField = some v) : ref.Given r := by
  simp [Given, href, Record.has, h]

theorem resolvedBy_resolve
    {hkey : ∀ a b : Row k, name a = name b → ∃ key ∈ Row.keys k a, key ∈ Row.keys k b}
    {find : String → Except Violation Id} (hfind : Finds s k (fun _ => True) name find) :
    (ofKind k name nameField target hfield htarget hscope hkey).ResolvedBy s
      fun r => r.resolve nameField target find := by
  constructor
  · intro r r' h
    simp only [Record.resolve, bind_eq_ok_iff, Record.name?_eq_ok_iff] at h
    obtain ⟨_ | n, hgiven, h⟩ := h
    · obtain rfl := pure_eq_ok_iff.1 h
      exact .of_not_given (not_given_of_none rfl hgiven)
    · obtain ⟨i, hi, hset⟩ := bind_eq_ok_iff.1 h
      obtain rfl := pure_eq_ok_iff.1 hset
      obtain ⟨row, hrow, _, rfl, rfl⟩ := hfind.sound hi
      exact .of_set (given_of_some rfl hgiven) ⟨row, hrow, hgiven, rfl⟩
  · intro r h
    cases hgiven : r.given? nameField with
    | none => exact ⟨r, by simp [Record.resolve, Record.name?, hgiven]⟩
    | some v =>
      obtain ⟨_, row, hrow, hname, _⟩ := h (given_of_some rfl hgiven)
      obtain ⟨i, hi⟩ := hfind.complete hrow trivial
      exact ⟨r.setId target i, by simp [Record.resolve, Record.name?, hname, hi]⟩

theorem resolvedBy_ownerClass :
    ownerClass.ResolvedBy s fun r => r.resolveClass s "entity_class_name" "entity_class_id" :=
  resolvedBy_resolve (finds_firstWhere (by simp))

theorem resolvedBy_classOfEntity :
    classOfEntity.ResolvedBy s fun r => r.resolveClass s "class_name" "class_id" :=
  resolvedBy_resolve (finds_firstWhere (by simp))

theorem resolvedBy_valueList : valueList.ResolvedBy s fun r => r.resolveValueList s :=
  resolvedBy_resolve (finds_firstWhere (by simp))

theorem resolvedBy_alternative : alternative.ResolvedBy s fun r => r.resolveAlternative s :=
  resolvedBy_resolve (finds_firstWhere (by simp))

theorem resolvedBy_scenario : scenario.ResolvedBy s fun r => r.resolveScenario s :=
  resolvedBy_resolve (finds_firstWhere (by simp))

theorem resolvedBy_tag : tag.ResolvedBy s fun r => r.resolveTag s :=
  resolvedBy_resolve (finds_firstWhere (by simp))

theorem resolvedBy_tool : tool.ResolvedBy s fun r => r.resolveTool s :=
  resolvedBy_resolve (finds_firstWhere (by simp))

theorem of_scopeClass {r mid : Record} {consumer : String} {i : Id}
    (h : r.scopeClass s consumer = .ok (i, mid)) :
    r.ClassGiven s ("entity_class_name", "entity_class_id") i ∧
      (mid = r ∨ ownerClass.Step s r mid) := by
  simp only [Record.scopeClass, bind_eq_ok_iff, Record.name?_eq_ok_iff] at h
  obtain ⟨_ | n, hgiven, h⟩ := h
  · dsimp only at h
    split at h
    next j hj =>
      obtain ⟨rfl, rfl⟩ := Prod.mk.inj (pure_eq_ok_iff.1 h)
      exact ⟨by simpa [Record.ClassGiven, hgiven] using hj, Or.inl rfl⟩
    next => cases h
  · obtain ⟨c, hc, h⟩ := bind_eq_ok_iff.1 h
    obtain ⟨rfl, rfl⟩ := Prod.mk.inj (pure_eq_ok_iff.1 h)
    have hmem : c ∈ s.rows .entityClass := Snapshot.mem_rows_iff.2 (Snapshot.find?_of_firstWhere hc)
    obtain rfl : c.name = n := by simpa using Snapshot.of_firstWhere hc
    have hnames : ownerClass.Names s r (.int c.id) := ⟨c, hmem, hgiven, rfl⟩
    refine ⟨?_, Or.inr (.of_set (given_of_some rfl hgiven) hnames)⟩
    simp only [Record.ClassGiven, hgiven]
    exact ⟨c, hmem, rfl, rfl⟩

theorem exists_scopeClass {r : Record} (consumer : String) {i : Id}
    (h : r.ClassGiven s ("entity_class_name", "entity_class_id") i) :
    ∃ j mid, r.scopeClass s consumer = .ok (j, mid) := by
  unfold Record.ClassGiven at h
  cases hgiven : r.given? "entity_class_name" with
  | none =>
    simp only [hgiven] at h
    exact ⟨i, r, by simp [Record.scopeClass, Record.name?, hgiven, h]⟩
  | some v =>
    simp only [hgiven] at h
    obtain ⟨c, hc, rfl, _⟩ := h
    obtain ⟨d, hd⟩ : ∃ d, s.classNamed "entity_class_name" c.name = .ok d :=
      Snapshot.exists_firstWhere _ hc (by simp)
    exact ⟨d.id, r.setId "entity_class_id" d.id, by
      simp [Record.scopeClass, Record.name?, hgiven, hd]⟩

theorem resolvedInClassBy_resolveScoped {classOf : Row k → Id}
    {hkey : ∀ a b : Row k, classOf a = classOf b → name a = name b →
      ∃ key ∈ Row.keys k a, key ∈ Row.keys k b}
    {find : Id → String → Except Violation Id}
    (hfind : ∀ i, Finds s k (fun row => classOf row = i) name (find i)) :
    (inClass k classOf name nameField target hfield htarget hscope hkey).ResolvedInClassBy s
      fun r => r.resolveScoped s nameField target find := by
  constructor
  · intro r r' h
    simp only [Record.resolveScoped, bind_eq_ok_iff, Record.name?_eq_ok_iff] at h
    obtain ⟨_ | n, hgiven, h⟩ := h
    · obtain rfl := pure_eq_ok_iff.1 h
      exact ⟨r, Or.inl rfl, .of_not_given (not_given_of_none rfl hgiven)⟩
    · obtain ⟨⟨i, mid⟩, hclass, h⟩ := bind_eq_ok_iff.1 h
      obtain ⟨j, hj, hset⟩ := bind_eq_ok_iff.1 h
      obtain rfl := pure_eq_ok_iff.1 hset
      obtain ⟨row, hrow, hwithin, rfl, rfl⟩ := (hfind i).sound hj
      obtain ⟨hclass, hmid⟩ := of_scopeClass hclass
      have hsame : r.SameNames mid := by
        rcases hmid with rfl | hmid
        · exact ⟨fun _ _ => rfl, fun _ _ _ _ hi => hi⟩
        · exact hmid.sameNames
      refine ⟨mid, hmid, .of_set ((given_congr _ hsame).2 (given_of_some rfl hgiven)) ?_⟩
      exact names_of_sameNames _ hsame ⟨row, hrow, hgiven, hwithin ▸ hclass, rfl⟩
  · intro hkeys r h
    cases hgiven : r.given? nameField with
    | none => exact ⟨r, by simp [Record.resolveScoped, Record.name?, hgiven]⟩
    | some v =>
      obtain ⟨_, row, hrow, hname, hclass, _⟩ := h (given_of_some rfl hgiven)
      obtain ⟨i, mid, hscope⟩ := exists_scopeClass nameField hclass
      obtain ⟨j, hj⟩ := (hfind i).complete hrow (hclass.eq hkeys (of_scopeClass hscope).1)
      exact ⟨mid.setId target j, by
        simp [Record.resolveScoped, Record.name?, hname, hscope, hj]⟩

theorem resolvedInClassBy_entity {nameField target : String}
    {hfield : [nameField] ⊆ Record.nameFields} {htarget : target ∉ Record.nameFields}
    {hscope : ∀ scope ∈ Record.scopes, target = scope.2 → [nameField] = [scope.1]} :
    (entity nameField target hfield htarget hscope).ResolvedInClassBy s
      fun r => r.resolveEntity s nameField target :=
  resolvedInClassBy_resolveScoped fun _ => finds_firstWhere (by simp)

theorem resolvedInClassBy_definition :
    definition.ResolvedInClassBy s fun r => r.resolveDefinition s :=
  resolvedInClassBy_resolveScoped fun _ => finds_firstWhere (by simp)

end Single

theorem resolvedBy_metadata : metadata.ResolvedBy s fun r => r.resolveMetadata s := by
  constructor
  · intro r r' h
    simp only [Record.resolveMetadata, bind_eq_ok_iff, Record.name?_eq_ok_iff] at h
    obtain ⟨_ | name, hname, _ | value, hvalue, h⟩ := h
    · obtain rfl := pure_eq_ok_iff.1 h
      exact .of_not_given (by simp [Given, metadata, Record.has, hname, hvalue])
    · cases h
    · cases h
    · obtain ⟨m, hm, hset⟩ := bind_eq_ok_iff.1 h
      obtain rfl := pure_eq_ok_iff.1 hset
      obtain ⟨rfl, rfl⟩ : m.name = name ∧ m.value = value := by
        simpa using Snapshot.of_firstWhere hm
      exact .of_set ⟨"metadata_name", by decide, Record.has_of_given? hname⟩
        ⟨m, Snapshot.mem_rows_iff.2 (Snapshot.find?_of_firstWhere hm), hname, hvalue, rfl⟩
  · intro r h
    by_cases hgiven : metadata.Given r
    · obtain ⟨_, m, hm, hname, hvalue, _⟩ := h hgiven
      obtain ⟨found, hfound⟩ : ∃ found, s.firstWhere .metadata
          (fun n => n.name = m.name ∧ n.value = m.value) (.unknownMetadata m.name m.value) =
          .ok found := Snapshot.exists_firstWhere _ hm (by simp)
      exact ⟨r.setId "metadata_id" found.id,
        bind_eq_ok_iff.2 ⟨some m.name, Record.name?_eq_ok_iff.2 hname,
          bind_eq_ok_iff.2 ⟨some m.value, Record.name?_eq_ok_iff.2 hvalue,
            bind_eq_ok_iff.2 ⟨found, hfound, rfl⟩⟩⟩⟩
    · obtain ⟨hname, hvalue⟩ :
          r.given? "metadata_name" = none ∧ r.given? "metadata_value" = none := by
        simpa [Given, metadata, Record.has] using hgiven
      exact ⟨r, by simp [Record.resolveMetadata, Record.name?, hname, hvalue]⟩

theorem resolvedBy_memberClasses : memberClasses.ResolvedBy s (EntityClass.resolveNames s) := by
  have hfind : Finds s .entityClass (fun _ => True) EntityClass.name fun n =>
      s.classNamed "member_class_names" n >>= fun c => pure c.id := finds_firstWhere (by simp)
  constructor
  · intro r r' h
    simp only [EntityClass.resolveNames, bind_eq_ok_iff, Record.names?_eq_ok_iff] at h
    obtain ⟨_ | names, hgiven, h⟩ := h
    · obtain rfl := pure_eq_ok_iff.1 h
      exact .of_not_given (not_given_of_none rfl hgiven)
    · obtain ⟨ids, hids, hset⟩ := bind_eq_ok_iff.1 h
      obtain rfl := pure_eq_ok_iff.1 hset
      obtain ⟨cs, hcs, rfl, rfl⟩ := hfind.exists_rows hids
      exact .of_set (given_of_some rfl hgiven) ⟨cs, hcs, hgiven, rfl⟩
  · intro r h
    cases hgiven : r.given? "member_class_names" with
    | none => exact ⟨r, by simp [EntityClass.resolveNames, Record.names?, hgiven]⟩
    | some v =>
      obtain ⟨_, cs, hcs, hnames, _⟩ := h (given_of_some rfl hgiven)
      obtain ⟨ids, hids⟩ := hfind.exists_mapM hcs fun _ _ => trivial
      exact ⟨r.set "member_class_ids" (.ids ids),
        bind_eq_ok_iff.2 ⟨some _, Record.names?_eq_ok_iff.2 hnames,
          bind_eq_ok_iff.2 ⟨ids, hids, rfl⟩⟩⟩

end NameReference

/-- The members that a record names, one for each member class. -/
def Entity.resolveMembers (s : Snapshot) (r : Record) : Except Violation Record := do
  match ← r.names? "member_names" with
  | none => return r
  | some names =>
    match r.int? "class_id" with
    | none => throw .membersWithoutClass
    | some classId =>
      let c ← s.rowAt .entityClass classId "class_id" "Entity class"
      refuseIf (names.length ≠ c.memberClassIds.length)
        (.memberCount "member_names" c.name c.memberClassIds.length names.length)
      let ids ← (names.zip c.memberClassIds).mapM fun (name, memberClass) => do
        return (← s.entityNamed memberClass "member_names" name).id
      return r.set "member_ids" (.ids ids)

theorem Entity.resolveNames_eq (s : Snapshot) (r : Record) :
    Entity.resolveNames s r = r.resolveClass s "class_name" "class_id" >>= resolveMembers s := rfl

section
variable {columns : List String} {s : Snapshot} {r r₁ : Record}

theorem Record.Filled.classGiven_of_int? (h : Filled columns s r [.classOfEntity] r₁)
    (hcolumn : "class_id" ∈ columns) {i : Id} (hi : r₁.int? "class_id" = some i) :
    r.ClassGiven s ("class_name", "class_id") i := by
  have hscope : ("class_name", "class_id") ∈ scopes := by decide
  unfold ClassGiven
  cases hgiven : r.given? "class_name" with
  | none => rwa [int?, h.get?_eq_of_scope hscope hgiven] at hi
  | some v =>
    obtain ⟨_, ⟨c, hc, hname, rfl⟩, hget⟩ :=
      h.named .classOfEntity List.mem_cons_self hcolumn (NameReference.given_of_some rfl hgiven)
    have hint : r₁.int? "class_id" = some c.id := int?_of_get? hget
    rw [hgiven] at hname
    rw [hint] at hi
    exact ⟨c, hc, Option.some.inj hname, Option.some.inj hi⟩

theorem Record.Filled.int?_of_classGiven (hkeys : s.KeysDiffer)
    (h : Filled columns s r [.classOfEntity] r₁) (hcolumn : "class_id" ∈ columns) {i : Id}
    (hi : r.ClassGiven s ("class_name", "class_id") i) : r₁.int? "class_id" = some i := by
  by_cases hgiven : NameReference.classOfEntity.Given r
  · obtain ⟨_, ⟨c, hc, _, rfl⟩, hget⟩ := h.named .classOfEntity List.mem_cons_self hcolumn hgiven
    have hint : r₁.int? "class_id" = some c.id := int?_of_get? hget
    rw [hint, hi.eq hkeys (h.classGiven_of_int? hcolumn hint)]
  · have hnone : r.given? "class_name" = none := by
      simpa [NameReference.Given, NameReference.classOfEntity, NameReference.ofKind, has]
        using hgiven
    have hscope : ("class_name", "class_id") ∈ scopes := by decide
    simp only [ClassGiven, hnone] at hi
    rwa [int?, h.get?_eq_of_scope hscope hnone]

theorem finds_entityNamed (classId : Id) (field : String) :
    Finds s .entity (fun e => e.classId = classId) Entity.name fun name =>
      s.entityNamed classId field name >>= fun e => pure e.id :=
  finds_firstWhere (by simp)

theorem exists_members {names : List String} {classes ids : List Id}
    (hlength : names.length = classes.length)
    (h : (names.zip classes).mapM (fun (name, memberClass) => do
      return (← s.entityNamed memberClass "member_names" name).id) = .ok ids) :
    ∃ es : List Entity, (∀ e ∈ es, e ∈ s.rows .entity) ∧ es.map (·.classId) = classes ∧
      es.map (·.name) = names ∧ es.map (·.id) = ids := by
  rw [mapM_eq_ok_iff] at h
  induction names generalizing classes ids with
  | nil =>
    obtain rfl := List.length_eq_zero_iff.1 hlength.symm
    cases h
    exact ⟨[], by simp, rfl, rfl, rfl⟩
  | cons name names ih =>
    cases classes with
    | nil => cases hlength
    | cons cl classes =>
      obtain ⟨_, ids, hfirst, hrest, rfl⟩ := List.forall₂_cons_left_iff.1 h
      obtain ⟨es, hes, rfl, rfl, rfl⟩ := ih (Nat.succ.inj hlength) hrest
      obtain ⟨e, he, rfl, rfl, rfl⟩ := (finds_entityNamed cl "member_names").sound hfirst
      exact ⟨e :: es, List.forall_mem_cons.2 ⟨he, hes⟩, rfl, rfl, rfl⟩

theorem exists_memberIds {es : List Entity} (h : ∀ e ∈ es, e ∈ s.rows .entity) :
    ∃ ids, ((es.map (·.name)).zip (es.map (·.classId))).mapM (fun (name, memberClass) => do
      return (← s.entityNamed memberClass "member_names" name).id) = .ok ids := by
  rw [List.zip_map']
  exact exists_mapM_eq_ok (List.forall_mem_map.2 fun e he =>
    (finds_entityNamed e.classId "member_names").complete (h e he) rfl)

end

/-- A computation puts the ids of what `r` names in it, and succeeds if keys differ and every name
that is given is borne by a row. -/
structure Record.Fills (columns : List String) (s : Snapshot) (r : Record)
    (refs : List NameReference) (x : Except Violation Record) : Prop where
  filled : ∀ r', x = .ok r' → Filled columns s r refs r'
  succeeds : s.KeysDiffer → (∀ ref ∈ refs, ref.Given r → ∃ v, ref.Names s r v) → ∃ r', x = .ok r'

namespace Record
variable {columns : List String} {s : Snapshot} {r r₁ : Record} {done refs : List NameReference}
  {ref : NameReference} {resolve g : Record → Except Violation Record}

theorem Filled.fills (h : Filled columns s r refs r₁) : Fills columns s r refs (.ok r₁) :=
  ⟨fun _ h' => Except.ok.inj h' ▸ h, fun _ _ => ⟨r₁, rfl⟩⟩

theorem Filled.resolvable (h : Filled columns s r done r₁)
    (hr : ref.Given r → ∃ v, ref.Names s r v) : ref.Given r₁ → ∃ v, ref.Names s r₁ v := by
  intro hgiven
  obtain ⟨v, hv⟩ := hr (h.given_iff.1 hgiven)
  exact ⟨v, ref.names_of_sameNames h.sameNames hv⟩

theorem Fills.of_bind {x : Except Violation Record}
    (hfilled : ∀ r₂, x = .ok r₂ → Filled columns s r done r₂)
    (hsucceeds : s.KeysDiffer → (∀ ref ∈ refs, ref.Given r → ∃ v, ref.Names s r v) →
      ∃ r₂, x = .ok r₂)
    (hg : ∀ r₂, Filled columns s r done r₂ → Fills columns s r refs (g r₂)) :
    Fills columns s r refs (x >>= g) := by
  constructor
  · intro r' hr'
    obtain ⟨r₂, hr₂, hr'⟩ := bind_eq_ok_iff.1 hr'
    exact (hg r₂ (hfilled r₂ hr₂)).filled r' hr'
  · intro hkeys hr
    obtain ⟨r₂, hr₂⟩ := hsucceeds hkeys hr
    obtain ⟨r', hr'⟩ := (hg r₂ (hfilled r₂ hr₂)).succeeds hkeys hr
    exact ⟨r', bind_eq_ok_iff.2 ⟨r₂, hr₂, hr'⟩⟩

theorem Filled.bind (h : Filled columns s r done r₁) (href : ref.ResolvedBy s resolve)
    (hnodup : ((done ++ [ref]).map NameReference.target).Nodup) (hmem : ref ∈ refs)
    (hg : ∀ r₂, Filled columns s r (done ++ [ref]) r₂ → Fills columns s r refs (g r₂)) :
    Fills columns s r refs (resolve r₁ >>= g) :=
  .of_bind (fun _ hr₂ => h.append (href.step hr₂) hnodup)
    (fun _ hr => href.succeeds (h.resolvable (hr ref hmem))) hg

theorem Filled.bindInClass (h : Filled columns s r done r₁) (href : ref.ResolvedInClassBy s resolve)
    (hclass : .ownerClass ∈ done)
    (hnodup : ((done ++ [ref]).map NameReference.target).Nodup) (hmem : ref ∈ refs)
    (hg : ∀ r₂, Filled columns s r (done ++ [ref]) r₂ → Fills columns s r refs (g r₂)) :
    Fills columns s r refs (resolve r₁ >>= g) := by
  have hdone : (done.map NameReference.target).Nodup :=
    (List.nodup_append.1 (List.map_append ▸ hnodup)).1
  refine .of_bind (fun r₂ hr₂ => ?_)
    (fun hkeys hr => href.succeeds hkeys (h.resolvable (hr ref hmem))) hg
  obtain ⟨mid, rfl | hmid, hstep⟩ := href.step hr₂
  · exact h.append hstep hnodup
  · exact (h.again hmid hclass hdone).append hstep hnodup

theorem Filled.last (h : Filled columns s r done r₁) (href : ref.ResolvedBy s resolve)
    (hnodup : ((done ++ [ref]).map NameReference.target).Nodup) :
    Fills columns s r (done ++ [ref]) (resolve r₁) := by
  have hbind : Fills columns s r (done ++ [ref]) (resolve r₁ >>= pure) :=
    h.bind href hnodup (by simp) fun _ h => h.fills
  rwa [bind_pure] at hbind

theorem Filled.lastInClass (h : Filled columns s r done r₁)
    (href : ref.ResolvedInClassBy s resolve) (hclass : .ownerClass ∈ done)
    (hnodup : ((done ++ [ref]).map NameReference.target).Nodup) :
    Fills columns s r (done ++ [ref]) (resolve r₁) := by
  have hbind : Fills columns s r (done ++ [ref]) (resolve r₁ >>= pure) :=
    h.bindInClass href hclass hnodup (by simp) fun _ h => h.fills
  rwa [bind_pure] at hbind

theorem Filled.members (h : Filled columns s r [.classOfEntity] r₁)
    (hcolumn : "class_id" ∈ columns) :
    Fills columns s r [.classOfEntity, .members] (Entity.resolveMembers s r₁) := by
  constructor
  · intro r' hr'
    suffices hstep : NameReference.members.Step s r₁ r' from h.append hstep (by decide)
    simp only [Entity.resolveMembers, bind_eq_ok_iff, names?_eq_ok_iff] at hr'
    obtain ⟨_ | names, hgiven, hr'⟩ := hr'
    · obtain rfl := pure_eq_ok_iff.1 hr'
      exact .of_not_given (NameReference.not_given_of_none rfl hgiven)
    · dsimp only at hr'
      split at hr'
      next => cases hr'
      next i hi =>
        simp only [bind_eq_ok_iff, pure_eq_ok_iff, refuseIf_eq_ok_iff, not_not] at hr'
        obtain ⟨c, hc, _, hlength, ids, hids, rfl⟩ := hr'
        obtain ⟨es, hes, hclasses, rfl, rfl⟩ := exists_members hlength hids
        obtain ⟨hmem, rfl⟩ := Snapshot.find?_eq_some_iff.1 (Snapshot.find?_of_rowAt hc)
        exact .of_set (NameReference.given_of_some rfl hgiven) ⟨c, hmem,
          h.sameNames.classGiven (by decide) (h.classGiven_of_int? hcolumn hi), es, hes, hclasses,
          hgiven, rfl⟩
  · intro hkeys hr
    cases hgiven : r₁.given? "member_names" with
    | none => exact ⟨r₁, bind_eq_ok_iff.2 ⟨none, names?_eq_ok_iff.2 hgiven, rfl⟩⟩
    | some v =>
      obtain ⟨_, c, hc, hclass, es, hes, hclasses, hnames, _⟩ := hr .members (by simp)
        (h.given_iff.1 (NameReference.given_of_some rfl hgiven))
      rw [← h.sameNames.names "member_names" (by decide)] at hnames
      obtain ⟨ids, hids⟩ := exists_memberIds hes
      refine ⟨r₁.set "member_ids" (.ids ids),
        bind_eq_ok_iff.2 ⟨some _, names?_eq_ok_iff.2 hnames, ?_⟩⟩
      simp only [h.int?_of_classGiven hkeys hcolumn hclass, bind_eq_ok_iff, refuseIf_eq_ok_iff]
      refine ⟨c, ?_, (), ?_, ids, hclasses ▸ hids, rfl⟩
      · rw [Snapshot.rowAt, Snapshot.mem_rows_iff.1 hc]
      · simp [← hclasses]

end Record

namespace Row

/-- The references that a record of a kind may make by name. -/
def nameReferences : Kind → List NameReference
  | .entityClass => [.memberClasses]
  | .entity => [.classOfEntity, .members]
  | .entityGroup =>
    [.ownerClass, .entity "group_name" "entity_id" (by decide) (by decide) (by decide),
      .entity "member_name" "member_id" (by decide) (by decide) (by decide)]
  | .parameterDefinition => [.ownerClass, .valueList]
  | .parameterValue =>
    [.ownerClass, .entity "entity_name" "entity_id" (by decide) (by decide) (by decide),
      .definition, .alternative]
  | .listValue => [.valueList]
  | .scenarioAlternative => [.scenario, .alternative]
  | .definitionTag => [.ownerClass, .definition, .tag]
  | .feature => [.ownerClass, .definition]
  | .toolFeature => [.tool]
  | .entityMetadata =>
    [.ownerClass, .entity "entity_name" "entity_id" (by decide) (by decide) (by decide), .metadata]
  | .valueMetadata => [.metadata]
  | .valueList | .alternative | .scenario | .parameterTag | .tool | .toolFeatureMethod
  | .metadata => []

open NameReference Record in
/-- Resolving the names of a record puts the ids of what it names in the columns of its kind. -/
theorem fills_resolveNames (k : Kind) (s : Snapshot) (r : Record) :
    Fills (fields k) s r (nameReferences k) (resolveNames k s r) := by
  have hnil : Filled (fields k) s r [] r := .nil
  cases k with
  | entityClass => exact hnil.last resolvedBy_memberClasses (by decide)
  | entity =>
    rw [resolveNames, Entity.resolveNames_eq]
    exact hnil.bind resolvedBy_classOfEntity (by decide) (by simp [nameReferences]) fun _ h =>
      h.members (by decide)
  | entityGroup =>
    exact hnil.bind resolvedBy_ownerClass (by decide) (by simp [nameReferences]) fun _ h =>
      h.bindInClass resolvedInClassBy_entity (by simp) (by decide) (by simp [nameReferences])
        fun _ h => h.lastInClass resolvedInClassBy_entity (by simp) (by decide)
  | parameterDefinition =>
    exact hnil.bind resolvedBy_ownerClass (by decide) (by simp [nameReferences]) fun _ h =>
      h.last resolvedBy_valueList (by decide)
  | parameterValue =>
    exact hnil.bind resolvedBy_ownerClass (by decide) (by simp [nameReferences]) fun _ h =>
      h.bindInClass resolvedInClassBy_entity (by simp) (by decide) (by simp [nameReferences])
        fun _ h => h.bindInClass resolvedInClassBy_definition (by simp) (by decide)
          (by simp [nameReferences]) fun _ h => h.last resolvedBy_alternative (by decide)
  | listValue => exact hnil.last resolvedBy_valueList (by decide)
  | scenarioAlternative =>
    exact hnil.bind resolvedBy_scenario (by decide) (by simp [nameReferences]) fun _ h =>
      h.last resolvedBy_alternative (by decide)
  | definitionTag =>
    have hclass : Filled (fields .definitionTag) s r [ownerClass] r := .unused (by decide)
    exact hclass.bindInClass resolvedInClassBy_definition (by simp) (by decide)
      (by simp [nameReferences]) fun _ h => h.last resolvedBy_tag (by decide)
  | feature =>
    have hclass : Filled (fields .feature) s r [ownerClass] r := .unused (by decide)
    exact hclass.lastInClass resolvedInClassBy_definition (by simp) (by decide)
  | toolFeature => exact hnil.last resolvedBy_tool (by decide)
  | entityMetadata =>
    have hclass : Filled (fields .entityMetadata) s r [ownerClass] r := .unused (by decide)
    exact hclass.bindInClass resolvedInClassBy_entity (by simp) (by decide)
      (by simp [nameReferences]) fun _ h => h.last resolvedBy_metadata (by decide)
  | valueMetadata => exact hnil.last resolvedBy_metadata (by decide)
  | valueList | alternative | scenario | parameterTag | tool | toolFeatureMethod | metadata =>
    exact hnil.fills

end Row

end EntityStore
