import EntityStore.Proofs.Check.Keys
import Mathlib.Data.List.Nodup
/-!
# References by name

A name reference says in which fields a record gives a name, which rows bear the name, and in which
field their id goes (`NameReference`). `Record.Filled` is what is made of a record by putting in the
ids of what it names, one reference after the other; it goes on giving the same names in the same
classes (`Record.Filled.sameNames`).
-/
namespace EntityStore

theorem eq_of_map_eq {α β : Type} {f : α → β} {l m : List α} (h : l.map f = m.map f)
    (hinj : ∀ a ∈ l, ∀ b ∈ m, f a = f b → a = b) : l = m := by
  induction l generalizing m with
  | nil => exact (List.map_eq_nil_iff.1 h.symm).symm
  | cons a l ih =>
    obtain ⟨b, m, rfl, hb, hm⟩ := List.map_eq_cons_iff.1 h.symm
    have hrest := ih hm.symm fun a' ha' b' hb' =>
      hinj a' (List.mem_cons_of_mem _ ha') b' (List.mem_cons_of_mem _ hb')
    rw [hinj a List.mem_cons_self b List.mem_cons_self hb.symm, hrest]

namespace Snapshot
variable {s : Snapshot}

theorem KeysDiffer.eq_of_className (h : s.KeysDiffer) {a b : EntityClass}
    (ha : a ∈ s.rows .entityClass) (hb : b ∈ s.rows .entityClass) (hname : a.name = b.name) :
    a = b :=
  h .entityClass a ha b hb ⟨"name", [.text a.name]⟩ List.mem_cons_self
    (by simp [Row.keys, EntityClass.keys, hname])

theorem KeysDiffer.eq_of_entityName (h : s.KeysDiffer) {a b : Entity} (ha : a ∈ s.rows .entity)
    (hb : b ∈ s.rows .entity) (hclass : a.classId = b.classId) (hname : a.name = b.name) : a = b :=
  h .entity a ha b hb ⟨"class_id, name", [.int a.classId, .text a.name]⟩ List.mem_cons_self
    (by simp [Row.keys, Entity.keys, hclass, hname])

end Snapshot

namespace Record

/-- The fields in which a record may give names of other rows. -/
def nameFields : List String :=
  ["member_class_names", "class_name", "member_names", "entity_class_name", "group_name",
    "member_name", "value_list_name", "entity_name", "parameter_definition_name",
    "alternative_name", "scenario_name", "parameter_tag_name", "tool_name", "metadata_name",
    "metadata_value"]

/-- The fields that give, by name and by id, the class in which other names are looked up. -/
def scopes : List (String × String) :=
  [("entity_class_name", "entity_class_id"), ("class_name", "class_id")]

theorem fst_mem_nameFields {scope : String × String} (h : scope ∈ scopes) :
    scope.1 ∈ nameFields := by
  revert scope
  decide

/-- The class that a record gives by its name, or else by its id. -/
def ClassGiven (s : Snapshot) (r : Record) (scope : String × String) (i : Id) : Prop :=
  match r.given? scope.1 with
  | none => r.int? scope.2 = some i
  | some v => ∃ c ∈ s.rows .entityClass, v = .text c.name ∧ c.id = i

/-- `r.SameNames r'`: `r'` gives the names that `r` gives, and the classes that it gives by id
only. -/
structure SameNames (r r' : Record) : Prop where
  names : ∀ f ∈ nameFields, r'.given? f = r.given? f
  scope : ∀ scope ∈ scopes, r.given? scope.1 = none →
    ∀ i, r.int? scope.2 = some i → r'.int? scope.2 = some i

theorem SameNames.classGiven {s : Snapshot} {r r' : Record} (h : r.SameNames r')
    {scope : String × String} (hscope : scope ∈ scopes) {i : Id} (hi : r.ClassGiven s scope i) :
    r'.ClassGiven s scope i := by
  unfold ClassGiven at *
  rw [h.names _ (fst_mem_nameFields hscope)]
  split at hi
  next hnone => exact h.scope _ hscope hnone i hi
  next => exact hi

theorem ClassGiven.eq {s : Snapshot} (hkeys : s.KeysDiffer) {r : Record} {scope : String × String}
    {i j : Id} (hi : r.ClassGiven s scope i) (hj : r.ClassGiven s scope j) : i = j := by
  unfold ClassGiven at *
  cases hgiven : r.given? scope.1 with
  | none =>
    simp only [hgiven] at hi hj
    exact Option.some.inj (hi.symm.trans hj)
  | some v =>
    simp only [hgiven] at hi hj
    obtain ⟨c, hc, rfl, rfl⟩ := hi
    obtain ⟨d, hd, hname, rfl⟩ := hj
    exact congrArg EntityClass.id (hkeys.eq_of_className hc hd (Field.text.inj hname))

end Record

/-- A way to refer to other rows by name. -/
structure NameReference where
  /-- Where the names are given. -/
  fields : List String
  /-- Where the ids go. -/
  target : String
  /-- `Names s r v`: the rows that `r` names in the snapshot `s` have the id or the ids `v`. -/
  Names : Snapshot → Record → Field → Prop
  fields_subset : fields ⊆ Record.nameFields
  target_notMem : target ∉ Record.nameFields
  /-- The id of a class in which names are looked up is set only where the class is named. -/
  fields_of_scope : ∀ scope ∈ Record.scopes, target = scope.2 → fields = [scope.1]
  isNull_of_names : ∀ {s r v}, Names s r v → v.isNull = false
  names_of_sameNames : ∀ {s r r' v}, Record.SameNames r r' → Names s r v → Names s r' v
  eq_of_names : ∀ {s r v w}, s.KeysDiffer → Names s r v → Names s r w → v = w

namespace NameReference

/-- Whether a record refers to something in this way. -/
def Given (ref : NameReference) (r : Record) : Prop := ∃ f ∈ ref.fields, r.has f = true

theorem given_congr (ref : NameReference) {r r' : Record} (h : r.SameNames r') :
    ref.Given r' ↔ ref.Given r := by
  unfold Given Record.has
  constructor <;> rintro ⟨f, hf, hgiven⟩ <;> refine ⟨f, hf, ?_⟩
  · rwa [← h.names f (ref.fields_subset hf)]
  · rwa [h.names f (ref.fields_subset hf)]

/-- A row of a kind, by a name that no other row of the kind has. -/
def ofKind (k : Kind) (name : Row k → String) (nameField target : String)
    (hfield : [nameField] ⊆ Record.nameFields) (htarget : target ∉ Record.nameFields)
    (hscope : ∀ scope ∈ Record.scopes, target = scope.2 → [nameField] = [scope.1])
    (hkey : ∀ a b : Row k, name a = name b → ∃ key ∈ Row.keys k a, key ∈ Row.keys k b) :
    NameReference where
  fields := [nameField]
  target := target
  Names s r v :=
    ∃ row ∈ s.rows k, r.given? nameField = some (.text (name row)) ∧ v = .int (Row.id k row)
  fields_subset := hfield
  target_notMem := htarget
  fields_of_scope := hscope
  isNull_of_names := by
    rintro _ _ _ ⟨_, _, _, rfl⟩
    rfl
  names_of_sameNames h hnames := by
    rwa [h.names nameField (hfield List.mem_cons_self)]
  eq_of_names hkeys hv hw := by
    obtain ⟨a, ha, hname, rfl⟩ := hv
    obtain ⟨b, hb, hname', rfl⟩ := hw
    rw [hname, Option.some.injEq, Field.text.injEq] at hname'
    obtain ⟨key, hkey, hkey'⟩ := hkey a b hname'
    rw [hkeys k a ha b hb key hkey hkey']

/-- A row of a kind, by a name that no other row of the kind in its class has. The class is the one
that the record gives in `entity_class_name` or `entity_class_id`. -/
def inClass (k : Kind) (classOf : Row k → Id) (name : Row k → String) (nameField target : String)
    (hfield : [nameField] ⊆ Record.nameFields) (htarget : target ∉ Record.nameFields)
    (hscope : ∀ scope ∈ Record.scopes, target = scope.2 → [nameField] = [scope.1])
    (hkey : ∀ a b : Row k, classOf a = classOf b → name a = name b →
      ∃ key ∈ Row.keys k a, key ∈ Row.keys k b) :
    NameReference where
  fields := [nameField]
  target := target
  Names s r v := ∃ row ∈ s.rows k, r.given? nameField = some (.text (name row)) ∧
    r.ClassGiven s ("entity_class_name", "entity_class_id") (classOf row) ∧
      v = .int (Row.id k row)
  fields_subset := hfield
  target_notMem := htarget
  fields_of_scope := hscope
  isNull_of_names := by
    rintro _ _ _ ⟨_, _, _, _, rfl⟩
    rfl
  names_of_sameNames h hnames := by
    obtain ⟨row, hrow, hname, hclass, hv⟩ := hnames
    refine ⟨row, hrow, ?_, h.classGiven List.mem_cons_self hclass, hv⟩
    rwa [h.names nameField (hfield List.mem_cons_self)]
  eq_of_names hkeys hv hw := by
    obtain ⟨a, ha, hname, hclass, rfl⟩ := hv
    obtain ⟨b, hb, hname', hclass', rfl⟩ := hw
    rw [hname, Option.some.injEq, Field.text.injEq] at hname'
    obtain ⟨key, hkey, hkey'⟩ := hkey a b (hclass.eq hkeys hclass') hname'
    rw [hkeys k a ha b hb key hkey hkey']

/-- The class that owns a row. -/
def ownerClass : NameReference :=
  ofKind .entityClass EntityClass.name "entity_class_name" "entity_class_id" (by decide) (by decide)
    (by decide) fun a b h => ⟨_, List.mem_cons_self, by simp [Row.keys, EntityClass.keys, h]⟩

def classOfEntity : NameReference :=
  ofKind .entityClass EntityClass.name "class_name" "class_id" (by decide) (by decide)
    (by decide) fun a b h => ⟨_, List.mem_cons_self, by simp [Row.keys, EntityClass.keys, h]⟩

def valueList : NameReference :=
  ofKind .valueList ValueList.name "value_list_name" "parameter_value_list_id" (by decide)
    (by decide) (by decide)
    fun a b h => ⟨_, List.mem_cons_self, by simp [Row.keys, ValueList.keys, h]⟩

def alternative : NameReference :=
  ofKind .alternative Alternative.name "alternative_name" "alternative_id" (by decide) (by decide)
    (by decide) fun a b h => ⟨_, List.mem_cons_self, by simp [Row.keys, Alternative.keys, h]⟩

def scenario : NameReference :=
  ofKind .scenario Scenario.name "scenario_name" "scenario_id" (by decide) (by decide)
    (by decide) fun a b h => ⟨_, List.mem_cons_self, by simp [Row.keys, Scenario.keys, h]⟩

def tag : NameReference :=
  ofKind .parameterTag ParameterTag.tag "parameter_tag_name" "parameter_tag_id" (by decide)
    (by decide) (by decide)
    fun a b h => ⟨_, List.mem_cons_self, by simp [Row.keys, ParameterTag.keys, h]⟩

def tool : NameReference :=
  ofKind .tool Tool.name "tool_name" "tool_id" (by decide) (by decide) (by decide)
    fun a b h => ⟨_, List.mem_cons_self, by simp [Row.keys, Tool.keys, h]⟩

/-- An entity of the record's class. -/
def entity (nameField target : String) (hfield : [nameField] ⊆ Record.nameFields)
    (htarget : target ∉ Record.nameFields)
    (hscope : ∀ scope ∈ Record.scopes, target = scope.2 → [nameField] = [scope.1]) :
    NameReference :=
  inClass .entity Entity.classId Entity.name nameField target hfield htarget hscope
    fun a b hclass hname => ⟨_, List.mem_cons_self, by simp [Row.keys, Entity.keys, hclass, hname]⟩

/-- A definition of the record's class. -/
def definition : NameReference :=
  inClass .parameterDefinition ParameterDefinition.entityClassId ParameterDefinition.name
    "parameter_definition_name" "parameter_definition_id" (by decide) (by decide) (by decide)
    fun a b hclass hname => ⟨_, List.mem_cons_self, by
      simp [Row.keys, ParameterDefinition.keys, hclass, hname]⟩

/-- Metadata, by name and value together. -/
def metadata : NameReference where
  fields := ["metadata_name", "metadata_value"]
  target := "metadata_id"
  Names s r v := ∃ m ∈ s.rows .metadata, r.given? "metadata_name" = some (.text m.name) ∧
    r.given? "metadata_value" = some (.text m.value) ∧ v = .int m.id
  fields_subset := by decide
  target_notMem := by decide
  fields_of_scope := by decide
  isNull_of_names := by
    rintro _ _ _ ⟨_, _, _, _, rfl⟩
    rfl
  names_of_sameNames h hnames := by
    rwa [h.names "metadata_name" (by decide), h.names "metadata_value" (by decide)]
  eq_of_names hkeys hv hw := by
    obtain ⟨a, ha, hname, hvalue, rfl⟩ := hv
    obtain ⟨b, hb, hname', hvalue', rfl⟩ := hw
    rw [hname, Option.some.injEq, Field.text.injEq] at hname'
    rw [hvalue, Option.some.injEq, Field.text.injEq] at hvalue'
    have hkey : (⟨"name, value", [.text a.name, .text a.value]⟩ : UniqueKey) ∈
        Row.keys .metadata b := by
      simp [Row.keys, Metadata.keys, hname', hvalue']
    rw [hkeys .metadata a ha b hb _ List.mem_cons_self hkey]

/-- The classes of the members of a relationship class. -/
def memberClasses : NameReference where
  fields := ["member_class_names"]
  target := "member_class_ids"
  Names s r v := ∃ cs : List EntityClass, (∀ c ∈ cs, c ∈ s.rows .entityClass) ∧
    r.given? "member_class_names" = some (.names (cs.map (·.name))) ∧ v = .ids (cs.map (·.id))
  fields_subset := by decide
  target_notMem := by decide
  fields_of_scope := by decide
  isNull_of_names := by
    rintro _ _ _ ⟨_, _, _, rfl⟩
    rfl
  names_of_sameNames h hnames := by rwa [h.names "member_class_names" (by decide)]
  eq_of_names hkeys hv hw := by
    obtain ⟨cs, hcs, hname, rfl⟩ := hv
    obtain ⟨ds, hds, hname', rfl⟩ := hw
    rw [hname, Option.some.injEq, Field.names.injEq] at hname'
    rw [eq_of_map_eq hname' fun a ha b hb => hkeys.eq_of_className (hcs a ha) (hds b hb)]

/-- The members of a relationship, one for each member class of its class. -/
def members : NameReference where
  fields := ["member_names"]
  target := "member_ids"
  Names s r v := ∃ c ∈ s.rows .entityClass, r.ClassGiven s ("class_name", "class_id") c.id ∧
    ∃ es : List Entity, (∀ e ∈ es, e ∈ s.rows .entity) ∧
      es.map (·.classId) = c.memberClassIds ∧
      r.given? "member_names" = some (.names (es.map (·.name))) ∧ v = .ids (es.map (·.id))
  fields_subset := by decide
  target_notMem := by decide
  fields_of_scope := by decide
  isNull_of_names := by
    rintro _ _ _ ⟨_, _, _, _, _, _, _, rfl⟩
    rfl
  names_of_sameNames h hnames := by
    obtain ⟨c, hc, hclass, hmembers⟩ := hnames
    refine ⟨c, hc, h.classGiven (by decide) hclass, ?_⟩
    rwa [h.names "member_names" (by decide)]
  eq_of_names hkeys hv hw := by
    obtain ⟨c, hc, hclass, es, hes, hclasses, hname, rfl⟩ := hv
    obtain ⟨d, hd, hclass', fs, hfs, hclasses', hname', rfl⟩ := hw
    obtain rfl := Snapshot.eq_of_id_eq hc hd (hclass.eq hkeys hclass')
    rw [hname, Option.some.injEq, Field.names.injEq] at hname'
    have hpairs : es.map (fun e => (e.classId, e.name)) = fs.map fun e => (e.classId, e.name) := by
      rw [← List.zip_map', ← List.zip_map', hclasses, hclasses', hname']
    rw [eq_of_map_eq hpairs fun a ha b hb h =>
      hkeys.eq_of_entityName (hes a ha) (hfs b hb) (Prod.mk.inj h).1 (Prod.mk.inj h).2]

/-- `ref.Step s r r'`: the record `r'` has the ids of what `r` names by the reference, if it gives
that, and is otherwise like `r`. -/
structure Step (ref : NameReference) (s : Snapshot) (r r' : Record) : Prop where
  named : ref.Given r → ∃ v, ref.Names s r v ∧ r'.get? ref.target = some v
  kept : ∀ f, (ref.Given r → f ≠ ref.target) → r'.get? f = r.get? f

theorem Step.of_not_given {ref : NameReference} {s : Snapshot} {r : Record} (h : ¬ref.Given r) :
    ref.Step s r r :=
  ⟨fun hgiven => absurd hgiven h, fun _ _ => rfl⟩

theorem Step.of_set {ref : NameReference} {s : Snapshot} {r : Record} {v : Field}
    (hgiven : ref.Given r) (h : ref.Names s r v) : ref.Step s r (r.set ref.target v) := by
  constructor
  · intro _
    exact ⟨v, h, by rw [SortedMap.get?_set, if_pos rfl]⟩
  · intro f hf
    rw [SortedMap.get?_set, if_neg (hf hgiven).symm]

end NameReference

/-- `Filled columns s r refs r'`: the record `r'` has the ids of what `r` names by the given ones of
the references, as far as they go in the columns, and is otherwise like `r`. -/
structure Record.Filled (columns : List String) (s : Snapshot) (r : Record)
    (refs : List NameReference) (r' : Record) : Prop where
  named : ∀ ref ∈ refs, ref.target ∈ columns → ref.Given r →
    ∃ v, ref.Names s r v ∧ r'.get? ref.target = some v
  kept : ∀ f, (∀ ref ∈ refs, ref.Given r → f ≠ ref.target) → r'.get? f = r.get? f

namespace Record.Filled
variable {columns : List String} {s : Snapshot} {r r₁ r₂ : Record} {refs : List NameReference}
  {ref : NameReference}

theorem nil : Filled columns s r [] r := ⟨fun _ h => (List.not_mem_nil h).elim, fun _ _ => rfl⟩

theorem unused (h : ref.target ∉ columns) : Filled columns s r [ref] r := by
  refine ⟨fun ref' href htarget => ?_, fun _ _ => rfl⟩
  rw [List.mem_singleton.1 href] at htarget
  exact absurd htarget h

theorem get?_eq_of_mem (h : Filled columns s r refs r₁) {f : String} (hf : f ∈ nameFields) :
    r₁.get? f = r.get? f :=
  h.kept f fun ref _ _ hname => ref.target_notMem (hname ▸ hf)

theorem get?_eq_of_scope (h : Filled columns s r refs r₁) {scope : String × String}
    (hscope : scope ∈ scopes) (hnone : r.given? scope.1 = none) :
    r₁.get? scope.2 = r.get? scope.2 := by
  refine h.kept _ fun ref _ hgiven htarget => ?_
  obtain ⟨f, hf, hhas⟩ := hgiven
  rw [ref.fields_of_scope scope hscope htarget.symm, List.mem_singleton] at hf
  rw [hf, has, hnone] at hhas
  cases hhas

theorem sameNames (h : Filled columns s r refs r₁) : r.SameNames r₁ := by
  constructor
  · intro f hf
    rw [given?, h.get?_eq_of_mem hf, given?]
  · intro scope hscope hnone i hi
    rwa [int?, h.get?_eq_of_scope hscope hnone]

theorem sameNames' (h : Filled columns s r refs r₁) : r₁.SameNames r := by
  constructor
  · intro f hf
    rw [given?, given?, h.get?_eq_of_mem hf]
  · intro scope hscope hnone i hi
    rw [h.sameNames.names _ (fst_mem_nameFields hscope)] at hnone
    rwa [int?, ← h.get?_eq_of_scope hscope hnone]

theorem given_iff (h : Filled columns s r refs r₁) : ref.Given r₁ ↔ ref.Given r :=
  ref.given_congr h.sameNames

theorem append (h : Filled columns s r refs r₁) (hstep : ref.Step s r₁ r₂)
    (hnodup : ((refs ++ [ref]).map NameReference.target).Nodup) :
    Filled columns s r (refs ++ [ref]) r₂ := by
  have hne (ref' : NameReference) (hmem : ref' ∈ refs) : ref'.target ≠ ref.target := by
    rw [List.map_append, List.nodup_append] at hnodup
    exact hnodup.2.2 _ (List.mem_map_of_mem hmem) _ (by simp)
  constructor
  · intro ref' hmem htarget hgiven
    rcases List.mem_append.1 hmem with hmem | hmem
    · obtain ⟨v, hv, hget⟩ := h.named ref' hmem htarget hgiven
      exact ⟨v, hv, by rw [hstep.kept _ fun _ => hne ref' hmem, hget]⟩
    · obtain rfl := List.mem_singleton.1 hmem
      obtain ⟨v, hv, hget⟩ := hstep.named (h.given_iff.2 hgiven)
      exact ⟨v, ref'.names_of_sameNames h.sameNames' hv, hget⟩
  · intro f hf
    rw [hstep.kept f fun hgiven => hf ref (by simp) (h.given_iff.1 hgiven)]
    exact h.kept f fun ref' hmem => hf ref' (List.mem_append_left _ hmem)

theorem again (h : Filled columns s r refs r₁) (hstep : ref.Step s r₁ r₂) (hmem : ref ∈ refs)
    (hnodup : (refs.map NameReference.target).Nodup) : Filled columns s r refs r₂ := by
  constructor
  · intro ref' hmem' htarget hgiven
    by_cases hsame : ref'.target = ref.target
    · obtain rfl := List.inj_on_of_nodup_map hnodup hmem' hmem hsame
      obtain ⟨v, hv, hget⟩ := hstep.named (h.given_iff.2 hgiven)
      exact ⟨v, ref'.names_of_sameNames h.sameNames' hv, hget⟩
    · obtain ⟨v, hv, hget⟩ := h.named ref' hmem' htarget hgiven
      exact ⟨v, hv, by rw [hstep.kept _ fun _ => hsame, hget]⟩
  · intro f hf
    rw [hstep.kept f fun hgiven => hf ref hmem (h.given_iff.1 hgiven)]
    exact h.kept f hf

end Record.Filled

end EntityStore
