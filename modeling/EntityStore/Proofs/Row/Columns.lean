import EntityStore.Proofs.Row.Reading
import Mathlib.Data.List.Forall2
import Mathlib.Data.List.Nodup
/-!
# The fields of a kind

The stored record of a row has its id and the columns of its kind. A column is read from the value
that a record gives under the column's name, or under one of the names of its variants, and its form
says what is stored of that value (`Row.reads_of_ofRecord`). Nothing else of a record is read
(`Row.ofRecord_congr`) and nothing else is stored (`Row.get?_toRecord_eq_none`).
-/
namespace EntityStore

/-- What is stored of a value that may be given or not. -/
inductive Column.Form where
  /-- The value, which has to be given. -/
  | required
  | optional
  /-- The value, or a default. -/
  | orElse (default : Field)
  /-- The list, unless it is empty. -/
  | list
  /-- Zero for none and for zero, and one for any other number. -/
  | flag
  deriving DecidableEq

structure Column where
  field : String
  form : Column.Form
  /-- Other names under which the value may be given. -/
  variants : List String

namespace Column

def Form.stored : Form → Option Field → Option Field
  | required, v | optional, v => v
  | orElse default, v => some (v.getD default)
  | list, v => if v = some (.ids []) then none else v
  | flag, v => some (.int (if v.getD (.int 0) = .int 0 then 0 else 1))

def names (c : Column) : List String := c.field :: c.variants

/-- The value that a record gives for a column. -/
def given? (c : Column) (r : Record) : Option Field := c.names.findSome? r.given?

/-- `c.Reads r v`: the record `r` gives at most one value for the column, a required one, of which
`v` is stored. -/
structure Reads (c : Column) (r : Record) (v : Option Field) : Prop where
  given : c.form = .required → c.given? r ≠ none
  one : ∀ f ∈ c.names, r.has f = true → r.given? f = c.given? r
  stored : v = c.form.stored (c.given? r)

theorem given?_of_variants {c : Column} {r : Record} (h : ∀ g ∈ c.variants, r.given? g = none) :
    c.given? r = r.given? c.field := by
  rw [given?, names, List.findSome?_cons, List.findSome?_eq_none_iff.2 h]
  cases r.given? c.field <;> rfl

theorem reads_of_given? {r : Record} {f : String} {form : Form} {v : Option Field}
    (hgiven : form = .required → r.given? f ≠ none) (hstored : v = form.stored (r.given? f)) :
    Reads ⟨f, form, []⟩ r v := by
  have hsole : given? ⟨f, form, []⟩ r = r.given? f := by
    cases h : r.given? f <;> simp [given?, names, h]
  refine ⟨fun h => by rw [hsole]; exact hgiven h, fun g hg _ => ?_, by rw [hsole]; exact hstored⟩
  rw [hsole, List.mem_singleton.1 hg]

section Read
variable {r : Record} {f : String}

theorem optionalId_eq_ok {i : Option Id} (h : r.optionalId f = .ok i) :
    r.given? f = i.map .int := by
  unfold Record.optionalId at h
  split at h <;> cases h <;> simpa

theorem optionalText_eq_ok {t : Option String} (h : r.optionalText f = .ok t) :
    r.given? f = t.map .text := by
  unfold Record.optionalText at h
  split at h <;> cases h <;> simpa

theorem requiredId_eq_ok {i : Id} (h : r.requiredId f = .ok i) : r.given? f = some (.int i) := by
  unfold Record.requiredId at h
  obtain ⟨given, hgiven, h⟩ := bind_eq_ok_iff.1 h
  rw [optionalId_eq_ok hgiven]
  cases given <;> cases h
  rfl

theorem requiredText_eq_ok {t : String} (h : r.requiredText f = .ok t) :
    r.given? f = some (.text t) := by
  unfold Record.requiredText at h
  obtain ⟨given, hgiven, h⟩ := bind_eq_ok_iff.1 h
  rw [optionalText_eq_ok hgiven]
  cases given <;> cases h
  rfl

theorem reads_requiredId {i : Id} (h : r.requiredId f = .ok i) :
    Reads ⟨f, .required, []⟩ r (some (.int i)) :=
  reads_of_given? (by simp [requiredId_eq_ok h]) (requiredId_eq_ok h).symm

theorem reads_requiredText {t : String} (h : r.requiredText f = .ok t) :
    Reads ⟨f, .required, []⟩ r (some (.text t)) :=
  reads_of_given? (by simp [requiredText_eq_ok h]) (requiredText_eq_ok h).symm

theorem reads_optionalId {i : Option Id} (h : r.optionalId f = .ok i) :
    Reads ⟨f, .optional, []⟩ r (i.map .int) :=
  reads_of_given? nofun (optionalId_eq_ok h).symm

theorem reads_optionalText {t : Option String} (h : r.optionalText f = .ok t) :
    Reads ⟨f, .optional, []⟩ r (t.map .text) :=
  reads_of_given? nofun (optionalText_eq_ok h).symm

theorem reads_textOr {t : Option String} (h : r.optionalText f = .ok t) (default : String) :
    Reads ⟨f, .orElse (.text default), []⟩ r (some (.text (t.getD default))) := by
  refine reads_of_given? nofun ?_
  rw [optionalText_eq_ok h]
  cases t <;> rfl

theorem reads_idOr {default i : Id} (h : r.idOr f default = .ok i) :
    Reads ⟨f, .orElse (.int default), []⟩ r (some (.int i)) := by
  unfold Record.idOr at h
  simp only [bind_eq_ok_iff, pure_eq_ok_iff] at h
  obtain ⟨given, hgiven, rfl⟩ := h
  refine reads_of_given? nofun ?_
  rw [optionalId_eq_ok hgiven]
  cases given <;> rfl

theorem reads_idList {l : List Id} (h : r.idList f = .ok l) :
    Reads ⟨f, .list, []⟩ r (Record.idsField l) := by
  refine reads_of_given? nofun ?_
  unfold Record.idList at h
  split at h <;> cases h
  · simp_all [Form.stored, Record.idsField]
  · simp_all [Form.stored, Record.idsField]

theorem reads_flag {b : Bool} (h : r.flag f = .ok b) :
    Reads ⟨f, .flag, []⟩ r (Record.flagField b) := by
  unfold Record.flag Record.idOr at h
  simp only [bind_eq_ok_iff, pure_eq_ok_iff] at h
  obtain ⟨i, ⟨given, hgiven, rfl⟩, rfl⟩ := h
  refine reads_of_given? nofun ?_
  rw [optionalId_eq_ok hgiven]
  cases given with
  | none => rfl
  | some i => by_cases hi : i = 0 <;> simp [Form.stored, Record.flagField, hi]

theorem reads_reference {fs : ReferenceFields} {i : Id} {v : Variant}
    (h : r.reference fs = .ok (i, v)) :
    Reads ⟨fs.plain, .required, [fs.object, fs.relationship]⟩ r (some (.int i)) := by
  unfold Record.reference at h
  simp only [bind_eq_ok_iff] at h
  obtain ⟨plain, hplain, object, hobject, relationship, hrelationship, h⟩ := h
  replace hplain := optionalId_eq_ok hplain
  replace hobject := optionalId_eq_ok hobject
  replace hrelationship := optionalId_eq_ok hrelationship
  cases plain <;> cases object <;> cases relationship <;> cases h <;>
    constructor <;>
    simp [given?, names, Record.has, Form.stored, hplain, hobject, hrelationship]

end Read

end Column

namespace Record

theorem get?_ofFields_of_mem {fields : List (String × Option Field)}
    (hnodup : (fields.map Prod.fst).Nodup) {f : String} {v : Option Field} (h : (f, v) ∈ fields) :
    (ofFields fields).get? f = v := by
  rw [get?_ofFields]
  cases hfound : fields.reverse.findSome? fun e => if e.1 = f then e.2 else none with
  | none => simpa using (List.findSome?_eq_none_iff.1 hfound (f, v) (List.mem_reverse.2 h)).symm
  | some w =>
    obtain ⟨⟨f', v'⟩, hmem, hw⟩ := List.exists_of_findSome?_eq_some hfound
    obtain ⟨rfl, rfl⟩ := Option.ite_none_right_eq_some.1 hw
    rw [List.mem_reverse] at hmem
    exact (Prod.mk.inj (List.inj_on_of_nodup_map hnodup hmem h rfl)).2

theorem get?_ofFields_eq_none {fields : List (String × Option Field)} {f : String}
    (h : f ∉ fields.map Prod.fst) : (ofFields fields).get? f = none := by
  rw [get?_ofFields, List.findSome?_eq_none_iff]
  intro e he
  exact if_neg fun hname => h (List.mem_map.2 ⟨e, List.mem_reverse.1 he, hname⟩)

end Record

namespace Row

/-- The columns of a kind, in the order in which they are stored. -/
def columns : Kind → List Column
  | .entityClass =>
    [⟨"name", .required, []⟩, ⟨"description", .optional, []⟩, ⟨"member_class_ids", .list, []⟩]
  | .entity =>
    [⟨"class_id", .required, []⟩, ⟨"name", .orElse (.text ""), []⟩, ⟨"description", .optional, []⟩,
      ⟨"member_ids", .list, []⟩]
  | .entityGroup =>
    [⟨"entity_class_id", .required, []⟩, ⟨"entity_id", .required, []⟩,
      ⟨"member_id", .required, []⟩]
  | .parameterDefinition =>
    [⟨"entity_class_id", .required, ["object_class_id", "relationship_class_id"]⟩,
      ⟨"name", .required, []⟩, ⟨"default_value", .optional, []⟩,
      ⟨"parameter_value_list_id", .optional, []⟩, ⟨"description", .optional, []⟩]
  | .parameterValue =>
    [⟨"entity_class_id", .orElse (.int pendingId), []⟩,
      ⟨"entity_id", .required, ["object_id", "relationship_id"]⟩,
      ⟨"parameter_definition_id", .required, []⟩, ⟨"alternative_id", .orElse (.int pendingId), []⟩,
      ⟨"value", .required, []⟩]
  | .valueList => [⟨"name", .required, []⟩]
  | .listValue =>
    [⟨"parameter_value_list_id", .required, []⟩, ⟨"value_index", .required, []⟩,
      ⟨"value", .required, []⟩]
  | .parameterTag => [⟨"tag", .required, []⟩, ⟨"description", .optional, []⟩]
  | .alternative | .tool => [⟨"name", .required, []⟩, ⟨"description", .optional, []⟩]
  | .scenario =>
    [⟨"name", .required, []⟩, ⟨"description", .optional, []⟩, ⟨"active", .flag, []⟩]
  | .scenarioAlternative =>
    [⟨"scenario_id", .required, []⟩, ⟨"alternative_id", .required, []⟩, ⟨"rank", .required, []⟩]
  | .definitionTag =>
    [⟨"parameter_definition_id", .required, []⟩, ⟨"parameter_tag_id", .required, []⟩]
  | .feature =>
    [⟨"parameter_definition_id", .required, []⟩,
      ⟨"parameter_value_list_id", .orElse (.int pendingId), []⟩, ⟨"description", .optional, []⟩]
  | .toolFeature =>
    [⟨"tool_id", .required, []⟩, ⟨"feature_id", .required, []⟩, ⟨"required", .flag, []⟩]
  | .toolFeatureMethod => [⟨"tool_feature_id", .required, []⟩, ⟨"method_index", .required, []⟩]
  | .metadata => [⟨"name", .required, []⟩, ⟨"value", .required, []⟩]
  | .entityMetadata => [⟨"entity_id", .required, []⟩, ⟨"metadata_id", .required, []⟩]
  | .valueMetadata => [⟨"parameter_value_id", .required, []⟩, ⟨"metadata_id", .required, []⟩]

/-- The names under which the fields of a row are stored, its id aside. -/
def fields (k : Kind) : List String := (columns k).map Column.field

/-- The names under which a record gives a row. -/
def sources (k : Kind) : List String := "id" :: (columns k).flatMap Column.names

theorem nodup_fields (k : Kind) : ("id" :: fields k).Nodup := by
  cases k <;> decide

section Read
variable {k : Kind} {r : Record} {row : Row k}

open Column in
theorem exists_entries (h : ofRecord k r = .ok row) : ∃ entries : List (String × Option Field),
    toRecord k row = .ofFields (("id", some (.int (Row.id k row))) :: entries) ∧
      List.Forall₂ (fun c e => e.1 = c.field ∧ c.Reads r e.2) (columns k) entries := by
  cases k with
  | entityClass =>
    simp only [ofRecord, EntityClass.ofRecord, bind_eq_ok_iff, pure_eq_ok_iff] at h
    obtain ⟨_, _, _, h1, _, h2, _, h3, rfl⟩ := h
    exact ⟨_, rfl, .cons ⟨rfl, reads_requiredText h1⟩ (.cons ⟨rfl, reads_optionalText h2⟩
      (.cons ⟨rfl, reads_idList h3⟩ .nil))⟩
  | entity =>
    simp only [ofRecord, Entity.ofRecord, bind_eq_ok_iff, pure_eq_ok_iff] at h
    obtain ⟨_, _, _, h1, _, h2, _, h3, _, h4, rfl⟩ := h
    exact ⟨_, rfl, .cons ⟨rfl, reads_requiredId h1⟩ (.cons ⟨rfl, reads_textOr h2 ""⟩
      (.cons ⟨rfl, reads_optionalText h3⟩ (.cons ⟨rfl, reads_idList h4⟩ .nil)))⟩
  | parameterDefinition =>
    simp only [ofRecord, ParameterDefinition.ofRecord, bind_eq_ok_iff, pure_eq_ok_iff] at h
    obtain ⟨_, _, ⟨_, _⟩, h1, _, h2, _, h3, _, h4, _, h5, rfl⟩ := h
    exact ⟨_, rfl, .cons ⟨rfl, reads_reference h1⟩ (.cons ⟨rfl, reads_requiredText h2⟩
      (.cons ⟨rfl, reads_optionalText h3⟩ (.cons ⟨rfl, reads_optionalId h4⟩
        (.cons ⟨rfl, reads_optionalText h5⟩ .nil))))⟩
  | parameterValue =>
    simp only [ofRecord, ParameterValue.ofRecord, bind_eq_ok_iff, pure_eq_ok_iff] at h
    obtain ⟨_, _, ⟨_, _⟩, h2, _, h1, _, h3, _, h4, _, h5, rfl⟩ := h
    exact ⟨_, rfl, .cons ⟨rfl, reads_idOr h1⟩ (.cons ⟨rfl, reads_reference h2⟩
      (.cons ⟨rfl, reads_requiredId h3⟩ (.cons ⟨rfl, reads_idOr h4⟩
        (.cons ⟨rfl, reads_requiredText h5⟩ .nil))))⟩
  | valueList =>
    simp only [ofRecord, ValueList.ofRecord, bind_eq_ok_iff, pure_eq_ok_iff] at h
    obtain ⟨_, _, _, h1, rfl⟩ := h
    exact ⟨_, rfl, .cons ⟨rfl, reads_requiredText h1⟩ .nil⟩
  | listValue =>
    simp only [ofRecord, ListValue.ofRecord, bind_eq_ok_iff, pure_eq_ok_iff] at h
    obtain ⟨_, _, _, h1, _, h2, _, h3, rfl⟩ := h
    exact ⟨_, rfl, .cons ⟨rfl, reads_requiredId h1⟩ (.cons ⟨rfl, reads_requiredId h2⟩
      (.cons ⟨rfl, reads_requiredText h3⟩ .nil))⟩
  | alternative | parameterTag | tool =>
    simp only [ofRecord, Alternative.ofRecord, ParameterTag.ofRecord, Tool.ofRecord,
      bind_eq_ok_iff, pure_eq_ok_iff] at h
    obtain ⟨_, _, _, h1, _, h2, rfl⟩ := h
    exact ⟨_, rfl, .cons ⟨rfl, reads_requiredText h1⟩ (.cons ⟨rfl, reads_optionalText h2⟩ .nil)⟩
  | scenario =>
    simp only [ofRecord, Scenario.ofRecord, bind_eq_ok_iff, pure_eq_ok_iff] at h
    obtain ⟨_, _, _, h1, _, h2, _, h3, rfl⟩ := h
    exact ⟨_, rfl, .cons ⟨rfl, reads_requiredText h1⟩ (.cons ⟨rfl, reads_optionalText h2⟩
      (.cons ⟨rfl, reads_flag h3⟩ .nil))⟩
  | entityGroup | scenarioAlternative =>
    simp only [ofRecord, EntityGroup.ofRecord, ScenarioAlternative.ofRecord, bind_eq_ok_iff,
      pure_eq_ok_iff] at h
    obtain ⟨_, _, _, h1, _, h2, _, h3, rfl⟩ := h
    exact ⟨_, rfl, .cons ⟨rfl, reads_requiredId h1⟩ (.cons ⟨rfl, reads_requiredId h2⟩
      (.cons ⟨rfl, reads_requiredId h3⟩ .nil))⟩
  | feature =>
    simp only [ofRecord, Feature.ofRecord, bind_eq_ok_iff, pure_eq_ok_iff] at h
    obtain ⟨_, _, _, h1, _, h2, _, h3, rfl⟩ := h
    exact ⟨_, rfl, .cons ⟨rfl, reads_requiredId h1⟩ (.cons ⟨rfl, reads_idOr h2⟩
      (.cons ⟨rfl, reads_optionalText h3⟩ .nil))⟩
  | toolFeature =>
    simp only [ofRecord, ToolFeature.ofRecord, bind_eq_ok_iff, pure_eq_ok_iff] at h
    obtain ⟨_, _, _, h1, _, h2, _, h3, rfl⟩ := h
    exact ⟨_, rfl, .cons ⟨rfl, reads_requiredId h1⟩ (.cons ⟨rfl, reads_requiredId h2⟩
      (.cons ⟨rfl, reads_flag h3⟩ .nil))⟩
  | metadata =>
    simp only [ofRecord, Metadata.ofRecord, bind_eq_ok_iff, pure_eq_ok_iff] at h
    obtain ⟨_, _, _, h1, _, h2, rfl⟩ := h
    exact ⟨_, rfl, .cons ⟨rfl, reads_requiredText h1⟩ (.cons ⟨rfl, reads_requiredText h2⟩ .nil)⟩
  | definitionTag | toolFeatureMethod | entityMetadata | valueMetadata =>
    simp only [ofRecord, DefinitionTag.ofRecord, ToolFeatureMethod.ofRecord,
      EntityMetadata.ofRecord, ValueMetadata.ofRecord, bind_eq_ok_iff, pure_eq_ok_iff] at h
    obtain ⟨_, _, _, h1, _, h2, rfl⟩ := h
    exact ⟨_, rfl, .cons ⟨rfl, reads_requiredId h1⟩ (.cons ⟨rfl, reads_requiredId h2⟩ .nil)⟩

theorem map_fst_of_forall₂ {cs : List Column} {entries : List (String × Option Field)}
    {R : Column → Option Field → Prop}
    (h : List.Forall₂ (fun c e => e.1 = c.field ∧ R c e.2) cs entries) :
    entries.map Prod.fst = cs.map Column.field := by
  induction h with
  | nil => rfl
  | cons hfirst _ ih => rw [List.map_cons, List.map_cons, hfirst.1, ih]

/-- Every column of a row has what is stored of the value that the record gives. -/
theorem reads_of_ofRecord (h : ofRecord k r = .ok row) :
    ∀ c ∈ columns k, c.Reads r ((toRecord k row).get? c.field) := by
  obtain ⟨entries, hentries, hread⟩ := exists_entries h
  have hnodup : ((("id", some (Field.int (Row.id k row))) :: entries).map Prod.fst).Nodup := by
    rw [List.map_cons, map_fst_of_forall₂ hread]
    exact nodup_fields k
  intro c hc
  obtain ⟨⟨n, hn⟩, rfl⟩ := List.mem_iff_get.1 hc
  have hlength := hread.length_eq
  obtain ⟨hname, hreads⟩ := hread.get hn (hlength ▸ hn)
  have hget := Record.get?_ofFields_of_mem hnodup
    (List.mem_cons_of_mem _ (List.getElem_mem (hlength ▸ hn)))
  rw [hentries, ← hname]
  exact hget ▸ hreads

variable (k) (row)

theorem exists_entries_toRecord : ∃ entries : List (String × Option Field),
    entries.map Prod.fst = fields k ∧
      toRecord k row = .ofFields (("id", some (.int (Row.id k row))) :: entries) := by
  obtain ⟨entries, hentries, hread⟩ := exists_entries (ofRecord_toRecord k row)
  rw [toRecord_stored, id_stored] at hentries
  exact ⟨entries, map_fst_of_forall₂ hread, hentries⟩

@[simp] theorem get?_toRecord_id :
    (toRecord k row).get? "id" = some (.int (Row.id k row)) := by
  obtain ⟨entries, hfields, hentries⟩ := exists_entries_toRecord k row
  rw [hentries]
  refine Record.get?_ofFields_of_mem ?_ List.mem_cons_self
  rw [List.map_cons, hfields]
  exact nodup_fields k

variable {k}

theorem get?_toRecord_eq_none {f : String} (h : f ∉ "id" :: fields k) :
    (toRecord k row).get? f = none := by
  obtain ⟨entries, hfields, hentries⟩ := exists_entries_toRecord k row
  rw [hentries]
  apply Record.get?_ofFields_eq_none
  rw [List.map_cons, hfields]
  exact h

end Read

attribute [local simp] Record.rowId Record.idOr Record.requiredId Record.optionalId
  Record.requiredText Record.optionalText Record.idList Record.flag Record.reference in
theorem ofRecord_congr {k : Kind} {r r' : Record} (h : ∀ f ∈ sources k, r.given? f = r'.given? f) :
    ofRecord k r = ofRecord k r' := by
  cases k <;>
    simp only [sources, columns, Column.names, List.flatMap_cons, List.flatMap_nil,
      List.cons_append, List.nil_append, List.forall_mem_cons, List.not_mem_nil, IsEmpty.forall_iff,
      implies_true, and_true] at h <;>
    simp [ofRecord, EntityClass.ofRecord, Entity.ofRecord, EntityGroup.ofRecord,
      ParameterDefinition.ofRecord, ParameterValue.ofRecord, ValueList.ofRecord, ListValue.ofRecord,
      Alternative.ofRecord, Scenario.ofRecord, ScenarioAlternative.ofRecord, ParameterTag.ofRecord,
      DefinitionTag.ofRecord, Feature.ofRecord, Tool.ofRecord, ToolFeature.ofRecord,
      ToolFeatureMethod.ofRecord, Metadata.ofRecord, EntityMetadata.ofRecord,
      ValueMetadata.ofRecord, ReferenceFields.owner, ReferenceFields.subject, h]

end Row

end EntityStore
