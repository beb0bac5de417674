import EntityStore.Proofs.Rules.Valid
/-!
# What gives a list value up

A text is in use when a definition bound to the list has it as its default or in one of its values
(`Snapshot.Uses`); an index is in use when a method has it whose tool feature goes by the list
(`Snapshot.methodList?`). A list value that nothing is found to rely on either says what another
list value of the list says, which stays, or says what nothing that stays uses
(`Snapshot.exists_other_of_listUser`, `Snapshot.exists_other_of_index`).
-/
namespace EntityStore.Snapshot

/-- A text that a definition bound to a list has as its default or in one of its values. -/
def Uses (s : Snapshot) (list : Id) (text : String) : Prop :=
  ∃ d ∈ s.rows .parameterDefinition, d.parameterValueListId = some list ∧
    (d.defaultValue = some text ∨
      ∃ v ∈ s.rows .parameterValue, v.parameterDefinitionId = d.id ∧ v.value = text)

variable {s : Snapshot} {lv : ListValue} {going : IdMap}

theorem textUser_ne_none {d : ParameterDefinition} (hd : d ∈ s.rows .parameterDefinition)
    (hlist : d.parameterValueListId = some lv.parameterValueListId)
    (hstays : going.has .parameterDefinition d.id = false)
    (huse : d.defaultValue = some lv.value ∨ ∃ v ∈ s.rows .parameterValue,
      v.parameterDefinitionId = d.id ∧ v.value = lv.value ∧
        going.has .parameterValue v.id = false) :
    s.textUser lv going ≠ none := by
  have hbound : boundTo lv going d = true := by simp [boundTo, hlist, hstays]
  intro hnone
  unfold textUser at hnone
  split at hnone
  next => cases hnone
  next hdefault =>
    rcases huse with hdef | ⟨v, hv, hid, hvalue, hgoing⟩
    · have hd' := List.find?_eq_none.1 hdefault d hd
      simp [hbound, hdef] at hd'
    · have hfind : s.find? .parameterDefinition v.parameterDefinitionId = some d := by
        rw [hid]
        exact mem_rows_iff.1 hd
      have hv' := List.find?_eq_none.1 (Option.map_eq_none_iff.1 hnone) v hv
      simp [hvalue, hgoing, hfind, hbound] at hv'

/-- A list value whose text is in use is given up only for another that offers it and stays. -/
theorem exists_other_of_listUser {indexGoes : Bool}
    (h : s.listUser lv going true indexGoes = none) (huser : s.textUser lv going ≠ none) :
    ∃ v ∈ s.rows .listValue, v.id ≠ lv.id ∧ v.parameterValueListId = lv.parameterValueListId ∧
      going.has .listValue v.id = false ∧ v.value = lv.value := by
  have htext := (Option.or_eq_none_iff.1 h).1
  split at htext
  next => exact absurd htext huser
  next helse =>
    rw [Bool.true_and, Bool.not_eq_true', Bool.not_eq_false] at helse
    rcases List.any_eq_true.1 helse with ⟨v, hv, halike⟩
    simp only [decide_eq_true_eq, Bool.not_eq_true', ne_eq] at halike
    exact ⟨v, hv, halike.1, halike.2.1, halike.2.2.1, halike.2.2.2⟩

/-- The list of the feature that a tool feature gives to a tool. -/
def methodList? (s : Snapshot) (toolFeature : Id) : Option Id := do
  let t ← s.find? .toolFeature toolFeature
  let f ← s.find? .feature t.featureId
  return f.parameterValueListId

theorem methodList?_eq_some_iff {i list : Id} :
    s.methodList? i = some list ↔ ∃ t, s.find? .toolFeature i = some t ∧
      ∃ f, s.find? .feature t.featureId = some f ∧ f.parameterValueListId = list := by
  simp [methodList?, Option.bind_eq_some_iff]

theorem offersIndex_iff {list : Id} {index : Int} :
    s.offersIndex list index = true ↔
      ∃ v ∈ s.rows .listValue, v.parameterValueListId = list ∧ v.valueIndex = index := by
  simp [offersIndex, Ascending.any, rows]

theorem indexUser_ne_none {m : ToolFeatureMethod} (hm : m ∈ s.rows .toolFeatureMethod)
    (hlist : s.methodList? m.toolFeatureId = some lv.parameterValueListId)
    (hindex : m.methodIndex = lv.valueIndex)
    (hstays : going.has .toolFeatureMethod m.id = false) : s.indexUser lv going ≠ none := by
  rcases methodList?_eq_some_iff.1 hlist with ⟨t, ht, f, hf, hflist⟩
  intro hnone
  have hid : Row.id .toolFeatureMethod m = m.id := rfl
  have hm' := List.find?_eq_none.1 (Option.map_eq_none_iff.1 hnone) m hm
  simp [hid, hindex, hstays, ht, hf, hflist] at hm'

theorem exists_other_of_index {textGoes : Bool} (h : s.listUser lv going textGoes true = none)
    (huser : s.indexUser lv going ≠ none) :
    ∃ v ∈ s.rows .listValue, v.id ≠ lv.id ∧ v.parameterValueListId = lv.parameterValueListId ∧
      going.has .listValue v.id = false ∧ v.valueIndex = lv.valueIndex := by
  have hindex := (Option.or_eq_none_iff.1 h).2
  split at hindex
  next => exact absurd hindex huser
  next helse =>
    rw [Bool.true_and, Bool.not_eq_true', Bool.not_eq_false] at helse
    rcases List.any_eq_true.1 helse with ⟨v, hv, halike⟩
    simp only [decide_eq_true_eq, Bool.not_eq_true', ne_eq] at halike
    exact ⟨v, hv, halike.1, halike.2.1, halike.2.2.1, halike.2.2.2⟩

section Fewer
variable {going' : IdMap} (hrest : ∀ k i, k ≠ .listValue → going'.has k i = going.has k i)
include hrest

theorem textUser_congr : s.textUser lv going' = s.textUser lv going := by
  have hbound : boundTo lv going' = boundTo lv going := by
    funext d
    simp only [boundTo, hrest .parameterDefinition _ (by decide)]
  simp only [textUser, hbound, hrest .parameterValue _ (by decide)]

theorem indexUser_congr : s.indexUser lv going' = s.indexUser lv going := by
  simp only [indexUser, hrest .toolFeatureMethod _ (by decide)]

/-- A list value that nothing relies on is not relied on either when fewer list values go. -/
theorem listUser_eq_none_of_fewer
    (hvalues : ∀ i, going'.has .listValue i = true → going.has .listValue i = true)
    {textGoes indexGoes : Bool} (h : s.listUser lv going textGoes indexGoes = none) :
    s.listUser lv going' textGoes indexGoes = none := by
  have helsewhere (alike : ListValue → Bool) (ho : s.offeredElsewhere lv going alike = true) :
      s.offeredElsewhere lv going' alike = true := by
    rcases List.any_eq_true.1 ho with ⟨v, hv, halike⟩
    apply List.any_eq_true.2 ⟨v, hv, _⟩
    simp only [decide_eq_true_eq, Bool.not_eq_true'] at halike ⊢
    refine ⟨halike.1, halike.2.1, ?_, halike.2.2.2⟩
    rw [← Bool.not_eq_true]
    intro hgoes
    rw [hvalues v.id hgoes] at halike
    cases halike.2.2.1
  rcases Option.or_eq_none_iff.1 h with ⟨htext, hindex⟩
  apply Option.or_eq_none_iff.2
  rw [textUser_congr hrest, indexUser_congr hrest]
  constructor
  · cases hold : s.offeredElsewhere lv going (·.value = lv.value) with
    | true => simp [helsewhere _ hold]
    | false =>
      rw [hold] at htext
      split
      next hgoes => simpa [(Bool.and_eq_true_iff.1 hgoes).1] using htext
      next => rfl
  · cases hold : s.offeredElsewhere lv going (·.valueIndex = lv.valueIndex) with
    | true => simp [helsewhere _ hold]
    | false =>
      rw [hold] at hindex
      split
      next hgoes => simpa [(Bool.and_eq_true_iff.1 hgoes).1] using hindex
      next => rfl

end Fewer

end EntityStore.Snapshot
