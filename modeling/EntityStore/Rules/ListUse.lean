import EntityStore.Rules.Violation
import EntityStore.Snapshot
/-!
# What relies on a list value

A list value is relied on by definitions whose default is its text, by parameter values of
definitions bound to the list, and by methods of tool features on the list that name its index. It
may go as long as the list goes on offering the same text and index elsewhere. Rows that go with it
neither rely on it nor stand in for it.
-/
namespace EntityStore.Snapshot

/-- Whether a value list offers a text. -/
def offers (s : Snapshot) (listId : Id) (value : String) : Bool :=
  (s.table .listValue).any fun v => v.parameterValueListId = listId ∧ v.value = value

/-- Whether a value list offers an index. -/
def offersIndex (s : Snapshot) (listId : Id) (index : Int) : Bool :=
  (s.table .listValue).any fun v => v.parameterValueListId = listId ∧ v.valueIndex = index

/-- Whether another list value of the list, which stays, is alike. -/
def offeredElsewhere (s : Snapshot) (lv : ListValue) (going : IdMap) (alike : ListValue → Bool) :
    Bool :=
  (s.table .listValue).any fun v =>
    v.id ≠ lv.id ∧ v.parameterValueListId = lv.parameterValueListId ∧
      !going.has .listValue v.id ∧ alike v

/-- A definition that stays and is bound to the list of a list value. -/
def boundTo (lv : ListValue) (going : IdMap) (d : ParameterDefinition) : Bool :=
  d.parameterValueListId = some lv.parameterValueListId && !going.has .parameterDefinition d.id

/-- The first row that needs the text of a list value. -/
def textUser (s : Snapshot) (lv : ListValue) (going : IdMap) : Option ListUser :=
  match s.findWhere .parameterDefinition fun d =>
    boundTo lv going d && d.defaultValue = some lv.value with
  | some d => some (.definition d.name)
  | none =>
    (s.findWhere .parameterValue fun v =>
      v.value = lv.value && !going.has .parameterValue v.id &&
        (s.find? .parameterDefinition v.parameterDefinitionId).any (boundTo lv going)).map
      fun v => .value v.id

/-- The first method that needs the index of a list value. -/
def indexUser (s : Snapshot) (lv : ListValue) (going : IdMap) : Option ListUser :=
  (s.findWhere .toolFeatureMethod fun m =>
    m.methodIndex = lv.valueIndex && !going.has .toolFeatureMethod m.id &&
      ((s.find? .toolFeature m.toolFeatureId).bind fun t => s.find? .feature t.featureId).any
        fun f => f.parameterValueListId = lv.parameterValueListId).map
    fun m => .method m.id

/-- The first row that relies on the text of a list value, or on its index, where those go. -/
def listUser (s : Snapshot) (lv : ListValue) (going : IdMap) (textGoes indexGoes : Bool) :
    Option ListUser :=
  let byText :=
    if textGoes && !s.offeredElsewhere lv going (·.value = lv.value) then s.textUser lv going
    else none
  let byIndex :=
    if indexGoes && !s.offeredElsewhere lv going (·.valueIndex = lv.valueIndex) then
      s.indexUser lv going
    else none
  byText.or byIndex

end EntityStore.Snapshot
