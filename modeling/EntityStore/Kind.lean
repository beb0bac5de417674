/-!
# Kinds of records

The store keeps nineteen kinds of records, one table each. The order of the constructors is the
order of the tables everywhere: in listings, in batches and in removal sets. A kind is known
outside by the name of its table, and `ofName?_eq_some_iff` says that names and kinds determine
each other.
-/
namespace EntityStore

inductive Kind where
  | entityClass
  | entity
  | entityGroup
  | parameterDefinition
  | parameterValue
  | valueList
  | listValue
  | alternative
  | scenario
  | scenarioAlternative
  | parameterTag
  | definitionTag
  | feature
  | tool
  | toolFeature
  | toolFeatureMethod
  | metadata
  | entityMetadata
  | valueMetadata
  deriving DecidableEq, Repr, Inhabited

namespace Kind

/-- Every kind, in table order. -/
def all : List Kind :=
  [entityClass, entity, entityGroup, parameterDefinition, parameterValue, valueList, listValue,
    alternative, scenario, scenarioAlternative, parameterTag, definitionTag, feature, tool,
    toolFeature, toolFeatureMethod, metadata, entityMetadata, valueMetadata]

/-- Position of a kind in table order. -/
def index : Kind → Nat
  | entityClass => 0
  | entity => 1
  | entityGroup => 2
  | parameterDefinition => 3
  | parameterValue => 4
  | valueList => 5
  | listValue => 6
  | alternative => 7
  | scenario => 8
  | scenarioAlternative => 9
  | parameterTag => 10
  | definitionTag => 11
  | feature => 12
  | tool => 13
  | toolFeature => 14
  | toolFeatureMethod => 15
  | metadata => 16
  | entityMetadata => 17
  | valueMetadata => 18

/-- Name of the kind's table, which is also the kind's name in messages. -/
def name : Kind → String
  | entityClass => "entity_class"
  | entity => "entity"
  | entityGroup => "entity_group"
  | parameterDefinition => "parameter_definition"
  | parameterValue => "parameter_value"
  | valueList => "parameter_value_list"
  | listValue => "list_value"
  | alternative => "alternative"
  | scenario => "scenario"
  | scenarioAlternative => "scenario_alternative"
  | parameterTag => "parameter_tag"
  | definitionTag => "parameter_definition_tag"
  | feature => "feature"
  | tool => "tool"
  | toolFeature => "tool_feature"
  | toolFeatureMethod => "tool_feature_method"
  | metadata => "metadata"
  | entityMetadata => "entity_metadata"
  | valueMetadata => "parameter_value_metadata"

def ofIndex? (i : Nat) : Option Kind := all[i]?

def ofName? (s : String) : Option Kind := all.find? (·.name == s)

/-- The name under an index; an index past the last kind is unknown. -/
def nameOfIndex (i : Nat) : String := (ofIndex? i).elim "unknown" name

@[simp] theorem mem_all (k : Kind) : k ∈ all := by
  cases k <;> decide

@[simp] theorem ofIndex?_index (k : Kind) : ofIndex? k.index = some k := by
  cases k <;> rfl

theorem index_injective {a b : Kind} (h : a.index = b.index) : a = b := by
  have := congrArg ofIndex? h
  simpa using this

@[simp] theorem ofName?_name (k : Kind) : ofName? k.name = some k := by
  cases k <;> decide

theorem name_injective {a b : Kind} (h : a.name = b.name) : a = b := by
  have := congrArg ofName? h
  simpa using this

theorem ofName?_eq_some_iff {s : String} {k : Kind} : ofName? s = some k ↔ k.name = s := by
  constructor
  · intro h
    have := List.find?_some h
    simpa using this
  · rintro rfl
    simp

/-- Kinds are ordered as their tables are. -/
instance : Ord Kind := ⟨fun a b => compare a.index b.index⟩

instance : Std.TransOrd Kind where
  eq_swap {a b} := Std.OrientedOrd.eq_swap (a := a.index) (b := b.index)
  isLE_trans {a b c} := Std.TransOrd.isLE_trans (a := a.index) (b := b.index) (c := c.index)

instance : Std.LawfulEqOrd Kind where
  compare_self {a} := Std.ReflOrd.compare_self (a := a.index)
  eq_of_compare h := index_injective (Std.LawfulEqOrd.eq_of_compare h)

end Kind

end EntityStore
