import EntityStore.Kind
/-!
# One value for every kind

A family with one member for each kind, held as data. `get_ofFn`, `get_set_self` and
`get_set_of_ne` are all that other modules use of it, and two families with the same members are
equal (`ext_get`).
-/
namespace EntityStore

structure ByKind (β : Kind → Type) where
  entityClass : β .entityClass
  entity : β .entity
  entityGroup : β .entityGroup
  parameterDefinition : β .parameterDefinition
  parameterValue : β .parameterValue
  valueList : β .valueList
  listValue : β .listValue
  alternative : β .alternative
  scenario : β .scenario
  scenarioAlternative : β .scenarioAlternative
  parameterTag : β .parameterTag
  definitionTag : β .definitionTag
  feature : β .feature
  tool : β .tool
  toolFeature : β .toolFeature
  toolFeatureMethod : β .toolFeatureMethod
  metadata : β .metadata
  entityMetadata : β .entityMetadata
  valueMetadata : β .valueMetadata

namespace ByKind
variable {β : Kind → Type}

def get (p : ByKind β) : (k : Kind) → β k
  | .entityClass => p.entityClass
  | .entity => p.entity
  | .entityGroup => p.entityGroup
  | .parameterDefinition => p.parameterDefinition
  | .parameterValue => p.parameterValue
  | .valueList => p.valueList
  | .listValue => p.listValue
  | .alternative => p.alternative
  | .scenario => p.scenario
  | .scenarioAlternative => p.scenarioAlternative
  | .parameterTag => p.parameterTag
  | .definitionTag => p.definitionTag
  | .feature => p.feature
  | .tool => p.tool
  | .toolFeature => p.toolFeature
  | .toolFeatureMethod => p.toolFeatureMethod
  | .metadata => p.metadata
  | .entityMetadata => p.entityMetadata
  | .valueMetadata => p.valueMetadata

def ofFn (f : (k : Kind) → β k) : ByKind β :=
  ⟨f _, f _, f _, f _, f _, f _, f _, f _, f _, f _, f _, f _, f _, f _, f _, f _, f _, f _, f _⟩

@[simp] theorem get_ofFn (f : (k : Kind) → β k) (k : Kind) : (ofFn f).get k = f k := by
  cases k <;> rfl

@[simp] theorem ofFn_get (p : ByKind β) : ofFn p.get = p := rfl

theorem ext_get {p q : ByKind β} (h : ∀ k, p.get k = q.get k) : p = q := by
  rw [← ofFn_get p, ← ofFn_get q, funext h]

instance [∀ k, DecidableEq (β k)] : DecidableEq (ByKind β) := fun p q =>
  decidable_of_iff (∀ k ∈ Kind.all, p.get k = q.get k)
    ⟨fun h => ext_get fun k => h k (Kind.mem_all k), fun h _ _ => h ▸ rfl⟩

/-- Replaces the member of one kind. -/
def set (p : ByKind β) (k : Kind) (v : β k) : ByKind β :=
  ofFn fun j => if h : k = j then h ▸ v else p.get j

@[simp] theorem get_set_self (p : ByKind β) (k : Kind) (v : β k) : (p.set k v).get k = v := by
  simp [set]

theorem get_set_of_ne (p : ByKind β) {k j : Kind} (v : β k) (h : k ≠ j) :
    (p.set k v).get j = p.get j := by
  simp [set, h]

theorem set_set (p : ByKind β) (k : Kind) (a b : β k) : (p.set k a).set k b = p.set k b := by
  apply ext_get
  intro j
  by_cases h : k = j
  · subst h
    simp
  · simp only [get_set_of_ne _ _ h]

end ByKind

end EntityStore
