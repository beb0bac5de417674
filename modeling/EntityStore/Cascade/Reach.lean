import EntityStore.Kind
import EntityStore.Saturation
/-!
# The kinds that a removal may reach

Rows of a kind are removed with rows of the kinds they refer to, so the kinds of the roots bound the
kinds of everything removed. A snapshot that holds the kinds reached answers for a cascade. Metadata
needs both sorts of joins to be counted, and definitions are reached from value lists because they
are detached from a list that goes.
-/
namespace EntityStore.Kind

/-- The kinds reached in one step. -/
def dependents (withClasses : Bool) : Kind → List Kind
  | entityClass =>
    [entity, parameterDefinition, entityGroup] ++ if withClasses then [entityClass] else []
  | entity => [parameterValue, entityGroup, entityMetadata]
  | parameterDefinition => [parameterValue, feature, definitionTag]
  | parameterValue => [valueMetadata]
  | valueList => [listValue, feature, parameterDefinition]
  | alternative => [parameterValue, scenarioAlternative]
  | scenario => [scenarioAlternative]
  | parameterTag => [definitionTag]
  | feature => [toolFeature]
  | tool => [toolFeature]
  | toolFeature => [toolFeatureMethod]
  | metadata => [entityMetadata, valueMetadata]
  | entityMetadata => [metadata, valueMetadata]
  | valueMetadata => [metadata, entityMetadata]
  | entityGroup | listValue | scenarioAlternative | definitionTag | toolFeatureMethod => []

/-- The kinds reached from the given ones, these included, in table order. -/
def reached (withClasses : Bool) (roots : List Kind) : List Kind :=
  let set := Saturation.saturate all
    (fun set k => set.any fun j => (dependents withClasses j).contains k) roots
  all.filter set.contains

end EntityStore.Kind
