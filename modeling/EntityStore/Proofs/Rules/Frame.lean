import EntityStore.Rules
/-!
# What the rules of a kind leave aside

Names are resolved and rows are held against rows of other kinds: only classes and entities are
looked up in their own table. What is fixed for a row is looked up among its own kind for list
values too, and never depends on the variant under which a reference was given.
-/
namespace EntityStore.Row
variable {k : Kind}

theorem resolveNames_withTable (hclass : k ≠ .entityClass) (hentity : k ≠ .entity) (s : Snapshot)
    (t : Table k) : resolveNames k (s.withTable k t) = resolveNames k s := by
  cases k <;> first | contradiction | rfl

theorem validate_withTable (hclass : k ≠ .entityClass) (hentity : k ≠ .entity) (s : Snapshot)
    (t : Table k) : validate k (s.withTable k t) = validate k s := by
  cases k <;> first | contradiction | rfl

theorem checkFixed_withTable (hclass : k ≠ .entityClass) (hentity : k ≠ .entity)
    (hvalue : k ≠ .listValue) (s : Snapshot) (t : Table k) :
    checkFixed k (s.withTable k t) = checkFixed k s := by
  cases k <;> first | contradiction | rfl

theorem checkFixed_stored (s : Snapshot) (before after : Row k) :
    checkFixed k s (stored k before) after = checkFixed k s before after := by
  cases k <;> rfl

end EntityStore.Row
