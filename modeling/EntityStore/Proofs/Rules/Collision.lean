import EntityStore.Check.Insert
/-!
# Only keys collide

Resolving the names of a record, reading it, and holding the row against the rules of its kind and
against what is fixed can fail in many ways, but never for a key that another row has. So an item
that is refused for a key has passed everything else, and the index of its batch had given the key
to some row.
-/
namespace EntityStore

/-- Whether a key of the item belongs to another row. -/
def Violation.isCollision : Violation → Bool
  | duplicateKey _ _ _ => true
  | _ => false

/-- `x` may stop at a broken rule, but not at a collision. -/
def Uncolliding {α : Type} (x : Except Violation α) : Prop :=
  ∀ v, x = .error v → v.isCollision = false

section Steps
variable {α β : Type}

theorem Uncolliding.ok (a : α) : Uncolliding (.ok a) := by
  intro v h
  cases h

theorem Uncolliding.error {v : Violation} (h : v.isCollision = false) :
    Uncolliding (.error v : Except Violation α) := by
  intro w hw
  rw [← Except.error.inj hw, h]

theorem Uncolliding.bind {x : Except Violation α} {f : α → Except Violation β}
    (hx : Uncolliding x) (hf : ∀ a, Uncolliding (f a)) : Uncolliding (x >>= f) := by
  cases x with
  | error v => exact .error (hx v rfl)
  | ok a => exact hf a

theorem Uncolliding.forM {l : List α} {f : α → Except Violation Unit}
    (hf : ∀ a, Uncolliding (f a)) : Uncolliding (l.forM f) := by
  induction l with
  | nil => exact .ok ()
  | cons a l ih => exact .bind (hf a) fun _ => ih

theorem Uncolliding.mapM {l : List α} {f : α → Except Violation β} (hf : ∀ a, Uncolliding (f a)) :
    Uncolliding (l.mapM f) := by
  induction l with
  | nil => exact .ok []
  | cons a l ih =>
    rw [List.mapM_cons]
    exact .bind (hf a) fun _ => .bind ih fun _ => .ok _

theorem Uncolliding.refuseIf {bad : Prop} [Decidable bad] {v : Violation}
    (h : v.isCollision = false) : Uncolliding (refuseIf bad v) := by
  unfold EntityStore.refuseIf
  split
  · exact .error h
  · exact .ok ()

end Steps

section References
variable {s : Snapshot} {r : Record}

theorem Uncolliding.rowAt {k : Kind} {i : Id} {field role : String} :
    Uncolliding (s.rowAt k i field role) := by
  unfold Snapshot.rowAt
  split
  · exact .ok _
  · exact .error rfl

theorem Uncolliding.firstWhere {k : Kind} {p : Row k → Bool} {v : Violation}
    (h : v.isCollision = false) : Uncolliding (s.firstWhere k p v) := by
  unfold Snapshot.firstWhere
  split
  · exact .ok _
  · exact .error h

theorem Uncolliding.classNamed {field name : String} : Uncolliding (s.classNamed field name) :=
  .firstWhere rfl

theorem Uncolliding.entityNamed {classId : Id} {field name : String} :
    Uncolliding (s.entityNamed classId field name) :=
  .firstWhere rfl

theorem Uncolliding.name? {f : String} : Uncolliding (r.name? f) := by
  unfold Record.name?
  split
  · exact .ok _
  · exact .ok _
  · exact .error rfl

theorem Uncolliding.names? {f : String} : Uncolliding (r.names? f) := by
  unfold Record.names?
  split
  · exact .ok _
  · exact .ok _
  · exact .error rfl

theorem Uncolliding.resolve {nameField idField : String} {find : String → Except Violation Id}
    (h : ∀ name, Uncolliding (find name)) : Uncolliding (r.resolve nameField idField find) := by
  refine .bind .name? fun name => ?_
  split
  · exact .ok _
  · exact .bind (h _) fun _ => .ok _

theorem Uncolliding.scopeClass {consumer : String} : Uncolliding (r.scopeClass s consumer) := by
  refine .bind .name? fun name => ?_
  split
  · exact .bind .classNamed fun _ => .ok _
  · split
    · exact .ok _
    · exact .error rfl

theorem Uncolliding.resolveScoped {nameField idField : String}
    {find : Id → String → Except Violation Id} (h : ∀ i name, Uncolliding (find i name)) :
    Uncolliding (r.resolveScoped s nameField idField find) := by
  refine .bind .name? fun name => ?_
  split
  · exact .ok _
  · exact .bind .scopeClass fun _ => .bind (h _ _) fun _ => .ok _

theorem Uncolliding.resolveClass {nameField idField : String} :
    Uncolliding (r.resolveClass s nameField idField) :=
  .resolve fun _ => .bind .classNamed fun _ => .ok _

theorem Uncolliding.resolveEntity {nameField idField : String} :
    Uncolliding (r.resolveEntity s nameField idField) :=
  .resolveScoped fun _ _ => .bind .entityNamed fun _ => .ok _

theorem Uncolliding.resolveDefinition : Uncolliding (r.resolveDefinition s) :=
  .resolveScoped fun _ _ => .bind (.firstWhere rfl) fun _ => .ok _

theorem Uncolliding.resolveValueList : Uncolliding (r.resolveValueList s) :=
  .resolve fun _ => .bind (.firstWhere rfl) fun _ => .ok _

theorem Uncolliding.resolveAlternative : Uncolliding (r.resolveAlternative s) :=
  .resolve fun _ => .bind (.firstWhere rfl) fun _ => .ok _

theorem Uncolliding.resolveScenario : Uncolliding (r.resolveScenario s) :=
  .resolve fun _ => .bind (.firstWhere rfl) fun _ => .ok _

theorem Uncolliding.resolveTag : Uncolliding (r.resolveTag s) :=
  .resolve fun _ => .bind (.firstWhere rfl) fun _ => .ok _

theorem Uncolliding.resolveTool : Uncolliding (r.resolveTool s) :=
  .resolve fun _ => .bind (.firstWhere rfl) fun _ => .ok _

theorem Uncolliding.resolveMetadata : Uncolliding (r.resolveMetadata s) := by
  refine .bind .name? fun name => .bind .name? fun value => ?_
  split
  · exact .ok _
  · exact .bind (.firstWhere rfl) fun _ => .ok _
  · exact .error rfl

end References

section Kinds
variable {s : Snapshot}

theorem Entity.uncolliding_memberNames (position : Nat) (members classes : List Id) :
    Uncolliding (memberNames s position members classes) := by
  induction members generalizing position classes with
  | nil => exact .ok []
  | cons member members ih =>
    cases classes with
    | nil => exact .ok []
    | cons classId classes =>
      exact .bind .rowAt fun _ => .bind (.refuseIf rfl) fun _ => .bind (ih _ _) fun _ => .ok _

theorem Entity.uncolliding_resolveNames (r : Record) : Uncolliding (resolveNames s r) := by
  refine .bind .resolveClass fun r => .bind .names? fun names => ?_
  split
  · exact .ok _
  · split
    · exact .error rfl
    · exact .bind .rowAt fun _ => .bind (.refuseIf rfl) fun _ =>
        .bind (.mapM fun _ => .bind .entityNamed fun _ => .ok _) fun _ => .ok _

theorem Entity.uncolliding_validate (e : Entity) : Uncolliding (validate s e) := by
  refine .bind .rowAt fun c => ?_
  split
  · exact .bind (.refuseIf rfl) fun _ => .bind (uncolliding_memberNames _ _ _) fun _ => .ok _
  · exact .bind (.refuseIf rfl) fun _ => .bind (.refuseIf rfl) fun _ => .ok _

namespace ParameterDefinition

theorem uncolliding_checkList (d : ParameterDefinition) : Uncolliding (checkList s d) := by
  unfold checkList
  split
  · exact .ok ()
  · refine .bind .rowAt fun _ => ?_
    split
    · exact .ok ()
    · exact .refuseIf rfl

theorem uncolliding_checkListChange (before after : ParameterDefinition) :
    Uncolliding (checkListChange s before after) := by
  unfold checkListChange
  split
  · exact .ok ()
  · split
    · exact .error rfl
    · split
      · exact .ok ()
      · refine .bind .rowAt fun _ => ?_
        split
        · exact .error rfl
        · exact .ok ()

theorem uncolliding_checkOwnerChange (before after : ParameterDefinition) :
    Uncolliding (checkOwnerChange s before after) := by
  unfold checkOwnerChange
  split
  · exact .ok ()
  · exact .bind .rowAt fun _ => .bind (.refuseIf rfl) fun _ => .refuseIf rfl

end ParameterDefinition

theorem ParameterValue.uncolliding_alternativeOf (v : ParameterValue) :
    Uncolliding (alternativeOf s v) := by
  unfold alternativeOf
  split
  · exact .bind (.firstWhere rfl) fun _ => .ok _
  · exact .bind .rowAt fun _ => .ok _

theorem ListValue.uncolliding_checkFixed (before after : ListValue) :
    Uncolliding (checkFixed s before after) := by
  refine .bind (.refuseIf rfl) fun _ => ?_
  dsimp only
  split
  · exact .ok ()
  · exact .error rfl

end Kinds

namespace Row
variable {s : Snapshot} {k : Kind}

theorem uncolliding_resolveNames (r : Record) : Uncolliding (resolveNames k s r) := by
  cases k with
  | entityClass =>
    refine .bind .names? fun names => ?_
    split
    · exact .ok _
    · exact .bind (.mapM fun _ => .bind .classNamed fun _ => .ok _) fun _ => .ok _
  | entity => exact Entity.uncolliding_resolveNames r
  | entityGroup =>
    exact .bind .resolveClass fun _ => .bind .resolveEntity fun _ => .resolveEntity
  | parameterDefinition => exact .bind .resolveClass fun _ => .resolveValueList
  | parameterValue =>
    exact .bind .resolveClass fun _ => .bind .resolveEntity fun _ =>
      .bind .resolveDefinition fun _ => .resolveAlternative
  | listValue => exact .resolveValueList
  | scenarioAlternative => exact .bind .resolveScenario fun _ => .resolveAlternative
  | definitionTag => exact .bind .resolveDefinition fun _ => .resolveTag
  | feature => exact .resolveDefinition
  | toolFeature => exact .resolveTool
  | entityMetadata => exact .bind .resolveEntity fun _ => .resolveMetadata
  | valueMetadata => exact .resolveMetadata
  | valueList | alternative | scenario | parameterTag | tool | toolFeatureMethod | metadata =>
    exact .ok r

theorem uncolliding_read (r : Record) : Uncolliding (read k r) := by
  unfold read
  cases ofRecord k r with
  | error f => exact .error rfl
  | ok row => exact .ok row

theorem uncolliding_validate (row : Row k) : Uncolliding (validate k s row) := by
  cases k with
  | entityClass =>
    exact .bind (.refuseIf rfl) fun _ =>
      .bind (.forM fun _ => .bind .rowAt fun _ => .refuseIf rfl) fun _ => .ok _
  | entity => exact Entity.uncolliding_validate row
  | entityGroup =>
    exact .bind .rowAt fun _ => .bind .rowAt fun _ => .bind .rowAt fun _ =>
      .bind (.refuseIf rfl) fun _ => .bind (.refuseIf rfl) fun _ => .bind (.refuseIf rfl) fun _ =>
        .ok _
  | parameterDefinition =>
    exact .bind .rowAt fun _ => .bind (.refuseIf rfl) fun _ => .bind (.refuseIf rfl) fun _ =>
      .bind (.refuseIf rfl) fun _ =>
        .bind (ParameterDefinition.uncolliding_checkList row) fun _ => .ok _
  | parameterValue =>
    exact .bind .rowAt fun _ => .bind .rowAt fun _ => .bind (.refuseIf rfl) fun _ =>
      .bind (.refuseIf rfl) fun _ => .bind (.refuseIf rfl) fun _ =>
        .bind (ParameterValue.uncolliding_alternativeOf row) fun _ =>
          .bind (.refuseIf rfl) fun _ => .ok _
  | listValue => exact .bind .rowAt fun _ => .bind (.refuseIf rfl) fun _ => .ok _
  | scenarioAlternative =>
    exact .bind .rowAt fun _ => .bind .rowAt fun _ => .bind (.refuseIf rfl) fun _ => .ok _
  | feature =>
    refine .bind .rowAt fun d => ?_
    split
    · exact .error rfl
    · exact .ok _
  | toolFeatureMethod =>
    exact .bind .rowAt fun _ => .bind .rowAt fun _ => .bind (.refuseIf rfl) fun _ => .ok _
  | definitionTag | toolFeature | entityMetadata | valueMetadata =>
    exact .bind .rowAt fun _ => .bind .rowAt fun _ => .ok _
  | valueList | alternative | scenario | parameterTag | tool | metadata =>
    exact .bind (.refuseIf rfl) fun _ => .ok _

theorem uncolliding_checkFixed (before after : Row k) :
    Uncolliding (checkFixed k s before after) := by
  cases k with
  | entityClass | entity | scenarioAlternative => exact .refuseIf rfl
  | parameterDefinition =>
    exact .bind (ParameterDefinition.uncolliding_checkListChange before after) fun _ =>
      ParameterDefinition.uncolliding_checkOwnerChange before after
  | parameterValue =>
    exact .bind (.refuseIf rfl) fun _ => .bind (.refuseIf rfl) fun _ => .refuseIf rfl
  | listValue => exact ListValue.uncolliding_checkFixed before after
  | _ => exact .ok ()

end Row

end EntityStore
