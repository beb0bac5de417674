import EntityStore.Proofs.Rules.Resolution
/-!
# Records resolved side by side

Two records of a kind that give the same names, and agree on other fields, are resolved side by side
(`Record.Parallel`). Both are refused alike, or the results agree where the records do and on every
id that a name leads to (`Row.paired_resolveNames`). Only where a name is looked up within a class
does the class have to agree too.
-/
namespace EntityStore

/-- `Paired R x y`: two computations fail alike, or give results that are related. -/
inductive Paired {ε α : Type} (R : α → α → Prop) : Except ε α → Except ε α → Prop where
  | ok {a b : α} (h : R a b) : Paired R (.ok a) (.ok b)
  | error (e : ε) : Paired R (.error e) (.error e)

namespace Paired
variable {ε α β : Type} {R : α → α → Prop} {S : β → β → Prop} {x y : Except ε α}
  {f g : α → Except ε β}

theorem bind (h : Paired R x y) (hfg : ∀ a b, R a b → Paired S (f a) (g b)) :
    Paired S (x >>= f) (y >>= g) := by
  cases h with
  | ok h => exact hfg _ _ h
  | error e => exact .error e

theorem bind_same (hfg : ∀ a, x = .ok a → Paired S (f a) (g a)) :
    Paired S (x >>= f) (x >>= g) := by
  cases x with
  | ok a => exact hfg a rfl
  | error e => exact .error e

theorem bind_eq (h : Paired R x y) (hfg : ∀ a b, x = .ok a → y = .ok b → R a b → f a = g b) :
    x >>= f = y >>= g := by
  cases h with
  | ok h => exact hfg _ _ rfl rfl h
  | error e => rfl

end Paired

namespace Row

/-- The fields in which a record of a kind may give names of other rows. -/
def nameFields (k : Kind) : List String := (nameReferences k).flatMap NameReference.fields

theorem mem_nameFields {k : Kind} {ref : NameReference} (href : ref ∈ nameReferences k) {f : String}
    (hf : f ∈ ref.fields) : f ∈ nameFields k :=
  List.mem_flatMap.2 ⟨ref, href, hf⟩

theorem nameFields_subset (k : Kind) : nameFields k ⊆ Record.nameFields := by
  cases k <;> decide

/-- `Reached k names P refs f`: the field `f` is one of `P`, or is stored and gets the id of what
the record `names` names by one of the references. -/
def Reached (k : Kind) (names : Record) (P : String → Prop) (refs : List NameReference)
    (f : String) : Prop :=
  P f ∨ ∃ ref ∈ refs, ref.target = f ∧ f ∈ fields k ∧ ref.Given names

end Row

namespace Record
open Row (nameReferences Reached)

/-- The names that are looked up within a class, with the fields that give the class by name and by
id. -/
def scopedNames : List (String × String × String) :=
  [("group_name", "entity_class_name", "entity_class_id"),
    ("member_name", "entity_class_name", "entity_class_id"),
    ("entity_name", "entity_class_name", "entity_class_id"),
    ("parameter_definition_name", "entity_class_name", "entity_class_id"),
    ("member_names", "class_name", "class_id")]

/-- `Parallel k names P r r'`: the records `r` and `r'` give the names of the record `names`, of
those that a row of the kind may have, and agree on the fields `P`. -/
structure Parallel (k : Kind) (names : Record) (P : String → Prop) (r r' : Record) : Prop where
  left : ∀ f ∈ Row.nameFields k, r.get? f = names.get? f
  right : ∀ f ∈ Row.nameFields k, r'.get? f = names.get? f
  agree : ∀ f, P f → r.get? f = r'.get? f

variable {k : Kind} {names r r' : Record} {P Q : String → Prop} {s : Snapshot}
  {done : List NameReference} {f : String}

namespace Parallel

theorem mono (h : Parallel k names P r r') (hQ : ∀ f, Q f → P f) : Parallel k names Q r r' :=
  ⟨h.left, h.right, fun f hf => h.agree f (hQ f hf)⟩

theorem set (h : Parallel k names P r r') (ref : NameReference) (v : Field)
    (hQ : ∀ f, Q f → P f ∨ f = ref.target) :
    Parallel k names Q (r.set ref.target v) (r'.set ref.target v) := by
  have hname (f : String) (hf : f ∈ Row.nameFields k) : ref.target ≠ f :=
    fun hsame => ref.target_notMem (hsame ▸ Row.nameFields_subset k hf)
  constructor
  · intro f hf
    rw [SortedMap.get?_set, if_neg (hname f hf), h.left f hf]
  · intro f hf
    rw [SortedMap.get?_set, if_neg (hname f hf), h.right f hf]
  · intro f hf
    rw [SortedMap.get?_set, SortedMap.get?_set]
    split
    next => rfl
    next hne => exact h.agree f ((hQ f hf).resolve_right (Ne.symm hne))

theorem skip (h : Parallel k names (Reached k names P done) r r') (ref : NameReference)
    (hskip : ref.target ∈ Row.fields k → ¬ref.Given names) :
    Parallel k names (Reached k names P (done ++ [ref])) r r' := by
  refine h.mono fun f hf => hf.imp_right ?_
  rintro ⟨ref', href, rfl, hfield, hgiven⟩
  rcases List.mem_append.1 href with href | href
  · exact ⟨ref', href, rfl, hfield, hgiven⟩
  · obtain rfl := List.mem_singleton.1 href
    exact absurd hgiven (hskip hfield)

theorem set_target (h : Parallel k names (Reached k names P done) r r') (ref : NameReference)
    (v : Field) : Parallel k names (Reached k names P (done ++ [ref])) (r.set ref.target v)
      (r'.set ref.target v) := by
  refine h.set ref v fun f hf => ?_
  rcases hf with hf | ⟨ref', href, htarget, hfield, hgiven⟩
  · exact Or.inl (Or.inl hf)
  rcases List.mem_append.1 href with href | href
  · exact Or.inl (Or.inr ⟨ref', href, htarget, hfield, hgiven⟩)
  · exact Or.inr (List.mem_singleton.1 href ▸ htarget.symm)

section Read
variable (h : Parallel k names P r r')
include h

theorem given?_left (hf : f ∈ Row.nameFields k) : r.given? f = names.given? f := by
  rw [given?, h.left f hf, given?]

theorem name?_eq (hf : f ∈ Row.nameFields k) : r'.name? f = r.name? f := by
  rw [name?, given?, h.right f hf, name?, given?, h.left f hf]

theorem names?_eq (hf : f ∈ Row.nameFields k) : r'.names? f = r.names? f := by
  rw [names?, given?, h.right f hf, names?, given?, h.left f hf]

theorem int?_eq (hf : P f) : r'.int? f = r.int? f := by
  rw [int?, ← h.agree f hf, int?]

end Read

end Parallel

theorem Parallel.resolve (h : Parallel k names (Reached k names P done) r r')
    (ref : NameReference) (href : ref ∈ nameReferences k) {n : String} (hn : ref.fields = [n])
    (find : String → Except Violation Id) :
    Paired (Parallel k names (Reached k names P (done ++ [ref]))) (r.resolve n ref.target find)
      (r'.resolve n ref.target find) := by
  have hname : n ∈ Row.nameFields k := Row.mem_nameFields href (hn ▸ List.mem_cons_self)
  simp only [Record.resolve, h.name?_eq hname]
  refine .bind_same fun given hgiven => ?_
  rw [name?_eq_ok_iff, h.given?_left hname] at hgiven
  cases given with
  | none => exact .ok (h.skip ref fun _ => NameReference.not_given_of_none hn hgiven)
  | some name => exact .bind_same fun i _ => .ok (h.set_target ref (.int i))

theorem Parallel.scopeClass (h : Parallel k names (Reached k names P done) r r')
    (href : .ownerClass ∈ nameReferences k)
    (hclass : P "entity_class_id" ∨ names.has "entity_class_name" = true) (consumer : String) :
    Paired (fun c c' => c.1 = c'.1 ∧ Parallel k names (Reached k names P done) c.2 c'.2)
      (r.scopeClass s consumer) (r'.scopeClass s consumer) := by
  have hname : "entity_class_name" ∈ Row.nameFields k :=
    Row.mem_nameFields href List.mem_cons_self
  simp only [Record.scopeClass, h.name?_eq hname]
  refine .bind_same fun given hgiven => ?_
  rw [name?_eq_ok_iff, h.given?_left hname] at hgiven
  cases given with
  | some name =>
    refine .bind_same fun c _ => .ok ⟨rfl, ?_⟩
    exact h.set .ownerClass (.int c.id) fun f hf => Or.inl hf
  | none =>
    have hagree : P "entity_class_id" := hclass.resolve_right (by simp [has, hgiven])
    dsimp only
    rw [h.int?_eq (Or.inl hagree)]
    split
    next => exact .ok ⟨rfl, h⟩
    next => exact .error _

theorem Parallel.resolveScoped (h : Parallel k names (Reached k names P done) r r')
    (ref : NameReference) (href : ref ∈ nameReferences k) {n : String} (hn : ref.fields = [n])
    (hclass : .ownerClass ∈ nameReferences k)
    (hscope : names.has n = true → P "entity_class_id" ∨ names.has "entity_class_name" = true)
    (find : Id → String → Except Violation Id) :
    Paired (Parallel k names (Reached k names P (done ++ [ref])))
      (r.resolveScoped s n ref.target find) (r'.resolveScoped s n ref.target find) := by
  have hname : n ∈ Row.nameFields k := Row.mem_nameFields href (hn ▸ List.mem_cons_self)
  simp only [Record.resolveScoped, h.name?_eq hname]
  refine .bind_same fun given hgiven => ?_
  rw [name?_eq_ok_iff, h.given?_left hname] at hgiven
  cases given with
  | none => exact .ok (h.skip ref fun _ => NameReference.not_given_of_none hn hgiven)
  | some name =>
    refine (h.scopeClass hclass (hscope (has_of_given? hgiven)) n).bind ?_
    rintro ⟨i, r₁⟩ ⟨_, r₁'⟩ ⟨rfl, h₁⟩
    exact .bind_same fun j _ => .ok (h₁.set_target ref (.int j))

theorem Parallel.resolveMetadata (h : Parallel k names (Reached k names P done) r r')
    (href : .metadata ∈ nameReferences k) :
    Paired (Parallel k names (Reached k names P (done ++ [.metadata]))) (r.resolveMetadata s)
      (r'.resolveMetadata s) := by
  have hname : "metadata_name" ∈ Row.nameFields k := Row.mem_nameFields href (by decide)
  have hvalue : "metadata_value" ∈ Row.nameFields k := Row.mem_nameFields href (by decide)
  simp only [Record.resolveMetadata, h.name?_eq hname, h.name?_eq hvalue]
  refine .bind_same fun name hname' => .bind_same fun value hvalue' => ?_
  rw [name?_eq_ok_iff, h.given?_left hname] at hname'
  rw [name?_eq_ok_iff, h.given?_left hvalue] at hvalue'
  cases name with
  | none =>
    cases value with
    | none =>
      exact .ok (h.skip .metadata fun _ => by
        simp [NameReference.Given, NameReference.metadata, has, hname', hvalue'])
    | some value => exact .error _
  | some name =>
    cases value with
    | none => exact .error _
    | some value => exact .bind_same fun m _ => .ok (h.set_target .metadata (.int m.id))

theorem Parallel.resolveMemberClasses (h : Parallel k names (Reached k names P done) r r')
    (href : .memberClasses ∈ nameReferences k) :
    Paired (Parallel k names (Reached k names P (done ++ [.memberClasses])))
      (EntityClass.resolveNames s r) (EntityClass.resolveNames s r') := by
  have hname : "member_class_names" ∈ Row.nameFields k :=
    Row.mem_nameFields href List.mem_cons_self
  simp only [EntityClass.resolveNames, h.names?_eq hname]
  refine .bind_same fun given hgiven => ?_
  rw [names?_eq_ok_iff, h.given?_left hname] at hgiven
  cases given with
  | none => exact .ok (h.skip .memberClasses fun _ => NameReference.not_given_of_none rfl hgiven)
  | some classes => exact .bind_same fun ids _ => .ok (h.set_target .memberClasses (.ids ids))

theorem Parallel.resolveMembers (h : Parallel k names (Reached k names P done) r r')
    (href : .members ∈ nameReferences k)
    (hclass : names.has "member_names" = true → Reached k names P done "class_id") :
    Paired (Parallel k names (Reached k names P (done ++ [.members])))
      (Entity.resolveMembers s r) (Entity.resolveMembers s r') := by
  have hname : "member_names" ∈ Row.nameFields k := Row.mem_nameFields href List.mem_cons_self
  simp only [Entity.resolveMembers, h.names?_eq hname]
  refine .bind_same fun given hgiven => ?_
  rw [names?_eq_ok_iff, h.given?_left hname] at hgiven
  cases given with
  | none => exact .ok (h.skip .members fun _ => NameReference.not_given_of_none rfl hgiven)
  | some members =>
    dsimp only
    rw [h.int?_eq (hclass (has_of_given? hgiven))]
    split
    next => exact .error _
    next =>
      exact .bind_same fun c _ => .bind_same fun _ _ => .bind_same fun ids _ =>
        .ok (h.set_target .members (.ids ids))

end Record

namespace Row
open NameReference

/-- Records that give the same names, and agree on the classes in which these are looked up, are
resolved side by side. -/
theorem paired_resolveNames {k : Kind} {names r r' : Record} {P : String → Prop}
    (h : Record.Parallel k names P r r') (s : Snapshot)
    (hscope : ∀ n ∈ nameFields k, ∀ scope, (n, scope) ∈ Record.scopedNames →
      names.has n = true → P scope.2 ∨ names.has scope.1 = true) :
    Paired (Record.Parallel k names (Reached k names P (nameReferences k))) (resolveNames k s r)
      (resolveNames k s r') := by
  have hnil : Record.Parallel k names (Reached k names P []) r r' :=
    h.mono fun f hf => hf.resolve_right (by simp)
  have howner {n : String} (hn : n ∈ nameFields k)
      (hmem : (n, "entity_class_name", "entity_class_id") ∈ Record.scopedNames) :
      names.has n = true → P "entity_class_id" ∨ names.has "entity_class_name" = true :=
    hscope n hn _ hmem
  cases k with
  | entityClass => exact hnil.resolveMemberClasses (by simp [nameReferences])
  | entity =>
    simp only [resolveNames, Entity.resolveNames_eq]
    refine (hnil.resolve .classOfEntity (by simp [nameReferences]) rfl _).bind fun _ _ h =>
      h.resolveMembers (by simp [nameReferences]) fun hmembers => ?_
    refine (hscope "member_names" (by decide) ("class_name", "class_id") (by decide)
      hmembers).imp_right fun hname => ?_
    exact ⟨.classOfEntity, by simp, rfl, by decide, "class_name", by decide, hname⟩
  | entityGroup =>
    exact (hnil.resolve .ownerClass (by simp [nameReferences]) rfl _).bind fun _ _ h =>
      (h.resolveScoped _ (by simp [nameReferences]) rfl (by simp [nameReferences])
        (howner (by decide) (by decide)) _).bind fun _ _ h =>
          h.resolveScoped _ (by simp [nameReferences]) rfl (by simp [nameReferences])
            (howner (by decide) (by decide)) _
  | parameterDefinition =>
    exact (hnil.resolve .ownerClass (by simp [nameReferences]) rfl _).bind fun _ _ h =>
      h.resolve .valueList (by simp [nameReferences]) rfl _
  | parameterValue =>
    exact (hnil.resolve .ownerClass (by simp [nameReferences]) rfl _).bind fun _ _ h =>
      (h.resolveScoped _ (by simp [nameReferences]) rfl (by simp [nameReferences])
        (howner (by decide) (by decide)) _).bind fun _ _ h =>
          (h.resolveScoped .definition (by simp [nameReferences]) rfl (by simp [nameReferences])
            (howner (by decide) (by decide)) _).bind fun _ _ h =>
              h.resolve .alternative (by simp [nameReferences]) rfl _
  | listValue => exact hnil.resolve .valueList (by simp [nameReferences]) rfl _
  | scenarioAlternative =>
    exact (hnil.resolve .scenario (by simp [nameReferences]) rfl _).bind fun _ _ h =>
      h.resolve .alternative (by simp [nameReferences]) rfl _
  | definitionTag =>
    have hclass := hnil.skip .ownerClass fun hstored => absurd hstored (by decide)
    exact (hclass.resolveScoped .definition (by simp [nameReferences]) rfl
      (by simp [nameReferences]) (howner (by decide) (by decide)) _).bind fun _ _ h =>
        h.resolve .tag (by simp [nameReferences]) rfl _
  | feature =>
    have hclass := hnil.skip .ownerClass fun hstored => absurd hstored (by decide)
    unfold resolveNames Feature.resolveNames Record.resolveDefinition
    exact hclass.resolveScoped .definition (by simp [nameReferences]) rfl
      (by simp [nameReferences]) (howner (by decide) (by decide)) _
  | toolFeature => exact hnil.resolve .tool (by simp [nameReferences]) rfl _
  | entityMetadata =>
    have hclass := hnil.skip .ownerClass fun hstored => absurd hstored (by decide)
    exact (hclass.resolveScoped _ (by simp [nameReferences]) rfl (by simp [nameReferences])
      (howner (by decide) (by decide)) _).bind fun _ _ h =>
        h.resolveMetadata (by simp [nameReferences])
  | valueMetadata => exact hnil.resolveMetadata (by simp [nameReferences])
  | valueList | alternative | scenario | parameterTag | tool | toolFeatureMethod | metadata =>
    exact .ok hnil

end Row

end EntityStore
