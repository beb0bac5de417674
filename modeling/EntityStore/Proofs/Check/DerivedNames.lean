import EntityStore.Proofs.Check.Siblings
import EntityStore.Proofs.Rules.Completion
import EntityStore.Proofs.Rules.Sound
/-!
# Names of relationships of one class

A relationship without a name is named after its class and its members, whose names are joined by
`__`. Of two relationships with different members that come in one batch, the second is refused
exactly if both get one name (`Snapshot.checkInsert_unnamed`). The joined names can be told apart
when no name but the last of each holds the separator or runs into it (`Entity.derivedName_inj`);
otherwise different members may lead to one name.
-/
namespace EntityStore

section Separator

/-- A name that neither holds the separator nor runs into one that follows it. -/
def Separable (name : String) : Prop := ¬ ['_', '_'] <:+: name.toList ++ ['_']

instance (name : String) : Decidable (Separable name) :=
  inferInstanceAs (Decidable (¬ ['_', '_'] <:+: name.toList ++ ['_']))

theorem eq_nil_of_separated {a t l m : List Char} (h : ¬ ['_', '_'] <:+: (a ++ t) ++ ['_'])
    (hsame : '_' :: '_' :: l = t ++ '_' :: '_' :: m) : t = [] := by
  match t with
  | [] => rfl
  | [x] =>
    obtain ⟨rfl, _⟩ := List.cons.inj hsame
    exact absurd ⟨a, [], by simp⟩ h
  | x :: y :: t =>
    simp only [List.cons_append, List.cons.injEq] at hsame
    obtain ⟨rfl, rfl, _⟩ := hsame
    exact absurd ⟨a, t ++ ['_'], by simp⟩ h

theorem append_separator_inj {a b l m : List Char} (ha : ¬ ['_', '_'] <:+: a ++ ['_'])
    (hb : ¬ ['_', '_'] <:+: b ++ ['_']) (h : a ++ '_' :: '_' :: l = b ++ '_' :: '_' :: m) :
    a = b ∧ l = m := by
  obtain ⟨t, rfl, hrest⟩ | ⟨t, rfl, hrest⟩ := List.append_eq_append_iff.1 h
  · obtain rfl := eq_nil_of_separated hb hrest
    simpa using hrest
  · obtain rfl := eq_nil_of_separated ha hrest
    simpa using hrest.symm

/-- Separable names can be read off the text that joins them; the last one may be any. -/
theorem intercalate_inj {names others : List String} (hlength : names.length = others.length)
    (hnames : ∀ n ∈ names.dropLast, Separable n) (hothers : ∀ n ∈ others.dropLast, Separable n)
    (h : "__".intercalate names = "__".intercalate others) : names = others := by
  induction names generalizing others with
  | nil => exact (List.length_eq_zero_iff.1 hlength.symm).symm
  | cons name names ih =>
    match others, hlength with
    | other :: others, hlength =>
      match names, others, Nat.succ.inj hlength with
      | [], [], _ => simpa using h
      | second :: names, third :: others, hlength =>
        rw [List.dropLast_cons_cons, List.forall_mem_cons] at hnames hothers
        rw [String.intercalate_cons_cons, String.intercalate_cons_cons, ← String.toList_inj] at h
        simp only [String.toList_append, List.append_assoc] at h
        obtain ⟨hfirst, hrest⟩ := append_separator_inj hnames.1 hothers.1 h
        rw [String.toList_inj.1 hfirst, ih hlength hnames.2 hothers.2 (String.toList_inj.1 hrest)]

end Separator

namespace Entity

/-- Different separable names of members lead to different names of relationships. -/
theorem derivedName_inj {c : EntityClass} {names others : List String}
    (hlength : names.length = others.length) (hnames : ∀ n ∈ names.dropLast, Separable n)
    (hothers : ∀ n ∈ others.dropLast, Separable n)
    (h : derivedName c names = derivedName c others) : names = others := by
  simp only [derivedName, ← String.toList_inj, String.toList_append,
    List.append_cancel_left_eq] at h
  exact intercalate_inj hlength hnames hothers (String.toList_inj.1 h)

/-- The key of a name within a class. -/
def nameKey (e : Entity) : UniqueKey := ⟨"class_id, name", [.int e.classId, .text e.name]⟩

theorem nameKey_eq_iff {a b : Entity} :
    a.nameKey = b.nameKey ↔ a.classId = b.classId ∧ a.name = b.name := by
  simp [nameKey]

theorem of_mem_keys {a b : Entity} {key : UniqueKey} (ha : key ∈ keys a) (hb : key ∈ keys b) :
    a.classId = b.classId ∧ (key = a.nameKey ∧ a.name = b.name ∨ a.memberIds = b.memberIds) := by
  simp only [keys, List.mem_cons] at ha hb
  rcases ha with rfl | ha <;> rcases hb with hb | hb
  · simp_all [nameKey]
  · split at hb <;> simp_all
  · split at ha <;> simp_all
  · split at ha <;> split at hb <;> simp_all

theorem find?_ofTable_of_new {s : Snapshot} {classId : Id}
    (hnone : ∀ e ∈ s.rows .entity, e.classId ≠ classId) {e : Entity} (he : e.classId = classId)
    {key : UniqueKey} (hkey : key ∈ Row.keys .entity e) :
    (KeyIndex.ofTable .entity (s.table .entity)).find? key = none := by
  rw [KeyIndex.find?_ofTable, Option.map_eq_none_iff, List.find?_eq_none]
  intro old hold hshared
  have hclass := (of_mem_keys (of_decide_eq_true hshared) hkey).1
  exact hnone old (List.mem_reverse.1 hold) (hclass.trans he)

end Entity

namespace Snapshot
variable {s : Snapshot} {c : EntityClass} {r r' : Record} {e e' : Entity}

/-- The names of some entities, in order. -/
def namesOf (s : Snapshot) (members : List Id) : List String :=
  members.map fun m => (s.find? .entity m).elim "" Entity.name

/-- No two entities of one of the classes have one name. -/
def NamesDiffer (s : Snapshot) (classes : List Id) : Prop :=
  ∀ a ∈ s.rows .entity, ∀ b ∈ s.rows .entity, a.classId ∈ classes → a.classId = b.classId →
    a.name = b.name → a.id = b.id

instance (s : Snapshot) (classes : List Id) : Decidable (s.NamesDiffer classes) :=
  inferInstanceAs (Decidable (∀ a ∈ s.rows .entity, ∀ b ∈ s.rows .entity, a.classId ∈ classes →
    a.classId = b.classId → a.name = b.name → a.id = b.id))

theorem memberNames_eq {members classes : List Id} (h : s.MembersOf members classes)
    (position : Nat) : Entity.memberNames s position members classes = .ok (s.namesOf members) := by
  induction h generalizing position with
  | nil => rfl
  | cons hfirst _ ih =>
    obtain ⟨m, hm, hclass⟩ := hfirst
    rw [Entity.memberNames, rowAt_of_find? hm]
    simp [namesOf, hm, hclass, refuseIf, ih, bind, Except.bind, pure, Except.pure]

theorem members_eq_of_names_eq {members others classes : List Id} (h : s.NamesDiffer classes)
    (hmembers : s.MembersOf members classes) (hothers : s.MembersOf others classes)
    (hnames : s.namesOf members = s.namesOf others) : members = others := by
  induction hmembers generalizing others with
  | nil => exact (List.forall₂_nil_right_iff.1 hothers).symm
  | @cons member classId members classes hfirst _ ih =>
    obtain ⟨other, others, hsecond, hrest, rfl⟩ := List.forall₂_cons_right_iff.1 hothers
    obtain ⟨m, hm, rfl⟩ := hfirst
    obtain ⟨m', hm', hclass⟩ := hsecond
    simp only [namesOf, List.map_cons, List.cons.injEq, hm, hm', Option.elim_some] at hnames
    obtain ⟨hmem, rfl⟩ := find?_eq_some_iff.1 hm
    obtain ⟨hmem', rfl⟩ := find?_eq_some_iff.1 hm'
    have htail : s.NamesDiffer classes := fun a ha b hb hin =>
      h a ha b hb (List.mem_cons_of_mem _ hin)
    rw [ih htail hrest hnames.2]
    congr 1
    exact h m hmem m' hmem' List.mem_cons_self hclass.symm hnames.1

/-- The record is a candidate for a relationship of the class without a name, `e` as it is read,
whose members are of the declared classes. -/
structure Unnamed (s : Snapshot) (c : EntityClass) (r : Record) (e : Entity) : Prop where
  reads : (Row.resolveNames .entity s r >>= Row.read .entity) = .ok e
  classId : e.classId = c.id
  name : e.name = ""
  members : s.MembersOf e.memberIds c.memberClassIds

/-- A candidate for a relationship, of which no more than the class and the members are given. -/
def relationship (classId : Id) (members : List Id) : Record :=
  .ofFields [("class_id", some (.int classId)), ("member_ids", some (.ids members))]

attribute [local simp] bind Except.bind pure Except.pure Except.mapError Record.get?_ofFields
  Record.given? Record.rowId Record.idOr Record.requiredId Record.optionalId Record.optionalText
  Record.idList Option.filter Field.isNull in
theorem unnamed_relationship {members : List Id} (h : s.MembersOf members c.memberClassIds) :
    s.Unnamed c (relationship c.id members) ⟨pendingId, c.id, "", none, members⟩ := by
  refine ⟨?_, rfl, rfl, h⟩
  simp [Row.resolveNames, Entity.resolveNames, Record.resolveClass, Record.resolve, Record.name?,
    Record.names?, Row.read, Row.ofRecord, Entity.ofRecord, relationship]

/-- The relationship with the name that is derived from its class and members. -/
def named (s : Snapshot) (c : EntityClass) (e : Entity) : Entity :=
  { e with id := pendingId, name := Entity.derivedName c (s.namesOf e.memberIds) }

section Candidates
variable (hc : c ∈ s.rows .entityClass) (hrelationship : c.memberClassIds ≠ [])
include hc hrelationship

theorem Unnamed.formed (h : s.Unnamed c r e) : Row.formed s .entity r = .ok (s.named c e) := by
  have hsort : c.isRelationshipClass = true := by
    simpa [EntityClass.isRelationshipClass] using hrelationship
  have hvalid : Row.validate .entity s (Row.withId .entity pendingId e) = .ok (s.named c e) := by
    refine bind_eq_ok_iff.2 ⟨c, ?_, ?_⟩
    · exact rowAt_of_find? (h.classId ▸ mem_rows_iff.1 hc) _ _
    · rw [if_pos hsort]
      refine bind_eq_ok_iff.2 ⟨(), refuseIf_eq_ok_iff.2 (not_not.2 h.members.length_eq),
        bind_eq_ok_iff.2 ⟨_, memberNames_eq h.members 1, ?_⟩⟩
      exact congrArg Except.ok (if_pos h.name)
  obtain ⟨resolved, hresolved, hread⟩ := bind_eq_ok_iff.1 h.reads
  exact bind_eq_ok_iff.2 ⟨resolved, hresolved, bind_eq_ok_iff.2 ⟨e, hread, hvalid⟩⟩

variable (hnone : ∀ e ∈ s.rows .entity, e.classId ≠ c.id)
include hnone

theorem Unnamed.insertStep_first (h : s.Unnamed c r e) :
    insertStep s .entity (.ofTable .entity (s.table .entity)) r =
      (.ok (s.named c e), (KeyIndex.ofTable .entity (s.table .entity)).addRow .entity
        (s.named c e)) := by
  have hunique := KeyIndex.checkUnique_eq_ok_iff.2 fun key hkey =>
    Entity.find?_ofTable_of_new hnone (e := s.named c e) h.classId hkey
  rw [insertStep, candidateRow_eq_formed, h.formed hc hrelationship]
  simp only [bind, Except.bind, hunique]
  rfl

theorem Unnamed.insertStep_second (h : s.Unnamed c r e) (h' : s.Unnamed c r' e')
    (hmembers : e.memberIds ≠ e'.memberIds) :
    (insertStep s .entity ((KeyIndex.ofTable .entity (s.table .entity)).addRow .entity
        (s.named c e)) r').1 =
      if (s.named c e).name = (s.named c e').name then
        .error ⟨.entity, .insert, none, .duplicateKey .entity (s.named c e').nameKey none⟩
      else .ok (s.named c e') := by
  have hfound (key : UniqueKey) (hkey : key ∈ Row.keys .entity (s.named c e')) :
      ((KeyIndex.ofTable .entity (s.table .entity)).addRow .entity (s.named c e)).find? key =
        if key ∈ Row.keys .entity (s.named c e) then some pendingId else none := by
    rw [KeyIndex.find?_addRow,
      Entity.find?_ofTable_of_new hnone (e := s.named c e') h'.classId hkey]
    rfl
  rw [insertStep, candidateRow_eq_formed, h'.formed hc hrelationship]
  split_ifs with hname
  · -- The key of the name is the first one that is looked up, and the first relationship has it.
    have hsame : (s.named c e').nameKey = (s.named c e).nameKey :=
      Entity.nameKey_eq_iff.2 ⟨h'.classId.trans h.classId.symm, hname.symm⟩
    have htaken := hfound (s.named c e').nameKey List.mem_cons_self
    rw [if_pos (hsame ▸ List.mem_cons_self)] at htaken
    have hrefused : ((KeyIndex.ofTable .entity (s.table .entity)).addRow .entity
        (s.named c e)).checkUnique .entity (s.named c e') =
          .error (.duplicateKey .entity (s.named c e').nameKey none) := by
      rw [KeyIndex.checkUnique, Row.keys, Entity.keys, List.forM_eq_forM, List.forM_cons,
        ← Entity.nameKey, htaken]
      rfl
    simp only [bind, Except.bind, hrefused]
  · have hunique : ((KeyIndex.ofTable .entity (s.table .entity)).addRow .entity
        (s.named c e)).checkUnique .entity (s.named c e') = .ok () := by
      refine KeyIndex.checkUnique_eq_ok_iff.2 fun key hkey => ?_
      rw [hfound key hkey, if_neg]
      intro hshared
      rcases (Entity.of_mem_keys hshared hkey).2 with ⟨_, hsame⟩ | hsame
      · exact hname hsame
      · exact hmembers hsame
    simp only [bind, Except.bind, hunique]
    rfl

theorem insertAnswers_unnamed (h : s.Unnamed c r e) (h' : s.Unnamed c r' e')
    (hmembers : e.memberIds ≠ e'.memberIds) :
    s.insertAnswers .entity [r, r'] = [.ok (s.named c e),
      if (s.named c e).name = (s.named c e').name then
        .error ⟨.entity, .insert, none, .duplicateKey .entity (s.named c e').nameKey none⟩
      else .ok (s.named c e')] := by
  rw [← h.insertStep_second hc hrelationship hnone h' hmembers, insertAnswers, Batch.outcomes,
    h.insertStep_first hc hrelationship hnone]
  rfl

/-- Two relationships without names, the first ones of their class and with different members, come
in one batch. Both are accepted if their derived names differ, and otherwise the second one is
refused for its name. The names differ if those of the members but the last ones are separable. -/
theorem checkInsert_unnamed (hcomplete : s.isComplete = true) (h : s.Unnamed c r e)
    (h' : s.Unnamed c r' e') (hmembers : e.memberIds ≠ e'.memberIds) :
    let collision : Rejection :=
      ⟨.entity, .insert, none, .duplicateKey .entity (s.named c e').nameKey none⟩
    ((s.named c e).name ≠ (s.named c e').name → ∀ strict,
        s.checkInsert .entity [r, r'] strict = .ok ⟨[s.named c e, s.named c e'], [], ∅⟩) ∧
      ((s.named c e).name = (s.named c e').name →
        s.checkInsert .entity [r, r'] false = .ok ⟨[s.named c e], [collision], ∅⟩ ∧
          s.checkInsert .entity [r, r'] true = .error (.rejected collision.issue)) ∧
      (s.NamesDiffer c.memberClassIds → (∀ n ∈ (s.namesOf e.memberIds).dropLast, Separable n) →
        (∀ n ∈ (s.namesOf e'.memberIds).dropLast, Separable n) →
        (s.named c e).name ≠ (s.named c e').name) := by
  intro collision
  have hanswers := insertAnswers_unnamed hc hrelationship hnone h h' hmembers
  simp only [insertAnswers] at hanswers
  refine ⟨fun hname strict => ?_, fun hname => ?_, fun hdiffer hnames hnames' hsame => hmembers ?_⟩
  · rw [if_neg hname] at hanswers
    rw [checkInsert, if_pos hcomplete, checkBatch, Batch.strict_eq, hanswers]
    cases strict <;> rfl
  · rw [if_pos hname] at hanswers
    simp only [checkInsert, if_pos hcomplete, checkBatch, Batch.strict_eq, hanswers]
    exact ⟨rfl, rfl⟩
  · apply members_eq_of_names_eq hdiffer h.members h'.members
    refine Entity.derivedName_inj ?_ hnames hnames' hsame
    simp [namesOf, h.members.length_eq, h'.members.length_eq]

end Candidates

/-- Nodes, of which one has a name that holds the separator, and a class of edges between them. -/
def nodes : Snapshot :=
  (empty.putRows .entityClass [⟨1, "node", none, []⟩, ⟨2, "edge", none, [1, 1]⟩]).putRows .entity
    [⟨1, 1, "a", none, []⟩, ⟨2, 1, "a__a", none, []⟩, ⟨3, 1, "b", none, []⟩]

/-- The class of the edges. -/
def edges : EntityClass := ⟨2, "edge", none, [1, 1]⟩

theorem unnamed_edge {source target : Id} (hsource : source ∈ nodes.ids .entity)
    (htarget : target ∈ nodes.ids .entity) :
    nodes.Unnamed edges (relationship 2 [source, target]) ⟨0, 2, "", none, [source, target]⟩ := by
  have hnode (i : Id) (hi : i ∈ nodes.ids .entity) :
      ∃ m, nodes.find? .entity i = some m ∧ m.classId = 1 := by
    have hids : nodes.ids .entity = [1, 2, 3] := rfl
    simp only [hids, List.mem_cons, List.not_mem_nil, or_false] at hi
    rcases hi with rfl | rfl | rfl <;> exact ⟨_, rfl, rfl⟩
  exact unnamed_relationship (c := edges)
    (.cons (hnode source hsource) (.cons (hnode target htarget) .nil))

/-- Edges between nodes with separable names. -/
theorem checkInsert_edges_accepted :
    nodes.checkInsert .entity [relationship 2 [1, 3], relationship 2 [3, 1]] false =
      .ok ⟨[⟨0, 2, "edge_a__b", none, [1, 3]⟩, ⟨0, 2, "edge_b__a", none, [3, 1]⟩], [], ∅⟩ := by
  have hthere : nodes.Unnamed edges (relationship 2 [1, 3]) ⟨0, 2, "", none, [1, 3]⟩ :=
    unnamed_edge (by decide) (by decide)
  have hback : nodes.Unnamed edges (relationship 2 [3, 1]) ⟨0, 2, "", none, [3, 1]⟩ :=
    unnamed_edge (by decide) (by decide)
  obtain ⟨haccepted, _, hdistinct⟩ := checkInsert_unnamed (by decide) (by decide) (by decide)
    (by decide) hthere hback (by decide)
  exact haccepted (hdistinct (by decide) (by decide) (by decide)) false

/-- The edges from `a` to `a__a` and back get one name, and the second one is refused. -/
theorem checkInsert_edges_collide :
    nodes.isComplete = true ∧ nodes.Sound ∧ edges ∈ nodes.rows .entityClass ∧
      (∀ e ∈ nodes.rows .entity, e.classId ≠ edges.id) ∧
      nodes.Unnamed edges (relationship 2 [1, 2]) ⟨0, 2, "", none, [1, 2]⟩ ∧
      nodes.Unnamed edges (relationship 2 [2, 1]) ⟨0, 2, "", none, [2, 1]⟩ ∧
      nodes.checkInsert .entity [relationship 2 [1, 2], relationship 2 [2, 1]] false =
        .ok ⟨[⟨0, 2, "edge_a__a__a", none, [1, 2]⟩], [⟨.entity, .insert, none, .duplicateKey .entity
          ⟨"class_id, name", [.int 2, .text "edge_a__a__a"]⟩ none⟩], ∅⟩ :=
  ⟨by decide, by decide, by decide, by decide, unnamed_edge (by decide) (by decide),
    unnamed_edge (by decide) (by decide), by decide⟩

end Snapshot

end EntityStore
