import EntityStore.Proofs.Check.Siblings
import EntityStore.Proofs.Rules.Resolution
import Mathlib.Data.List.Induction
/-!
# Names or ids

It makes no difference to a check whether a candidate refers to other rows by name or by id: a
candidate that gives ids in the place of names is accepted as the same row, or refused for the same
reason (`Snapshot.checkInsert_byId`).
-/
namespace EntityStore

/-- `r.ById s k r'`: the record `r'` has no names of other rows, but the ids of all that `r` names,
and is otherwise like `r`. -/
structure Record.ById (s : Snapshot) (k : Kind) (r r' : Record) : Prop where
  named : ∀ ref ∈ Row.nameReferences k, ref.Given r →
    ∃ v, ref.Names s r v ∧ r'.get? ref.target = some v
  dropped : ∀ ref ∈ Row.nameReferences k, ∀ f ∈ ref.fields, r'.get? f = none
  kept : ∀ f, (∀ ref ∈ Row.nameReferences k, f ∉ ref.fields ∧ (ref.Given r → f ≠ ref.target)) →
    r'.get? f = r.get? f

theorem Batch.outcomes_congr {σ ι ε α : Type} {step : σ → ι → Except ε α × σ}
    {items items' : List ι}
    (h : List.Forall₂ (fun a b => ∀ state, step state a = step state b) items items') (state : σ) :
    outcomes step state items = outcomes step state items' := by
  induction h generalizing state with
  | nil => rfl
  | cons hfirst _ ih => simp only [outcomes, hfirst state, ih]

namespace Row

theorem nodup_targets (k : Kind) : ((nameReferences k).map NameReference.target).Nodup := by
  cases k <;> decide

theorem notMem_nameFields {k : Kind} {f : String} (hf : f ∈ sources k) : f ∉ Record.nameFields := by
  revert f
  cases k <;> decide

theorem target_mem_fields {k : Kind} {ref : NameReference} (href : ref ∈ nameReferences k)
    (h : ref.target ∈ sources k) : ref.target ∈ fields k := by
  have htarget : ref.target ∈ (nameReferences k).map NameReference.target :=
    List.mem_map_of_mem href
  generalize ref.target = f at h htarget
  revert f
  cases k <;> decide

theorem resolveNames_eq_self {k : Kind} {s : Snapshot} (hkeys : s.KeysDiffer) {r : Record}
    (h : ∀ ref ∈ nameReferences k, ¬ref.Given r) : resolveNames k s r = .ok r := by
  have hfills := fills_resolveNames k s r
  obtain ⟨r', hr'⟩ := hfills.succeeds hkeys fun ref href hgiven => absurd hgiven (h ref href)
  have hsame : r' = r := SortedMap.ext_get? fun f =>
    (hfills.filled r' hr').kept f fun ref href hgiven => absurd hgiven (h ref href)
  rw [hr', hsame]

end Row

theorem Record.exists_filled {s : Snapshot} {r : Record} (columns : List String)
    (refs : List NameReference) (hnodup : (refs.map NameReference.target).Nodup)
    (h : ∀ ref ∈ refs, ref.Given r → ∃ v, ref.Names s r v) :
    ∃ r', Filled columns s r refs r' := by
  induction refs using List.reverseRecOn with
  | nil => exact ⟨r, .nil⟩
  | append_singleton refs ref ih =>
    have hbefore : (refs.map NameReference.target).Nodup :=
      (List.nodup_append.1 (List.map_append ▸ hnodup)).1
    obtain ⟨r₁, h₁⟩ := ih hbefore fun ref' href => h ref' (List.mem_append_left _ href)
    by_cases hgiven : ref.Given r₁
    · obtain ⟨v, hv⟩ := h₁.resolvable (h ref (by simp)) hgiven
      exact ⟨_, h₁.append (.of_set hgiven hv) hnodup⟩
    · exact ⟨r₁, h₁.append (.of_not_given hgiven) hnodup⟩

section ById
variable {s : Snapshot} {k : Kind} {r r' : Record}

/-- Where every name is borne by a row, ids can take their place. -/
theorem Record.exists_byId (h : ∀ ref ∈ Row.nameReferences k, ref.Given r → ∃ v, ref.Names s r v) :
    ∃ r', r.ById s k r' := by
  obtain ⟨r₁, h₁⟩ := exists_filled ((Row.nameReferences k).map NameReference.target) _
    (Row.nodup_targets k) h
  let names := (Row.nameReferences k).flatMap NameReference.fields
  refine ⟨r₁.filter fun e => e.1 ∉ names, ?_, ?_, ?_⟩
  · intro ref href hgiven
    obtain ⟨v, hv, hget⟩ := h₁.named ref href (List.mem_map_of_mem href) hgiven
    refine ⟨v, hv, ?_⟩
    have htarget : ref.target ∉ names := by
      intro hmem
      obtain ⟨ref', _, hf⟩ := List.mem_flatMap.1 hmem
      exact ref.target_notMem (ref'.fields_subset hf)
    rw [SortedMap.get?_filter _ (fun f => f ∉ names), if_pos (by simpa using htarget), hget]
  · intro ref href f hf
    have hmem : f ∈ names := List.mem_flatMap.2 ⟨ref, href, hf⟩
    rw [SortedMap.get?_filter _ (fun f => f ∉ names), if_neg (by simpa using hmem)]
  · intro f hf
    have hmem : f ∉ names := by
      intro hmem
      obtain ⟨ref, href, hname⟩ := List.mem_flatMap.1 hmem
      exact (hf ref href).1 hname
    rw [SortedMap.get?_filter _ (fun f => f ∉ names), if_pos (by simpa using hmem)]
    exact h₁.kept f fun ref href => (hf ref href).2

/-- Names and ids make the same row of a candidate, or break the same rule. -/
theorem Row.formed_byId (hkeys : s.KeysDiffer) (h : r.ById s k r') :
    Row.formed s k r' = Row.formed s k r := by
  have hfills := fills_resolveNames k s r
  obtain ⟨r₁, hr₁⟩ := hfills.succeeds hkeys fun ref href hgiven =>
    (h.named ref href hgiven).imp fun _ hv => hv.1
  have hfilled := hfills.filled r₁ hr₁
  have hself : resolveNames k s r' = .ok r' := by
    refine resolveNames_eq_self hkeys fun ref href => ?_
    rintro ⟨f, hf, hhas⟩
    simp [Record.has, Record.given?, h.dropped ref href f hf] at hhas
  have hread : ofRecord k r₁ = ofRecord k r' := by
    refine ofRecord_congr fun f hf => ?_
    have hget : r₁.get? f = r'.get? f := by
      by_cases hnamed : ∃ ref ∈ nameReferences k, ref.Given r ∧ f = ref.target
      · obtain ⟨ref, href, hgiven, rfl⟩ := hnamed
        obtain ⟨v, hv, hget⟩ := hfilled.named ref href (target_mem_fields href hf) hgiven
        obtain ⟨w, hw, hget'⟩ := h.named ref href hgiven
        rw [hget, hget', ref.eq_of_names hkeys hv hw]
      · have hkept : ∀ ref ∈ nameReferences k, ref.Given r → f ≠ ref.target :=
          fun ref href hgiven hsame => hnamed ⟨ref, href, hgiven, hsame⟩
        rw [hfilled.kept f hkept, h.kept f fun ref href =>
          ⟨fun hmem => notMem_nameFields hf (ref.fields_subset hmem), hkept ref href⟩]
    rw [Record.given?, hget, Record.given?]
  simp only [formed, hr₁, hself, read, hread, bind, Except.bind]

end ById

namespace Snapshot

/-- Names and ids are interchangeable. A candidate whose names are all borne by rows has a
counterpart that refers by id, and in every batch such counterparts are answered as the candidates
are. -/
theorem checkInsert_byId {s : Snapshot} {k : Kind} (hkeys : s.KeysDiffer) :
    (∀ candidate : Record,
      (∀ ref ∈ Row.nameReferences k, ref.Given candidate → ∃ v, ref.Names s candidate v) →
        ∃ other, candidate.ById s k other) ∧
    ∀ candidates others strict,
      List.Forall₂ (fun candidate other => other = candidate ∨ candidate.ById s k other)
        candidates others →
      s.checkInsert k others strict = s.checkInsert k candidates strict := by
  refine ⟨fun _ => Record.exists_byId, fun candidates others strict h => ?_⟩
  have hsame : List.Forall₂ (fun candidate other => ∀ taken,
      insertStep s k taken candidate = insertStep s k taken other) candidates others := by
    refine h.imp fun candidate other => ?_
    rintro (rfl | hother) taken
    · rfl
    · simp only [insertStep, candidateRow_eq_formed, Row.formed_byId hkeys hother]
  simp only [checkInsert, checkBatch, Batch.strict_eq, Batch.outcomes_congr hsame]

/-- Tanks and pipes, each pipe between two tanks, and two tanks. -/
def tanks : Snapshot :=
  (empty.putRows .entityClass [⟨1, "tank", none, []⟩, ⟨2, "pipe", none, [1, 1]⟩]).putRows .entity
    [⟨1, 1, "north", none, []⟩, ⟨2, 1, "south", none, []⟩]

/-- A pipe between the two tanks. -/
def pipeByName : Record :=
  .ofFields [("class_name", some (.text "pipe")),
    ("member_names", some (.names ["north", "south"]))]

def pipeById : Record :=
  .ofFields [("class_id", some (.int 2)), ("member_ids", some (.ids [1, 2]))]

theorem pipeByName_byId : pipeByName.ById tanks .entity pipeById := by
  have hclass : pipeByName.ClassGiven tanks ("class_name", "class_id") 2 :=
    ⟨⟨2, "pipe", none, [1, 1]⟩, by decide, by decide, rfl⟩
  constructor
  · intro ref href _
    simp only [Row.nameReferences, List.mem_cons, List.not_mem_nil, or_false] at href
    rcases href with rfl | rfl
    · exact ⟨.int 2, ⟨⟨2, "pipe", none, [1, 1]⟩, by decide, by decide, rfl⟩, by decide⟩
    · exact ⟨.ids [1, 2], ⟨⟨2, "pipe", none, [1, 1]⟩, by decide, hclass,
        [⟨1, 1, "north", none, []⟩, ⟨2, 1, "south", none, []⟩], by decide, rfl, by decide, rfl⟩,
        by decide⟩
  · intro ref href
    simp only [Row.nameReferences, List.mem_cons, List.not_mem_nil, or_false] at href
    rcases href with rfl | rfl <;> decide
  · intro f hf
    obtain ⟨hclassName, hclassId⟩ := hf .classOfEntity (by simp [Row.nameReferences])
    obtain ⟨hmemberNames, hmemberIds⟩ := hf .members (by simp [Row.nameReferences])
    replace hclassName : f ≠ "class_name" := fun h => hclassName (h ▸ List.mem_cons_self)
    replace hclassId : f ≠ "class_id" := hclassId ⟨"class_name", by decide, by decide⟩
    replace hmemberNames : f ≠ "member_names" := fun h => hmemberNames (h ▸ List.mem_cons_self)
    replace hmemberIds : f ≠ "member_ids" := hmemberIds ⟨"member_names", by decide, by decide⟩
    rw [pipeById, pipeByName, Record.get?_ofFields_eq_none, Record.get?_ofFields_eq_none]
    · simp [hclassName, hmemberNames]
    · simp [hclassId, hmemberIds]

/-- The pipe by its names and the pipe by its ids are accepted as the same row. -/
theorem checkInsert_pipeByName :
    tanks.KeysDiffer ∧
      tanks.checkInsert .entity [pipeById] true = tanks.checkInsert .entity [pipeByName] true ∧
      tanks.checkInsert .entity [pipeByName] true =
        .ok ⟨[⟨pendingId, 2, "pipe_north__south", none, [1, 2]⟩], [], ∅⟩ := by
  have hkeys : tanks.KeysDiffer := by decide
  refine ⟨hkeys, ?_, by decide⟩
  exact (checkInsert_byId hkeys).2 _ _ true (.cons (Or.inr pipeByName_byId) .nil)

end Snapshot

end EntityStore
