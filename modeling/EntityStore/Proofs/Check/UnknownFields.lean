import EntityStore.Proofs.Check.Siblings
import EntityStore.Proofs.Check.Touched
import EntityStore.Proofs.Rules.Parallel
/-!
# Fields that a kind does not know

A kind knows the fields in which its rows are stored, their variants, and the fields of its name
references. What else a candidate gives is inert. What else an update gives is not quite: a field of
the row gives way when another name of the same reference is given, even if the kind does not know
that name and takes no value from it (`Row.Drops`). The field is lost unless something else gives it
again or nothing misses it (`Row.Loses`). An update that loses nothing is answered as it would be
without the fields that its kind does not know, and an update that loses a field is refused
(`Snapshot.check_known`).
-/
namespace EntityStore

namespace Row
variable {k : Kind} {r changes : Record} {f : String}

/-- The fields that a kind knows. -/
def knownFields (k : Kind) : List String :=
  sources k ++ nameFields k ++ (nameReferences k).map NameReference.target

/-- The part of a record that a kind knows. -/
def known (k : Kind) (r : Record) : Record := r.filter fun e => decide (e.1 ∈ knownFields k)

theorem get?_known (k : Kind) (r : Record) (f : String) :
    (known k r).get? f = if f ∈ knownFields k then r.get? f else none := by
  rw [known, SortedMap.get?_filter r fun f => decide (f ∈ knownFields k)]
  simp only [decide_eq_true_eq]

theorem has_known (hf : f ∈ knownFields k) : (known k r).has f = r.has f := by
  rw [Record.has, Record.given?, get?_known, if_pos hf, Record.has, Record.given?]

theorem source_mem_knownFields (hf : f ∈ sources k) : f ∈ knownFields k := by
  simp [knownFields, hf]

theorem name_mem_knownFields (hf : f ∈ nameFields k) : f ∈ knownFields k := by
  simp [knownFields, hf]

theorem given_known {ref : NameReference} (href : ref ∈ nameReferences k) :
    ref.Given (known k r) ↔ ref.Given r :=
  exists_congr fun f => and_congr_right fun hf => by
    rw [has_known (name_mem_knownFields (mem_nameFields href hf))]

theorem scope_mem_knownFields {n : String} (hn : n ∈ nameFields k) {scope : String × String}
    (hscope : (n, scope) ∈ Record.scopedNames) : scope.2 ∈ knownFields k := by
  have hcases : ∀ e ∈ Record.scopedNames, e.1 ∈ nameFields k → e.2.2 ∈ knownFields k := by
    cases k <;> decide
  exact hcases (n, scope) hscope hn

/-- `Drops k changes f`: a stored field gives way to nothing but names that the kind does not
know. -/
structure Drops (k : Kind) (changes : Record) (f : String) : Prop where
  stored : f ∈ fields k
  gone : Record.gaveWay changes f = true
  kept : Record.gaveWay (known k changes) f = false

/-- `Misses k changes f`: a row of the kind cannot be read without the field, or the changes give a
name that is looked up in the class that the field holds. -/
def Misses (k : Kind) (changes : Record) (f : String) : Prop :=
  (∃ c ∈ columns k, c.field = f ∧ c.form = .required) ∨
    ∃ n ∈ nameFields k, ∃ scope, (n, scope) ∈ Record.scopedNames ∧ scope.2 = f ∧
      changes.has n = true

/-- `Loses k changes f`: a field that is dropped is given in no other way, and is missed. -/
structure Loses (k : Kind) (changes : Record) (f : String) : Prop where
  drops : Drops k changes f
  not_redirects : ¬Redirects k changes f
  misses : Misses k changes f

instance (ref : NameReference) (r : Record) : Decidable (ref.Given r) :=
  inferInstanceAs (Decidable (∃ f ∈ ref.fields, r.has f = true))

instance : Decidable (Redirects k changes f) :=
  inferInstanceAs (Decidable
    ((∃ c ∈ columns k, c.field = f ∧ ∃ g ∈ c.variants, changes.has g = true) ∨
      ∃ ref ∈ nameReferences k, ref.target = f ∧ ref.Given changes))

instance : Decidable (Misses k changes f) :=
  decidable_of_iff ((∃ c ∈ columns k, c.field = f ∧ c.form = .required) ∨
      ∃ e ∈ Record.scopedNames, e.1 ∈ nameFields k ∧ e.2.2 = f ∧ changes.has e.1 = true) <|
    or_congr_right
      ⟨fun ⟨⟨n, scope⟩, hmem, hn, h⟩ => ⟨n, hn, scope, hmem, h⟩,
        fun ⟨n, hn, scope, hmem, h⟩ => ⟨⟨n, scope⟩, hmem, hn, h⟩⟩

instance : Decidable (Drops k changes f) :=
  decidable_of_iff (f ∈ fields k ∧ Record.gaveWay changes f = true ∧
      Record.gaveWay (known k changes) f = false)
    ⟨fun ⟨hstored, hgone, hkept⟩ => ⟨hstored, hgone, hkept⟩, fun h => ⟨h.stored, h.gone, h.kept⟩⟩

instance : Decidable (Loses k changes f) :=
  decidable_of_iff (Drops k changes f ∧ ¬Redirects k changes f ∧ Misses k changes f)
    ⟨fun ⟨hdrops, hnot, hmisses⟩ => ⟨hdrops, hnot, hmisses⟩,
      fun h => ⟨h.drops, h.not_redirects, h.misses⟩⟩

/-- The fields that rows may lose. -/
def losable : List (Kind × String) :=
  [(.entityGroup, "entity_class_id"), (.entityGroup, "entity_id"),
    (.parameterValue, "entity_class_id"), (.entityMetadata, "entity_id")]

theorem Drops.mem_losable (h : Drops k changes f) : (k, f) ∈ losable := by
  obtain ⟨group, hgroup, hf, ⟨g, hg, hhas⟩, habsent⟩ := Record.gaveWay_eq_true_iff.1 h.gone
  have hunknown : g ∉ knownFields k := by
    intro hknown
    have hgone : Record.gaveWay (known k changes) f = true :=
      Record.gaveWay_eq_true_iff.2 ⟨group, hgroup, hf, ⟨g, hg, by rw [has_known hknown, hhas]⟩,
        by rw [get?_known, habsent, ite_self]⟩
    rw [h.kept] at hgone
    cases hgone
  have hcases : ∀ group ∈ [ReferenceFields.owner, .subject], ∀ f ∈ group.names, f ∈ fields k →
      (k, f) ∈ losable ∨ ∀ g ∈ group.names, g ∈ knownFields k := by
    cases k <;> decide
  exact (hcases group hgroup f hf h.stored).resolve_right fun hall => hunknown (hall g hg)

instance (k : Kind) (changes : Record) : Decidable (∀ f, ¬Loses k changes f) :=
  decidable_of_iff (∀ e ∈ losable, e.1 = k → ¬Loses k changes e.2)
    ⟨fun h f hloses => h (k, f) hloses.drops.mem_losable rfl hloses, fun h e _ _ => h e.2⟩

theorem Drops.get?_eq_none (h : Drops k changes f) : changes.get? f = none := by
  obtain ⟨_, _, _, _, habsent⟩ := Record.gaveWay_eq_true_iff.1 h.gone
  exact habsent

theorem Drops.exists_ref (h : Drops k changes f) (hredirects : Redirects k changes f) :
    ∃ ref ∈ nameReferences k, ref.target = f ∧ ref.Given changes := by
  refine hredirects.resolve_left ?_
  rintro ⟨c, hc, rfl, g, hg, -⟩
  have hcases : ∀ c ∈ columns k, (k, c.field) ∈ losable → c.variants = [] := by
    cases k <;> decide
  rw [hcases c hc h.mem_losable] at hg
  cases hg

theorem gaveWay_of_known (hf : f ∈ knownFields k)
    (h : Record.gaveWay (known k changes) f = true) : Record.gaveWay changes f = true := by
  obtain ⟨group, hgroup, hmem, ⟨g, hg, hhas⟩, habsent⟩ := Record.gaveWay_eq_true_iff.1 h
  rw [get?_known, if_pos hf] at habsent
  refine Record.gaveWay_eq_true_iff.2 ⟨group, hgroup, hmem, ⟨g, hg, ?_⟩, habsent⟩
  by_cases hknown : g ∈ knownFields k
  · rw [← has_known hknown, hhas]
  · simp [Record.has, Record.given?, get?_known, hknown] at hhas

theorem gaveWay_known (hf : f ∈ "id" :: fields k) (hdrops : ¬Drops k changes f) :
    Record.gaveWay (known k changes) f = Record.gaveWay changes f := by
  rcases List.mem_cons.1 hf with rfl | hstored
  · have hplain : ∀ r, Record.gaveWay r "id" = false := fun _ => rfl
    rw [hplain, hplain]
  · have hknown : f ∈ knownFields k := source_mem_knownFields (fields_subset_sources hf)
    rw [Bool.eq_iff_iff]
    refine ⟨gaveWay_of_known hknown, fun hgone => ?_⟩
    by_contra hkept
    exact hdrops ⟨hstored, hgone, Bool.not_eq_true _ ▸ hkept⟩

section Overlay
variable (k) (before : Row k) (changes : Record)

theorem get?_overlay_name (hf : f ∈ nameFields k) :
    ((toRecord k before).overlay changes).get? f = changes.get? f := by
  rw [Record.get?_overlay,
    get?_toRecord_eq_none before (nameField_notMem (nameFields_subset k hf)).1, ite_self,
    Option.or_none]

/-- The changes and what the kind knows of them are laid over a row with the same effect, but for
what is dropped. -/
theorem parallel_overlay :
    Record.Parallel k changes (fun f => f ∈ knownFields k ∧ ¬Drops k changes f)
      ((toRecord k before).overlay changes) ((toRecord k before).overlay (known k changes)) := by
  constructor
  · intro f hf
    exact get?_overlay_name k before changes hf
  · intro f hf
    rw [get?_overlay_name k before _ hf, get?_known, if_pos (name_mem_knownFields hf)]
  · rintro f ⟨hknown, hdrops⟩
    rw [Record.get?_overlay, Record.get?_overlay, get?_known, if_pos hknown]
    by_cases hstored : f ∈ "id" :: fields k
    · rw [gaveWay_known hstored hdrops]
    · rw [get?_toRecord_eq_none before hstored, ite_self, ite_self]

end Overlay

theorem read_eq_of_parallel {names a b : Record} {P : String → Prop}
    (h : Record.Parallel k names P a b) (hP : ∀ f ∈ sources k, P f) : read k a = read k b := by
  have hgiven (f : String) (hf : f ∈ sources k) : a.given? f = b.given? f := by
    rw [Record.given?, h.agree f (hP f hf), Record.given?]
  rw [read, ofRecord_congr hgiven, read]

theorem formed_known (s : Snapshot) (k : Kind) (candidate : Record) :
    formed s k (known k candidate) = formed s k candidate := by
  have hget (f : String) (hf : f ∈ knownFields k) :
      candidate.get? f = (known k candidate).get? f := by rw [get?_known, if_pos hf]
  have hparallel : Record.Parallel k candidate (· ∈ knownFields k) candidate
      (known k candidate) :=
    ⟨fun _ _ => rfl, fun f hf => (hget f (name_mem_knownFields hf)).symm, hget⟩
  have hresolved := paired_resolveNames hparallel s fun _ hn _ hscope _ =>
    Or.inl (scope_mem_knownFields hn hscope)
  refine (hresolved.bind_eq fun a b _ _ h => ?_).symm
  rw [read_eq_of_parallel h fun f hf => Or.inl (source_mem_knownFields hf)]

section Revised
variable {s : Snapshot} {before : Row k}

theorem scope_of_not_loses (h : ∀ f, ¬Loses k changes f) {n : String} (hn : n ∈ nameFields k)
    {scope : String × String} (hscope : (n, scope) ∈ Record.scopedNames)
    (hhas : changes.has n = true) :
    (scope.2 ∈ knownFields k ∧ ¬Drops k changes scope.2) ∨ changes.has scope.1 = true := by
  by_cases hdrops : Drops k changes scope.2
  · have hredirects : Redirects k changes scope.2 := by
      by_contra hnot
      exact h scope.2 ⟨hdrops, hnot, Or.inr ⟨n, hn, scope, hscope, rfl, hhas⟩⟩
    obtain ⟨ref, _, htarget, g, hg, hgiven⟩ := hdrops.exists_ref hredirects
    have hscopes : ∀ e ∈ Record.scopedNames, e.2 ∈ Record.scopes := by decide
    rw [ref.fields_of_scope scope (hscopes _ hscope) htarget, List.mem_singleton] at hg
    exact Or.inr (hg ▸ hgiven)
  · exact Or.inl ⟨scope_mem_knownFields hn hscope, hdrops⟩

theorem revised_known_of_redirects (h : ∀ f, ¬Loses k changes f)
    (hredirects : ∀ f, Drops k changes f → Redirects k changes f) :
    revised s k before (known k changes) = revised s k before changes := by
  have hresolved := paired_resolveNames (parallel_overlay k before changes) s
    fun _ hn _ hscope hhas => scope_of_not_loses h hn hscope hhas
  refine (hresolved.bind_eq fun a b _ _ hab => ?_).symm
  rw [read_eq_of_parallel hab fun f hf => ?_]
  by_cases hdrops : Drops k changes f
  · obtain ⟨ref, href, htarget, hgiven⟩ := hdrops.exists_ref (hredirects f hdrops)
    exact Or.inr ⟨ref, href, htarget, hdrops.stored, hgiven⟩
  · exact Or.inl ⟨source_mem_knownFields hf, hdrops⟩

end Revised

end Row

namespace ParameterValue

/-- The value with another class. -/
def withClass (i : Id) (v : ParameterValue) : ParameterValue := { v with entityClassId := i }

theorem ofRecord_map_withClass {a b : Record} {i j : Id}
    (h : ∀ f ∈ Row.sources .parameterValue, f ≠ "entity_class_id" → a.given? f = b.given? f)
    (ha : a.idOr "entity_class_id" pendingId = .ok i)
    (hb : b.idOr "entity_class_id" pendingId = .ok j) (c : Id) :
    (ofRecord a).map (withClass c) = (ofRecord b).map (withClass c) := by
  have hid : a.rowId = b.rowId := by
    simp only [Record.rowId, Record.idOr, Record.optionalId, h "id" (by decide) (by decide)]
  have hentity : a.reference .subject = b.reference .subject := by
    simp only [Record.reference, Record.optionalId, ReferenceFields.subject,
      h "entity_id" (by decide) (by decide), h "object_id" (by decide) (by decide),
      h "relationship_id" (by decide) (by decide)]
  have hdefinition : a.requiredId "parameter_definition_id" =
      b.requiredId "parameter_definition_id" := by
    simp only [Record.requiredId, Record.optionalId,
      h "parameter_definition_id" (by decide) (by decide)]
  have halternative : a.idOr "alternative_id" pendingId = b.idOr "alternative_id" pendingId := by
    simp only [Record.idOr, Record.optionalId, h "alternative_id" (by decide) (by decide)]
  have hvalue : a.requiredText "value" = b.requiredText "value" := by
    simp only [Record.requiredText, Record.optionalText, h "value" (by decide) (by decide)]
  unfold ofRecord
  rw [hid, hentity, ha, hb, hdefinition, halternative, hvalue]
  cases b.rowId with
  | error _ => rfl
  | ok => cases b.reference .subject with
    | error _ => rfl
    | ok => cases b.requiredId "parameter_definition_id" with
      | error _ => rfl
      | ok => cases b.idOr "alternative_id" pendingId with
        | error _ => rfl
        | ok => cases b.requiredText "value" <;> rfl

theorem read_bind_eq {β : Type} {a b : Record} {c : Id}
    (h : (ofRecord a).map (withClass c) = (ofRecord b).map (withClass c))
    {g : ParameterValue → Except Violation β} (hg : ∀ v, g (withClass c v) = g v) :
    Row.read .parameterValue a >>= g = Row.read .parameterValue b >>= g := by
  simp only [Row.read, Row.ofRecord]
  cases ha : ofRecord a with
  | error e =>
    cases hb : ofRecord b with
    | error e' =>
      rw [ha, hb] at h
      rw [Except.error.inj h]
    | ok w =>
      rw [ha, hb] at h
      cases h
  | ok v =>
    cases hb : ofRecord b with
    | error e' =>
      rw [ha, hb] at h
      cases h
    | ok w =>
      rw [ha, hb] at h
      change g v = g w
      rw [← hg v, ← hg w, Except.ok.inj h]

end ParameterValue

namespace Row
variable {k : Kind} {s : Snapshot} {before : Row k} {changes : Record} {f : String}

theorem Drops.required_or (h : Drops k changes f) :
    (∃ c ∈ columns k, c.field = f ∧ c.form = .required) ∨
      k = .parameterValue ∧ f = "entity_class_id" := by
  have hcases : ∀ e ∈ losable, (∃ c ∈ columns e.1, c.field = e.2 ∧ c.form = .required) ∨
      e.1 = .parameterValue ∧ e.2 = "entity_class_id" := by decide
  exact hcases (k, f) h.mem_losable

/-- An update that loses nothing makes the row that it makes without the fields that the kind does
not know. -/
theorem revised_known (h : ∀ f, ¬Loses k changes f) :
    revised s k before (known k changes) = revised s k before changes := by
  by_cases hredirects : ∀ f, Drops k changes f → Redirects k changes f
  · exact revised_known_of_redirects h hredirects
  push Not at hredirects
  obtain ⟨f, hdrops, hnot⟩ := hredirects
  obtain ⟨rfl, rfl⟩ := hdrops.required_or.resolve_left fun hrequired =>
    h f ⟨hdrops, hnot, Or.inl hrequired⟩
  have hfilled (r : Record) := (fills_resolveNames .parameterValue s r).filled
  have hresolved := paired_resolveNames (parallel_overlay .parameterValue before changes) s
    fun _ hn _ hscope hhas => scope_of_not_loses h hn hscope hhas
  refine (hresolved.bind_eq fun a b ha hb hab => ?_).symm
  refine ParameterValue.read_bind_eq (ParameterValue.ofRecord_map_withClass (i := pendingId)
    (j := before.entityClassId) (fun f hf hne => ?_) ?_ ?_ pendingId) fun v => rfl
  · have hkept : ¬Drops .parameterValue changes f := fun hdrops => hne <| by
      simpa [losable] using hdrops.mem_losable
    rw [Record.given?, hab.agree f (Or.inl ⟨source_mem_knownFields hf, hkept⟩), Record.given?]
  · have hget : a.get? "entity_class_id" = none := by
      rw [get?_resolved (hfilled _ a ha) fun ref href htarget hgiven =>
        hnot (Or.inr ⟨ref, href, htarget, hgiven⟩), Record.get?_overlay, hdrops.get?_eq_none,
        if_pos hdrops.gone]
      rfl
    simp [Record.idOr, Record.optionalId, Record.given?, hget, bind, Except.bind, pure, Except.pure]
  · have hget : b.get? "entity_class_id" = some (.int before.entityClassId) := by
      rw [get?_resolved (hfilled _ b hb) fun ref href htarget hgiven =>
        hnot (Or.inr ⟨ref, href, htarget, (given_known href).1 hgiven⟩), Record.get?_overlay,
        get?_known, hdrops.get?_eq_none, ite_self, hdrops.kept]
      simp [toRecord, ParameterValue.toRecord, Record.get?_ofFields]
    simp [Record.idOr, Record.optionalId, Record.given?, hget, bind, Except.bind, pure, Except.pure,
      Option.filter, Field.isNull]

theorem Drops.get?_overlay_eq_none (h : Drops k changes f) :
    ((toRecord k before).overlay changes).get? f = none := by
  rw [Record.get?_overlay, h.get?_eq_none, if_pos h.gone]
  rfl

theorem exists_classGiven {ref : NameReference} (href : ref ∈ nameReferences .parameterValue)
    {n : String} (hn : n ∈ ref.fields)
    (hscope : (n, "entity_class_name", "entity_class_id") ∈ Record.scopedNames) {r : Record}
    {v : Field} (h : ref.Names s r v) :
    ∃ i, r.ClassGiven s ("entity_class_name", "entity_class_id") i := by
  simp only [nameReferences, List.mem_cons, List.not_mem_nil, or_false] at href
  rcases href with rfl | rfl | rfl | rfl
  · obtain rfl := List.mem_singleton.1 hn
    exact absurd hscope (by decide)
  · obtain ⟨e, _, _, hclass, _⟩ := h
    exact ⟨e.classId, hclass⟩
  · obtain ⟨d, _, _, hclass, _⟩ := h
    exact ⟨d.entityClassId, hclass⟩
  · obtain rfl := List.mem_singleton.1 hn
    exact absurd hscope (by decide)

theorem revised_ne_ok_of_scope {before after : ParameterValue}
    (h : Loses .parameterValue changes "entity_class_id") {n : String}
    (hn : n ∈ nameFields .parameterValue)
    (hscope : (n, "entity_class_name", "entity_class_id") ∈ Record.scopedNames)
    (hhas : changes.has n = true) : revised s .parameterValue before changes ≠ .ok after := by
  intro hrevised
  obtain ⟨resolved, hresolved, -⟩ := bind_eq_ok_iff.1 hrevised
  obtain ⟨ref, href, hmem⟩ := List.mem_flatMap.1 hn
  have htarget : ∀ target ∈ (nameReferences .parameterValue).map NameReference.target,
      target ∈ fields .parameterValue := by decide
  obtain ⟨v, hv, -⟩ := ((fills_resolveNames .parameterValue s _).filled resolved hresolved).named
    ref href (htarget _ (List.mem_map_of_mem href)) (given_overlay_iff.2 ⟨n, hmem, hhas⟩)
  obtain ⟨i, hi⟩ := exists_classGiven href hmem hscope hv
  have hname : changes.given? "entity_class_name" = none := by
    by_contra hname
    refine h.not_redirects (Or.inr ⟨.ownerClass, List.mem_cons_self, rfl, "entity_class_name",
      List.mem_cons_self, ?_⟩)
    rwa [Record.has, Option.isSome_iff_ne_none]
  rw [Record.ClassGiven, given?_overlay_of_name (by decide), hname] at hi
  simp [Record.int?, h.drops.get?_overlay_eq_none] at hi

/-- An update that loses a field makes no row. -/
theorem Loses.revised_ne_ok (h : Loses k changes f) (after : Row k) :
    revised s k before changes ≠ .ok after := by
  rcases h.drops.required_or with ⟨c, hc, rfl, hrequired⟩ | ⟨rfl, rfl⟩
  · intro hrevised
    simp only [revised, bind_eq_ok_iff, read_eq_ok_iff] at hrevised
    obtain ⟨resolved, hresolved, row, hread, -⟩ := hrevised
    have hgiven := (reads_of_ofRecord hread c hc).given hrequired
    rw [given?_resolved_of_not_redirects ((fills_resolveNames k s _).filled resolved hresolved) hc
      h.not_redirects, Record.given?, h.drops.get?_overlay_eq_none] at hgiven
    exact hgiven rfl
  · rcases h.misses with hrequired | ⟨n, hn, ⟨name, _⟩, hscope, rfl, hhas⟩
    · exact absurd hrequired (by decide)
    · have hnames : ∀ e ∈ Record.scopedNames, e.2.2 = "entity_class_id" →
          e.2.1 = "entity_class_name" := by decide
      obtain rfl : name = "entity_class_name" := hnames _ hscope rfl
      exact revised_ne_ok_of_scope h hn hscope hhas

end Row

section Batch
variable {s : Snapshot} {k : Kind}

theorem insertStep_known (x : KeyIndex) (candidate : Record) :
    insertStep s k x (Row.known k candidate) = insertStep s k x candidate := by
  rw [insertStep, candidateRow_eq_formed, Row.formed_known, ← candidateRow_eq_formed, insertStep]

theorem updateStep_known (w : Working k) {changes : Record} (h : ∀ f, ¬Row.Loses k changes f) :
    updateStep s k w (Row.known k changes) = updateStep s k w changes := by
  have hid : (Row.known k changes).int? "id" = changes.int? "id" := by
    rw [Record.int?, Row.get?_known, if_pos (Row.source_mem_knownFields List.mem_cons_self),
      Record.int?]
  simp only [updateStep, Working.target, hid, Working.revise_eq, Row.revised_known h]

theorem checkBatch_known {σ : Type} {step : σ → Record → Except Rejection (Row k) × σ}
    {items items' : List Record}
    (h : ∀ item ∈ items ++ items', ∀ state, step state (Row.known k item) = step state item)
    (hknown : items.map (Row.known k) = items'.map (Row.known k)) (state : σ) (strict : Bool) :
    checkBatch step state items strict = checkBatch step state items' strict := by
  have houtcomes (l : List Record) (hl : ∀ item ∈ l, ∀ state, step state (Row.known k item) =
      step state item) : Batch.outcomes step state (l.map (Row.known k)) =
        Batch.outcomes step state l :=
    Batch.outcomes_congr (List.forall₂_map_left_iff.2 (List.forall₂_same.2 hl)) state
  have hsame : Batch.outcomes step state items = Batch.outcomes step state items' := by
    rw [← houtcomes items fun item hitem => h item (List.mem_append_left _ hitem), hknown,
      houtcomes items' fun item hitem => h item (List.mem_append_right _ hitem)]
  simp only [checkBatch, Batch.strict_eq, hsame]

end Batch

namespace Snapshot

/-- Batches of which a kind knows the same are checked alike: batches of candidates always, and
batches of updates if no update loses a field. An update that loses one is refused wherever it comes
in a batch, and only rows of three kinds have fields to lose. -/
theorem check_known (s : Snapshot) {k : Kind} {items items' : List Record}
    (hknown : items.map (Row.known k) = items'.map (Row.known k)) :
    (∀ strict, s.checkInsert k items strict = s.checkInsert k items' strict) ∧
      ((∀ changes ∈ items ++ items', ∀ f, ¬Row.Loses k changes f) →
        ∀ strict, s.checkUpdate k items strict = s.checkUpdate k items' strict) ∧
      ∀ changes f, Row.Loses k changes f → (k, f) ∈ Row.losable ∧
        ∀ n : Nat, items[n]? = some changes →
          ∃ r : Rejection, (s.updateAnswers k items)[n]? = some (.error r) := by
  refine ⟨fun strict => ?_, fun h strict => ?_, fun changes f hloses =>
    ⟨hloses.drops.mem_losable, fun n hitem => ?_⟩⟩
  · unfold checkInsert
    rw [checkBatch_known (fun item _ x => insertStep_known x item) hknown]
  · unfold checkUpdate
    rw [checkBatch_known (fun item hitem w => updateStep_known w (h item hitem)) hknown]
  · have hlength : n < (s.updateAnswers k items).length := by
      rw [updateAnswers, Batch.length_outcomes]
      exact (List.getElem?_eq_some_iff.1 hitem).1
    cases hanswer : (s.updateAnswers k items)[n] with
    | error r => exact ⟨r, by rw [List.getElem?_eq_getElem hlength, hanswer]⟩
    | ok after =>
      obtain ⟨item, before, hitem', _, _, hrevised⟩ := exists_revised_of_updateAnswers
        (List.getElem?_eq_some_iff.2 ⟨hlength, hanswer⟩)
      obtain rfl := Option.some.inj (hitem.symm.trans hitem')
      exact absurd hrevised (hloses.revised_ne_ok after)

/-- A group of tanks with one member. -/
def grouped : Snapshot :=
  ((empty.putRows .entityClass [⟨1, "tank", none, []⟩]).putRows .entity
    [⟨1, 1, "all", none, []⟩, ⟨2, 1, "north", none, []⟩, ⟨3, 1, "south", none, []⟩]).putRows
      .entityGroup [⟨1, 1, 1, 2⟩]

/-- The group gets another member, and fields beside. -/
def memberChange (fields : List (String × Option Field)) : Record :=
  .ofFields (("id", some (.int 1)) :: ("member_id", some (.int 3)) :: fields)

/-- With the group named, a field that the kind does not know is inert. Without, the group is lost
to it. -/
theorem check_known_grouped :
    let plain := [memberChange [("group_name", some (.text "all"))]]
    let tinted := [memberChange [("group_name", some (.text "all")), ("object_id", some (.int 2)),
      ("colour", some (.text "red"))]]
    let losing := [memberChange [("object_id", some (.int 2))]]
    plain.map (Row.known .entityGroup) = tinted.map (Row.known .entityGroup) ∧
      grouped.checkUpdate .entityGroup plain true = grouped.checkUpdate .entityGroup tinted true ∧
      grouped.checkUpdate .entityGroup plain true = .ok ⟨[⟨1, 1, 1, 3⟩], [], ∅⟩ ∧
      ∃ r : Rejection, (grouped.updateAnswers .entityGroup losing)[0]? = some (.error r) := by
  dsimp only
  have hknown : [memberChange [("group_name", some (.text "all"))]].map (Row.known .entityGroup) =
      [memberChange [("group_name", some (.text "all")), ("object_id", some (.int 2)),
        ("colour", some (.text "red"))]].map (Row.known .entityGroup) := by decide
  refine ⟨hknown, (check_known grouped hknown).2.1 (by decide) true, by decide, ?_⟩
  exact ((check_known grouped (rfl : [memberChange [("object_id", some (.int 2))]].map
    (Row.known .entityGroup) = _)).2.2 (memberChange [("object_id", some (.int 2))]) "entity_id"
      (by decide)).2 0 rfl

/-- An update of a group is refused for a field that the kind does not know. -/
theorem checkUpdate_grouped_loses :
    let plain := memberChange []
    let losing := memberChange [("object_id", some (.int 2))]
    grouped.isComplete = true ∧ "object_id" ∉ Row.knownFields .entityGroup ∧
      Row.known .entityGroup losing = Row.known .entityGroup plain ∧
      grouped.checkUpdate .entityGroup [plain] false = .ok ⟨[⟨1, 1, 1, 3⟩], [], ∅⟩ ∧
      grouped.checkUpdate .entityGroup [losing] false =
        .ok ⟨[], [⟨.entityGroup, .update, some 1, .fault (.missing "entity_id")⟩], ∅⟩ := by
  decide

end Snapshot

end EntityStore
