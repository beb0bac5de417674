import EntityStore.Proofs.Lists
import EntityStore.Proofs.Store.Apply
/-!
# All changes or none

A set of changes is made to the tables unless it clashes with them (`ChangeSet.Clashes`): a record
has no id, an update finds no row once the deletes are gone, or an insert finds one or comes under
the id of an insert before it. Changes that clash leave the store as it is, and changes that do not
have the tables hold the inserts, the last update of every id and, of all other rows, those that are
not deleted (`Store.apply_whole`).
-/
namespace EntityStore
open RecordTables

namespace ChangeSet

/-- A row of an id is there and stays when the deletes are made. -/
def Leaves (c : ChangeSet) (ts : RecordTables) (k : Kind) (i : Id) : Prop :=
  (ts.get k).contains i = true ∧ c.deletes.has k i = false

/-- Why changes cannot be made to tables. -/
inductive Clashes (c : ChangeSet) (ts : RecordTables) : Prop where
  /-- A record has no integer in `id`, or that of a row without an id. -/
  | unnamed (k : Kind) (r : Record) (mem : r ∈ listed c.updates k ∨ r ∈ listed c.inserts k)
    (id : ∀ i, r.get? "id" = some (.int i) → i = pendingId)
  | missing (k : Kind) (r : Record) (mem : r ∈ listed c.updates k) (gone : ¬c.Leaves ts k r.id)
  | taken (k : Kind) (r : Record) (mem : r ∈ listed c.inserts k) (left : c.Leaves ts k r.id)
  /-- An insert comes after another one with its id. -/
  | repeated (k : Kind) (r r' : Record) (order : [r, r'].Sublist (listed c.inserts k))
    (id : r'.id = r.id)

/-- What changes make of tables. -/
structure Yields (c : ChangeSet) (ts ts' : RecordTables) : Prop where
  inserted : ∀ k, ∀ r ∈ listed c.inserts k, (ts'.get k).find? r.id = some r
  /-- Of several updates of an id the last one holds. -/
  updated : ∀ k before r after, listed c.updates k = before ++ r :: after →
    (∀ r' ∈ after, r'.id ≠ r.id) → (ts'.get k).find? r.id = some r
  others : ∀ k i, (∀ r ∈ listed c.inserts k, r.id ≠ i) → (∀ r ∈ listed c.updates k, r.id ≠ i) →
    (ts'.get k).find? i = if c.deletes.has k i then .none else (ts.get k).find? i

end ChangeSet

theorem Record.id_eq_pendingId_iff (r : Record) :
    r.id = pendingId ↔ ∀ i, r.get? "id" = some (.int i) → i = pendingId := by
  unfold Record.id Record.int?
  split
  next i hi => simp [hi]
  next h =>
    simp only [Option.getD_none, true_iff]
    intro i hi
    exact absurd hi (h i)

namespace RecordTables
variable {ts ts' : RecordTables} {c : ChangeSet}

theorem leaves_iff {i : Id} :
    c.Leaves ts k i ↔ ((ts.deleteRows c.deletes).get k).contains i = true :=
  (contains_deleteRows ts c.deletes k i).symm

theorem not_clashes_iff :
    ¬c.Clashes ts ↔ ∀ k, (∀ r ∈ listed c.updates k, r.id ≠ pendingId ∧ c.Leaves ts k r.id) ∧
      (∀ r ∈ listed c.inserts k, r.id ≠ pendingId ∧ ¬c.Leaves ts k r.id) ∧
      ((listed c.inserts k).map Record.id).Nodup := by
  constructor
  · intro h k
    refine ⟨fun r hr => ⟨fun hid => ?_, ?_⟩, fun r hr => ⟨fun hid => ?_, ?_⟩, ?_⟩
    · exact h (.unnamed k r (Or.inl hr) ((Record.id_eq_pendingId_iff r).1 hid))
    · exact Classical.byContradiction fun hgone => h (.missing k r hr hgone)
    · exact h (.unnamed k r (Or.inr hr) ((Record.id_eq_pendingId_iff r).1 hid))
    · exact fun hleft => h (.taken k r hr hleft)
    · rw [List.Nodup, List.pairwise_map, List.pairwise_iff_forall_sublist]
      exact fun {r r'} horder hid => h (.repeated k r r' horder hid.symm)
  · rintro h (⟨k, r, hr, hid⟩ | ⟨k, r, hr, hgone⟩ | ⟨k, r, hr, hleft⟩ | ⟨k, r, r', horder, hid⟩)
    · have hpending := (Record.id_eq_pendingId_iff r).2 hid
      obtain hr | hr := hr
      · exact ((h k).1 r hr).1 hpending
      · exact ((h k).2.1 r hr).1 hpending
    · exact hgone ((h k).1 r hr).2
    · exact ((h k).2.1 r hr).2 hleft
    · have hnodup := (h k).2.2
      rw [List.Nodup, List.pairwise_map, List.pairwise_iff_forall_sublist] at hnodup
      exact hnodup horder hid.symm

/-- Changes are made if they do not clash with the tables: in every kind, deletes first, then
updates, then inserts. -/
theorem change_eq_ok_iff_not_clashes :
    ts.change c = .ok ts' ↔ ¬c.Clashes ts ∧ ∀ k, ts'.get k =
      (listed c.inserts k).foldl Ascending.insert
        ((listed c.updates k).foldl Ascending.insert ((ts.deleteRows c.deletes).get k)) := by
  rw [change_eq_ok_iff, not_clashes_iff, ← forall_and]
  refine forall_congr' fun k => ?_
  simp only [leaves_iff, Bool.not_eq_true, and_assoc]

theorem exists_change (h : ¬c.Clashes ts) : ∃ ts', ts.change c = .ok ts' :=
  ⟨_, change_eq_ok_iff_not_clashes.2 ⟨h, fun k => ByKind.get_ofFn _ k⟩⟩

theorem yields_of_change (h : ts.change c = .ok ts') : c.Yields ts ts' := by
  obtain ⟨hfits, hget⟩ := change_eq_ok_iff_not_clashes.1 h
  rw [not_clashes_iff] at hfits
  have hfind (k : Kind) (i : Id) : (ts'.get k).find? i =
      ((listed c.inserts k).reverse.find? fun r => r.id = i).or
        (((listed c.updates k).reverse.find? fun r => r.id = i).or
          (((ts.get k).find? i).filter fun r => !c.deletes.has k r.id)) := by
    rw [hget k, Ascending.find?_foldl_insert, Ascending.find?_foldl_insert, get_deleteRows,
      Ascending.find?_filter]
  have hnone (rs : List Record) (i : Id) (hrs : ∀ r ∈ rs, r.id ≠ i) :
      (rs.reverse.find? fun r => r.id = i) = none :=
    List.find?_eq_none.2 fun r hr => by simpa using hrs r (List.mem_reverse.1 hr)
  constructor
  case inserted =>
    intro k r hr
    rw [hfind]
    obtain ⟨before, after, hsplit⟩ := List.append_of_mem hr
    have hnodup := (hfits k).2.2
    have hafter : ∀ r' ∈ after, r'.id ≠ r.id := by
      rw [hsplit, List.map_append, List.map_cons] at hnodup
      intro r' hr' hsame
      exact (List.nodup_cons.1 (List.nodup_append.1 hnodup).2.1).1
        (hsame ▸ List.mem_map_of_mem hr')
    rw [hsplit, List.reverse_append, List.reverse_cons, List.append_assoc, List.find?_append,
      hnone after r.id hafter]
    simp
  case updated =>
    intro k before r after hsplit hafter
    have hmem : r ∈ listed c.updates k := by simp [hsplit]
    rw [hfind, hnone (listed c.inserts k) r.id, hsplit, List.reverse_append, List.reverse_cons,
      List.append_assoc, List.find?_append, hnone after r.id hafter]
    · simp
    · intro r' hr' hsame
      exact ((hfits k).2.1 r' hr').2 (hsame ▸ ((hfits k).1 r hmem).2)
  case others =>
    intro k i hinserts hupdates
    rw [hfind, hnone _ i hinserts, hnone _ i hupdates]
    cases hold : (ts.get k).find? i with
    | none => simp
    | some r =>
      have hid : r.id = i := Ascending.key_of_find? hold
      cases hdeleted : c.deletes.has k i <;> simp [Option.filter, hid, hdeleted]

theorem eq_of_yields {made : RecordTables} (h : c.Yields ts made) (h' : c.Yields ts ts') :
    made = ts' := by
  refine ByKind.ext_get fun k => Ascending.ext_find? fun i => ?_
  by_cases hinserted : ∃ r ∈ listed c.inserts k, r.id = i
  · obtain ⟨r, hr, rfl⟩ := hinserted
    rw [h.inserted k r hr, h'.inserted k r hr]
  · have hinserts : ∀ r ∈ listed c.inserts k, r.id ≠ i := fun r hr hid => hinserted ⟨r, hr, hid⟩
    obtain hupdates | ⟨before, r, after, hsplit, rfl, hafter⟩ :=
      exists_last (fun r : Record => r.id = i) (listed c.updates k)
    · rw [h.others k i hinserts hupdates, h'.others k i hinserts hupdates]
    · rw [h.updated k before r after hsplit hafter, h'.updated k before r after hsplit hafter]

end RecordTables

namespace Store

/-- Unless a failure is set up, an apply fails exactly for changes that clash with the tables. One
that fails leaves the store as it is, and one that succeeds leaves the tables that the changes
yield and counts as one more. -/
theorem apply_whole (s : Store) (c : ChangeSet) (h : s.applyFails = false) :
    ((∃ f, (s.apply c).1 = .error f) ↔ c.Clashes s.tables) ∧
      (∀ f, (s.apply c).1 = .error f → (s.apply c).2 = s) ∧
      ((s.apply c).1 = .ok () → ∃ tables, (∀ ts, c.Yields s.tables ts ↔ ts = tables) ∧
        (s.apply c).2 = { s with tables, applyCount := s.applyCount + 1 }) := by
  cases hchange : s.tables.change c with
  | error f =>
    have happly : s.apply c = (.error f, s) := by simp [apply, h, hchange]
    rw [happly]
    refine ⟨⟨fun _ => Classical.byContradiction fun hfits => ?_, fun _ => ⟨f, rfl⟩⟩,
      fun _ _ => rfl, nofun⟩
    obtain ⟨_, hok⟩ := exists_change hfits
    rw [hok] at hchange
    cases hchange
  | ok tables =>
    have happly : s.apply c = (.ok (), { s with tables, applyCount := s.applyCount + 1 }) := by
      simp [apply, h, hchange]
    rw [happly]
    refine ⟨⟨fun ⟨_, hf⟩ => (nomatch hf), fun hclash => ?_⟩, nofun,
      fun _ => ⟨tables, fun ts => ⟨fun hyields => ?_, ?_⟩, rfl⟩⟩
    · exact absurd hclash (change_eq_ok_iff_not_clashes.1 hchange).1
    · exact eq_of_yields hyields (yields_of_change hchange)
    · rintro rfl
      exact yields_of_change hchange

/-- A record with an id and a name. -/
def label (i : Id) (name : String) : Record :=
  .ofFields [("id", some (.int i)), ("name", some (.text name))]

def labels : Store :=
  { empty with tables := empty.tables.set .alternative (.ofList [label 1 "Base", label 2 "low"]) }

/-- One id is updated twice, another one is deleted and inserted again. -/
def relabel : ChangeSet where
  inserts := ((∅ : SortedMap _ _).set .alternative [label 2 "high"]).set .tool [label 7 "solver"]
  updates := (∅ : SortedMap _ _).set .alternative [label 1 "first", label 1 "second"]
  deletes := .ofNodes [(.alternative, 2)]

/-- The id that is deleted is updated instead. -/
def relabelLow : ChangeSet :=
  { relabel with updates := (∅ : SortedMap _ _).set .alternative [label 2 "late"] }

theorem apply_relabel :
    labels.applyFails = false ∧ ¬relabel.Clashes labels.tables ∧
      (labels.apply relabel).2 = { labels with
        tables := (labels.tables.set .alternative (.ofList [label 1 "second", label 2 "high"])).set
          .tool (.ofList [label 7 "solver"])
        applyCount := 1 } ∧
      relabel.Yields labels.tables (labels.apply relabel).2.tables ∧
      relabelLow.Clashes labels.tables ∧ (labels.apply relabelLow).2 = labels := by
  have hmade : (labels.apply relabel).1 = .ok () := rfl
  have hrefused : (labels.apply relabelLow).1 = .error (.updateOfMissing .alternative 2) := rfl
  obtain ⟨hclash, _, hyields⟩ := apply_whole labels relabel rfl
  obtain ⟨hclashLow, hsame, _⟩ := apply_whole labels relabelLow rfl
  obtain ⟨tables, hunique, hstate⟩ := hyields hmade
  refine ⟨rfl, fun h => ?_, rfl, ?_, hclashLow.1 ⟨_, hrefused⟩, hsame _ hrefused⟩
  · obtain ⟨f, hf⟩ := hclash.2 h
    rw [hmade] at hf
    cases hf
  · rw [hunique, hstate]

end Store

end EntityStore
