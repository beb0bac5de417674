import EntityStore.Proofs.Check.Keys
import EntityStore.Proofs.Engine.InStep
import Mathlib.Data.List.Pairwise
/-!
# Rows of a kind have different keys

Inserted rows share no key with one another or with a row that was there, the rows that a batch of
updates leaves have no key in common, and a removal changes no key. So rows whose keys differ when a
session is opened differ in them after every checked history, in the session and in the store
(`Workspace.run_keysDiffer`).
-/
namespace EntityStore

theorem sublist_keys_numbered {k : Kind} (rows : List (Row k)) (range : IdRange) :
    ((numbered k rows range).map (Row.keys k)).Sublist (rows.map (Row.keys k)) := by
  unfold numbered
  generalize range.toList = ids
  induction rows generalizing ids with
  | nil => exact List.nil_sublist _
  | cons row rows ih =>
    cases ids with
    | nil => exact List.nil_sublist _
    | cons i ids =>
      rw [List.zipWith_cons_cons, List.map_cons, List.map_cons, Row.keys_withId]
      exact (ih ids).cons_cons _

theorem Row.keys_leftBy (removed : IdMap) (k : Kind) (row : Row k) :
    Row.keys k (Row.leftBy removed k row) = Row.keys k row := by
  by_cases hk : k = .parameterDefinition
  · subst hk
    rw [Row.leftBy_definition]
    split <;> rfl
  · rw [Row.leftBy_of_ne removed hk]

theorem Row.id_leftBy (removed : IdMap) (k : Kind) (row : Row k) :
    Row.id k (Row.leftBy removed k row) = Row.id k row := by
  by_cases hk : k = .parameterDefinition
  · subst hk
    rw [Row.leftBy_definition]
    split <;> rfl
  · rw [Row.leftBy_of_ne removed hk]

theorem find?_foldl_insert_stored {k : Kind} (rows : List (Row k)) (t : Table k) (i : Id) :
    ((rows.map (Row.stored k)).foldl Ascending.insert t).find? i =
      ((rows.reverse.find? fun row => Row.id k row = i).map (Row.stored k)).or (t.find? i) := by
  rw [Ascending.find?_foldl_insert, ← List.map_reverse, List.find?_map]
  simp only [Function.comp_def, Row.id_stored]

namespace Snapshot
variable {s s' : Snapshot} {k : Kind}

theorem KeysDiffer.putRows (h : s.KeysDiffer) {rows : List (Row k)}
    (hpair : rows.Pairwise fun a b => List.Disjoint (Row.keys k a) (Row.keys k b))
    (hold : ∀ old ∈ s.rows k, ∀ row ∈ rows, List.Disjoint (Row.keys k old) (Row.keys k row)) :
    (s.putRows k rows).KeysDiffer := by
  intro j a ha b hb key hkey hkey'
  by_cases hj : k = j
  · subst hj
    rcases mem_or_mem_of_mem_putRows ha with hanew | haold <;>
      rcases mem_or_mem_of_mem_putRows hb with hbnew | hbold
    · by_contra hne
      have : Std.Symm fun a b : Row k => List.Disjoint (Row.keys k a) (Row.keys k b) :=
        ⟨fun _ _ => List.disjoint_symm⟩
      exact hpair.forall hanew hbnew hne hkey hkey'
    · exact (hold b hbold a hanew hkey' hkey).elim
    · exact (hold a haold b hbnew hkey hkey').elim
    · exact h k a haold b hbold key hkey hkey'
  · rw [table_putRows_of_ne rows s hj] at ha hb
    exact h j a ha b hb key hkey hkey'

theorem KeysDiffer.inserted (h : s.KeysDiffer) {candidates : List Record} {strict : Bool}
    {checked : CheckResult k} (check : s.checkInsert k candidates strict = .ok checked)
    (range : IdRange) :
    (s.putRows k ((numbered k checked.accepted range).map (Row.stored k))).KeysDiffer := by
  rcases disjoint_of_checkInsert check with ⟨hpair, hold⟩
  apply h.putRows
  · simp only [List.pairwise_map, Row.keys_stored]
    apply List.pairwise_map.1
    exact (List.pairwise_map.2 hpair).sublist (sublist_keys_numbered checked.accepted range)
  · intro old hmem row hrow
    rcases List.mem_map.1 hrow with ⟨new, hnew, rfl⟩
    rcases mem_numbered hnew with ⟨accepted, haccepted, i, rfl⟩
    rw [Row.keys_stored, Row.keys_withId]
    exact hold old hmem accepted haccepted

theorem KeysDiffer.updated (h : s.KeysDiffer) {changes : List Record} {strict : Bool}
    {checked : CheckResult k} (check : s.checkUpdate k changes strict = .ok checked) :
    (s.putRows k (checked.accepted.map (Row.stored k))).KeysDiffer := by
  intro j
  by_cases hj : k = j
  · subst hj
    rw [table_putRows_self]
    apply (keysDiffer_of_checkUpdate (h k) check).of_rows
    intro row hrow
    have hfind := Ascending.mem_iff_find?.1 hrow
    have hbefore := Ascending.find?_foldl_insert checked.accepted (s.table k) (Row.id k row)
    rw [find?_foldl_insert_stored] at hfind
    cases hlast : checked.accepted.reverse.find? (fun r => Row.id k r = Row.id k row) with
    | some accepted =>
      rw [hlast] at hfind hbefore
      obtain rfl := Option.some.inj hfind
      refine ⟨accepted, Ascending.mem_of_find? hbefore, ?_, ?_⟩
      · rw [Row.id_stored]
      · rw [Row.keys_stored]
    | none =>
      rw [hlast] at hfind hbefore
      exact ⟨row, Ascending.mem_of_find? (hbefore.trans hfind), rfl, rfl⟩
  · rw [table_putRows_of_ne _ s hj]
    exact h j

theorem KeysDiffer.without (h : s.KeysDiffer) (removed : IdMap) :
    (s.without removed).KeysDiffer := by
  intro j
  apply (h j).of_rows
  intro row hrow
  rcases of_mem_rows_without hrow with ⟨before, hbefore, _, rfl⟩
  exact ⟨before, hbefore, (Row.id_leftBy removed j before).symm,
    (Row.keys_leftBy removed j before).symm⟩

theorem KeysDiffer.change {o : Options} {c : Call} (hchange : s.Change o c s')
    (h : s.KeysDiffer) : s'.KeysDiffer := by
  cases hchange with
  | insert check fresh => exact h.inserted check _
  | update check => exact h.updated check
  | remove sub set free => exact h.without _

end Snapshot

namespace Workspace

/-- Rows of a kind whose keys differ in a session that was just opened differ in them after every
checked history, in the session and in what a load of its store gives. -/
theorem run_keysDiffer (o : Options) {store : Store} {session : Session} {events : List Event}
    (hopen : Session.open store = .ok session) (hkeys : session.snapshot.KeysDiffer)
    (hchecked : ∀ e ∈ events, e.isChecked = true) :
    let final := (⟨store, session⟩ : Workspace).run o events
    final.session.snapshot.KeysDiffer ∧
      ∃ s, Snapshot.load final.store [] = .ok s ∧ s.KeysDiffer := by
  have hrun := run_invariant (o := o) (w := ⟨store, session⟩)
    (P := fun w => w.InStep ∧ w.session.snapshot.KeysDiffer) ?_ ⟨inStep_of_open hopen, hkeys⟩
    hchecked
  · exact ⟨hrun.2, _, hrun.1, hrun.2⟩
  · rintro w e he ⟨hstep, hdiffer⟩
    have hkept := react_keeps (o := o) (fun _ _ _ hchange hkeys => hkeys.change hchange) he
      ⟨hstep.covers, hdiffer⟩
    exact ⟨react_inStep hstep e, hkept.2⟩

/-- A batch that passes a name on and takes it back, and inserts around a refusal. -/
theorem run_pipes_keysDiffer :
    let final := (⟨pipes, pipesSession⟩ : Workspace).run {}
      [.call (.update .entityClass [
          .ofFields [("id", some (.int 1)), ("name", some (.text "pump"))],
          .ofFields [("id", some (.int 2)), ("name", some (.text "tank"))],
          .ofFields [("id", some (.int 1)), ("name", some (.text "tank"))],
          .ofFields [("id", some (.int 1)), ("name", some (.text "pipe"))]] none),
        .call (.insert .entityClass [.ofFields [("name", some (.text "valve"))],
          .ofFields [("name", some (.text "tank"))]] none false)]
    final.session.snapshot.KeysDiffer ∧
      ∃ s, Snapshot.load final.store [] = .ok s ∧ s.KeysDiffer :=
  run_keysDiffer {} open_pipes (by decide) (by decide)

end Workspace

end EntityStore
