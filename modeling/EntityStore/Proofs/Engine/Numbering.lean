import EntityStore.Engine.Writings
import EntityStore.Proofs.Engine.Ready
import EntityStore.Proofs.Engine.Recycling
/-!
# Inserts into a store that nothing stands against

While nobody holds a claim and no failure is set up (`Store.Idle`), an insert is never refused its
ids. The store takes the rows under them unless one of the ids is that of a pending row
(`Workspace.insertRows_of_idle`), which only comes about in a table whose ids are all negative. Ids
are not negative unless somebody writes such an id (`Store.Counted`).
-/
namespace EntityStore

section Above
variable {α κ : Type} [Ord κ] [Std.TransOrd κ] [Std.LawfulEqOrd κ] {key : α → κ}

theorem Ascending.toList_insert_of_lt {m : Ascending key} {x : α}
    (h : ∀ y ∈ m.toList, compare (key y) (key x) = .lt) :
    (m.insert x).toList = m.toList ++ [x] := by
  change insertInto key x m.toList = m.toList ++ [x]
  generalize m.toList = l at h
  induction l with
  | nil => rfl
  | cons y l ih =>
    have hgt : compare (key x) (key y) = .gt :=
      Std.OrientedCmp.gt_iff_lt.2 (h y List.mem_cons_self)
    rw [insertInto, hgt, List.cons_append]
    exact congrArg _ (ih fun z hz => h z (List.mem_cons_of_mem y hz))

theorem Ascending.toList_foldl_insert_of_lt {l : List α} {m : Ascending key}
    (hl : l.Pairwise fun a b => compare (key a) (key b) = .lt)
    (h : ∀ y ∈ m.toList, ∀ x ∈ l, compare (key y) (key x) = .lt) :
    (l.foldl Ascending.insert m).toList = m.toList ++ l := by
  induction l generalizing m with
  | nil => simp
  | cons x l ih =>
    obtain ⟨hx, hl⟩ := List.pairwise_cons.1 hl
    have hlast := toList_insert_of_lt fun y hy => h y hy x List.mem_cons_self
    rw [List.foldl_cons, ih hl, hlast, List.append_assoc, List.singleton_append]
    rw [hlast]
    intro y hy z hz
    rcases List.mem_append.1 hy with hy | hy
    · exact h y hy z (List.mem_cons_of_mem x hz)
    · rw [List.mem_singleton.1 hy]
      exact hx z hz

end Above

def Writing.HasRoom (s : Store) (k : Kind) : Writing → Prop
  | .call o session c => c.HasRoom o ⟨s, session⟩ k
  | _ => True

namespace RecordTables
variable {k : Kind} {t : RecordTable}

theorem storedId_of_pending {r : Record} (h : r.id = pendingId) :
    storedId k r = .error (.rowWithoutId k) := by
  unfold Record.id at h
  cases hint : r.int? "id" <;> simp_all [storedId]

/-- New records under ids of their own are refused when one of them has none. -/
theorem insertRows_of_pending {rs : List Record} (hpending : ∃ r ∈ rs, r.id = pendingId)
    (hnew : ∀ r ∈ rs, t.contains r.id = false) (hnodup : (rs.map Record.id).Nodup) :
    rs.foldlM (insertRow k) t = .error (.rowWithoutId k) := by
  induction rs generalizing t with
  | nil => simp at hpending
  | cons r rs ih =>
    rw [List.forall_mem_cons] at hnew
    rcases List.nodup_cons.1 hnodup with ⟨hother, hnodup⟩
    rw [List.foldlM_cons]
    by_cases hr : r.id = pendingId
    · rw [insertRow, storedId_of_pending hr]
      rfl
    · have hinserted : insertRow k t r = .ok (t.insert r) :=
        insertRow_eq_ok_iff.2 ⟨hr, hnew.1, rfl⟩
      rw [hinserted]
      refine ih (by simpa [hr] using hpending) (fun r' hr' => ?_) hnodup
      exact Ascending.contains_insert_eq_false.2
        ⟨fun hsame => hother (hsame ▸ List.mem_map_of_mem hr'), hnew.2 r' hr'⟩

theorem change_ofInserts_of_pending {ts : RecordTables} {rs : List Record}
    (hpending : ∃ r ∈ rs, r.id = pendingId) (hnew : ∀ r ∈ rs, (ts.get k).contains r.id = false)
    (hnodup : (rs.map Record.id).Nodup) :
    ts.change (.ofInserts k rs) = .error (.rowWithoutId k) := by
  have hone : ts.change (.ofInserts k rs) =
      (do
        let t ← rs.foldlM (insertRow k) ((ts.deleteRows ∅).get k)
        return (ts.deleteRows ∅).set k t) >>= pure := rfl
  rw [hone, deleteRows_empty, insertRows_of_pending hpending hnew hnodup]
  rfl

end RecordTables

namespace Store

/-- Nobody holds a claim and no failure is set up. -/
structure Idle (s : Store) : Prop where
  free : s.claimed = false
  applies : s.applyFails = false
  claims : s.claimFails = false

theorem idle_empty : Idle .empty := ⟨rfl, rfl, rfl⟩

variable {s : Store}

theorem Idle.advanced (h : s.Idle) (k : Kind) (stop : Id) : (s.advanced k stop).Idle :=
  ⟨rfl, h.applies, h.claims⟩

theorem Idle.apply (h : s.Idle) (c : ChangeSet) : (s.apply c).2.Idle := by
  unfold Store.apply
  rw [h.applies]
  cases s.tables.change c with
  | error f => exact h
  | ok tables => exact ⟨h.free, rfl, h.claims⟩

end Store

namespace Workspace
variable {o : Options} {w : Workspace} {k : Kind}

theorem idle_commit {α : Type} (h : w.store.Idle) (op : Operation) (c : ChangeSet)
    (session : Session) (result : α) (log : List Log.Entry) :
    (w.commit op c session result log).state.store.Idle := by
  have hidle := h.apply c
  unfold commit
  rcases happly : w.store.apply c with ⟨_ | _, store⟩
  all_goals
    rw [happly] at hidle
    exact hidle

theorem Writes.idle {α : Type} {op : Operation} {C : ChangeSet → Session → Prop}
    {r : Run Workspace α} (hr : Writes w op C r) (h : w.store.Idle) : r.state.store.Idle := by
  cases hr with
  | stopped log _ => exact h
  | nothing result log => exact h
  | committed _ result before after =>
    rw [Run.state_after]
    exact idle_commit h _ _ _ _ _

/-- The workspace after ids were handed out to so many rows. -/
def reserving (w : Workspace) (k : Kind) (count : Nat) : Workspace :=
  { w with store := w.store.advanced k (IdRange.stop ⟨w.store.firstFree k, count⟩) }

theorem insertRows_of_idle (h : w.store.Idle) {rows : List (Row k)} (hsome : rows ≠ [])
    (duplicates : IdSet) (rejected : List Rejection) :
    let run := w.insertRows o k rows duplicates rejected
    ∃ result log, result.items = (w.newRows k rows).map (Row.toRecord k) ∧
      let made := (w.reserving k rows.length).commit .insert
        (.ofInserts k ((w.newRows k rows).map (Row.toRecord k)))
        (w.session.addRows k ((w.newRows k rows).map (Row.stored k))) result log
      run.outcome = made.outcome ∧ run.state = made.state := by
  have hcount : rows.length ≠ 0 := mt List.length_eq_zero_iff.1 hsome
  obtain ⟨houtcome, hstate⟩ := Store.allocate_of_claim k hcount
    (Store.claim_of_free h.free h.claims o.owner)
  dsimp only
  rw [insertRows, houtcome, hstate]
  exact ⟨_, _, rfl, rfl, rfl⟩

theorem insert_idle (h : w.store.Idle) (candidates : List Record) (strict : Option Bool)
    (duplicates : Bool) : (w.insert o k candidates strict duplicates).state.store.Idle := by
  unfold insert
  split
  · exact h
  next checked _ =>
    dsimp only
    split
    · exact h
    next hsome =>
      rw [Run.state_after]
      obtain ⟨_, _, _, _, hstate⟩ := insertRows_of_idle (o := o) h hsome _ checked.rejected
      rw [hstate]
      exact idle_commit (h.advanced k _) _ _ _ _ _

theorem commit_of_refusal {α : Type} {c : ChangeSet} {f : StorageFault}
    (happlies : w.store.applyFails = false) (hchange : w.store.tables.change c = .error f)
    (op : Operation) (session : Session) (result : α) (log : List Log.Entry) :
    let run := w.commit op c session result log
    run.outcome = .error (.applyFailed op f) ∧ run.state = w := by
  have happly : w.store.apply c = (.error f, w.store) := by
    rw [Store.apply, happlies, hchange]
    rfl
  dsimp only
  rw [commit, happly]
  exact ⟨rfl, rfl⟩

section Insert
variable {candidates : List Record} {strict : Option Bool} {checked : CheckResult k}
  (h : w.store.Idle)
  (hcheck : w.session.snapshot.checkInsert k candidates (strict.getD o.strict) = .ok checked)
  (hsome : checked.accepted ≠ []) (duplicates : Bool)
include h hcheck hsome

theorem insert_of_idle :
    let run := w.insert o k candidates strict duplicates
    let items := (w.newRows k checked.accepted).map (Row.toRecord k)
    (∀ tables, w.store.tables.change (.ofInserts k items) = .ok tables →
        ∃ result, run.outcome = .ok result ∧ result.items = items ∧
          run.state.store.tables = tables) ∧
      ∀ f, w.store.tables.change (.ofInserts k items) = .error f →
        run.outcome = .error (.applyFailed .insert f) ∧
          run.state.store.tables = w.store.tables := by
  obtain ⟨result, log, hitems, houtcome, hstate⟩ :=
    insertRows_of_idle (o := o) h hsome (if duplicates then checked.duplicateIds else ∅)
      checked.rejected
  dsimp only
  rw [insert, hcheck]
  dsimp only
  rw [if_neg hsome, Run.outcome_after, Run.state_after, houtcome, hstate]
  constructor
  · intro tables hchange
    rw [commit_of_change (w := w.reserving k _) h.applies hchange]
    exact ⟨result, rfl, hitems, rfl⟩
  · intro f hchange
    obtain ⟨hfailed, hsame⟩ := commit_of_refusal (w := w.reserving k checked.accepted.length)
      h.applies hchange .insert (w.session.addRows k _) result log
    rw [hfailed, hsame]
    exact ⟨rfl, rfl⟩

/-- Rows of which none is given the id of a pending row come into the table of their kind behind
those that are there. -/
theorem insert_of_positive (hroom : w.store.Room k checked.accepted.length)
    (hpending : pendingId ∉ (⟨w.store.firstFree k, checked.accepted.length⟩ : IdRange).toList) :
    let run := w.insert o k candidates strict duplicates
    let items := (w.newRows k checked.accepted).map (Row.toRecord k)
    ∃ result, run.outcome = .ok result ∧ result.items = items ∧
      run.state.store.records k = w.store.records k ++ items ∧
      ∀ j, k ≠ j → run.state.store.table j = w.store.table j := by
  obtain ⟨result, houtcome, hitems, htables⟩ :=
    (insert_of_idle h hcheck hsome duplicates).1 _ (change_newRows hroom hpending)
  refine ⟨result, houtcome, hitems, ?_, ?_⟩
  · rw [Store.records, Store.table, htables, Store.written, ByKind.get_set_self]
    have hids := map_id_newRows w checked.accepted
    rw [← Row.map_id_toRecord] at hids
    apply Ascending.toList_foldl_insert_of_lt
    · rw [← List.pairwise_map (f := Record.id) (R := fun i j => compare i j = .lt), hids]
      exact hroom.pairwise_toList.imp Int.compare_eq_lt.2
    · intro r hr r' hr'
      have hid := List.mem_map_of_mem (f := Record.id) hr'
      rw [hids, hroom.mem_toList] at hid
      have hlt := hroom.lt_firstFree_of_contains (mt List.length_eq_zero_iff.1 hsome)
        (Ascending.contains_iff.2 ⟨r, hr, rfl⟩)
      exact Int.compare_eq_lt.2 (Int.lt_of_lt_of_le hlt hid.1)
  · intro j hj
    rw [Store.table, htables, Store.written, ByKind.get_set_of_ne _ _ hj]
    rfl

theorem insert_of_pending (hroom : w.store.Room k checked.accepted.length)
    (hpending : pendingId ∈ (⟨w.store.firstFree k, checked.accepted.length⟩ : IdRange).toList) :
    let run := w.insert o k candidates strict duplicates
    run.outcome = .error (.applyFailed .insert (.rowWithoutId k)) ∧
      run.state.store.tables = w.store.tables := by
  obtain ⟨hnew, hnodup⟩ := newRows_fresh hroom
  rw [← map_id_newRows, ← Row.map_id_toRecord] at hpending
  exact (insert_of_idle h hcheck hsome duplicates).2 _
    (RecordTables.change_ofInserts_of_pending (List.mem_map.1 hpending) hnew hnodup)

end Insert

end Workspace

namespace Store
variable {s : Store} {k : Kind}

/-- Ids are handed out from a negative one on only where all ids of the kind are negative. -/
theorem negative_of_firstFree_le {count : Nat} (hroom : s.Room k count) (hcount : count ≠ 0)
    (h : s.firstFree k ≤ pendingId) :
    s.records k ≠ [] ∧ ∀ i, (s.table k).contains i = true → i < pendingId := by
  have hmax := Int.lt_of_lt_of_le (hroom.maxId_lt_firstFree hcount) h
  constructor
  · intro hnone
    rw [maxId, RecordTables.maxId, Ascending.last?, ← records, hnone] at hmax
    exact Int.lt_irrefl _ hmax
  · exact fun i hi => Int.lt_of_le_of_lt (le_maxId hi) hmax

/-- Whether 64 bits hold the ids of a kind through all writings. -/
def HasRoomToWrite (s : Store) (k : Kind) : List Writing → Prop
  | [] => True
  | x :: writings => x.HasRoom s k ∧ (s.write x).HasRoomToWrite k writings

/-- No row has a negative id. -/
def Counted (s : Store) : Prop := ∀ k i, (s.table k).contains i = true → pendingId ≤ i

theorem counted_empty : Counted .empty := by
  intro k i hi
  cases k <;> cases hi

theorem Counted.pendingId_lt_firstFree (h : s.Counted) {count : Nat} (hroom : s.Room k count)
    (hcount : count ≠ 0) : pendingId < s.firstFree k := by
  apply Int.not_le.1
  intro hle
  obtain ⟨hsome, hnegative⟩ := negative_of_firstFree_le hroom hcount hle
  obtain ⟨r, hr⟩ := List.exists_mem_of_ne_nil _ hsome
  have hthere := Ascending.contains_iff.2 ⟨r, hr, rfl⟩
  exact Int.not_le.2 (hnegative _ hthere) (h k _ hthere)

theorem Idle.write (h : s.Idle) (x : Writing) : (s.write x).Idle := by
  cases x with
  | call o session c =>
    cases c with
    | insert k candidates strict duplicates =>
      exact Workspace.insert_idle h candidates strict duplicates
    | update k changes strict => exact (Workspace.update_writes changes strict).idle h
    | remove roots strict => exact (Workspace.remove_writes roots strict).idle h
    | readd k records => exact (Workspace.readd_writes records).idle h
  | putRaw k r =>
    unfold Store.write
    dsimp only
    cases hput : s.putRaw k r with
    | error f => exact h
    | ok next =>
      simp only [putRaw, bind_eq_ok_iff, pure_eq_ok_iff] at hput
      obtain ⟨_, _, rfl⟩ := hput
      exact ⟨h.free, h.applies, h.claims⟩
  | dropCursor => exact ⟨rfl, h.applies, h.claims⟩

theorem Idle.writeAll (h : s.Idle) (writings : List Writing) : (s.writeAll writings).Idle := by
  induction writings generalizing s with
  | nil => exact h
  | cons x writings ih => exact ih (h.write x)

theorem Counted.take (h : s.Counted) {t : Turn} (ht : t.isChecked = true)
    (hroom : ∀ k, t.HasRoom s k) : (s.take t).Counted := by
  intro j i hi
  obtain hquiet | ⟨k, range, hhands, hheld⟩ := s.take_cases ht
  · exact h j i (hquiet.rows j i hi)
  · obtain hold | ⟨rfl, hnew⟩ := hhands.rows j i hi
    · exact h j i hold
    · have hfirst := ((hhands.fits (hheld (hroom k))).mem_toList.1 hnew).1
      rw [hhands.first] at hfirst
      have hcount := Nat.ne_of_gt hhands.count_pos
      exact Int.le_of_lt
        (Int.lt_of_lt_of_le (h.pendingId_lt_firstFree (hheld (hroom k)) hcount) hfirst)

theorem Counted.readd {w : Workspace} (h : w.store.Counted) {records : List Record}
    (hids : ∀ r ∈ records, pendingId ≤ r.id) : (w.readd k records).state.store.Counted := by
  intro j i hi
  rw [Store.table] at hi
  obtain hsame | ⟨_, _, ⟨rows, _, rfl, _⟩, hchange, _⟩ :=
    (Workspace.readd_writes (w := w) (k := k) records).cases
  · rw [hsame.tables] at hi
    exact h j i hi
  · obtain ⟨_, hnew, hother⟩ := RecordTables.of_change_ofInserts hchange
    by_cases hj : k = j
    · subst hj
      obtain hold | ⟨r, hr, rfl⟩ := (hnew i).1 hi
      · exact h k i hold
      · exact hids r hr
    · rw [hother j hj] at hi
      exact h j i hi

theorem Counted.write (h : s.Counted) {x : Writing} (hx : ∀ i ∈ x.ids, pendingId ≤ i)
    (hroom : ∀ k, x.HasRoom s k) : (s.write x).Counted := by
  cases x with
  | call o session c =>
    cases c with
    | readd k records => exact Counted.readd (w := ⟨s, session⟩) h (List.forall_mem_map.1 hx)
    | insert | update | remove => exact h.take (t := .call o session _) rfl hroom
  | putRaw k r =>
    unfold Store.write
    dsimp only
    cases hput : s.putRaw k r with
    | error f => exact h
    | ok next =>
      simp only [putRaw, bind_eq_ok_iff, pure_eq_ok_iff] at hput
      obtain ⟨_, _, rfl⟩ := hput
      intro j i hi
      change ((s.tables.set k ((s.table k).insert r)).get j).contains i = true at hi
      by_cases hj : k = j
      · subst hj
        rw [ByKind.get_set_self] at hi
        obtain rfl | hold := Ascending.contains_insert.1 hi
        · exact hx _ List.mem_cons_self
        · exact h k i hold
      · rw [ByKind.get_set_of_ne _ _ hj] at hi
        exact h j i hi
  | dropCursor => exact h

theorem Counted.writeAll (h : s.Counted) {writings : List Writing}
    (hids : ∀ x ∈ writings, ∀ i ∈ x.ids, pendingId ≤ i)
    (hroom : ∀ k, s.HasRoomToWrite k writings) : (s.writeAll writings).Counted := by
  induction writings generalizing s with
  | nil => exact h
  | cons x writings ih =>
    rw [List.forall_mem_cons] at hids
    exact ih (h.write hids.1 fun k => (hroom k).1) hids.2 fun k => (hroom k).2

/-- Whatever was written into a store before, through any sessions: an insert of which the check
accepts rows, and for whose ids there is room, is given consecutive ids that no row of the kind has.
The rows come into the table of their kind behind those that are there, unless one of the ids is
that of a pending row. Then the insert fails and no row is written. This happens only where all ids
of the kind are negative, so never in a store into which nobody brings a negative id. -/
theorem insert_writeAll {start : Store} (hstart : start.Idle) (writings : List Writing)
    (o : Options) (session : Session) {k : Kind} {candidates : List Record}
    {strict : Option Bool} {checked : CheckResult k}
    (hcheck : session.snapshot.checkInsert k candidates (strict.getD o.strict) = .ok checked)
    (hsome : checked.accepted ≠ [])
    (hroom : (start.writeAll writings).Room k checked.accepted.length) (duplicates : Bool) :
    let s := start.writeAll writings
    let ids := (⟨s.firstFree k, checked.accepted.length⟩ : IdRange).toList
    let run := (⟨s, session⟩ : Workspace).insert o k candidates strict duplicates
    (∀ i ∈ ids, (s.table k).contains i = false) ∧
      (pendingId ∉ ids → ∃ result, run.outcome = .ok result ∧
        result.items = (numbered k checked.accepted
          ⟨s.firstFree k, checked.accepted.length⟩).map (Row.toRecord k) ∧
        result.items.map Record.id = ids ∧
        run.state.store.records k = s.records k ++ result.items ∧
        ∀ j, k ≠ j → run.state.store.table j = s.table j) ∧
      (pendingId ∈ ids → run.outcome = .error (.applyFailed .insert (.rowWithoutId k)) ∧
        run.state.store.tables = s.tables ∧
        s.records k ≠ [] ∧ ∀ i, (s.table k).contains i = true → i < pendingId) ∧
      (start.Counted → (∀ x ∈ writings, ∀ i ∈ x.ids, pendingId ≤ i) →
        (∀ j, start.HasRoomToWrite j writings) → pendingId ∉ ids) := by
  intro s ids run
  have hidle : s.Idle := hstart.writeAll writings
  have hcount : checked.accepted.length ≠ 0 := mt List.length_eq_zero_iff.1 hsome
  refine ⟨fun i hi => ?_, fun hpending => ?_, fun hpending => ?_, fun hcounted hids hbefore => ?_⟩
  · rw [← Bool.not_eq_true]
    intro hthere
    exact Int.not_le.2 (hroom.lt_firstFree_of_contains hcount hthere) (hroom.mem_toList.1 hi).1
  · obtain ⟨result, houtcome, hitems, hrecords, hother⟩ :=
      Workspace.insert_of_positive (w := ⟨s, session⟩) (o := o) hidle hcheck hsome duplicates hroom
        hpending
    refine ⟨result, houtcome, hitems, ?_, hitems ▸ hrecords, hother⟩
    rw [hitems, Row.map_id_toRecord]
    exact Workspace.map_id_newRows ⟨s, session⟩ checked.accepted
  · obtain ⟨houtcome, htables⟩ :=
      Workspace.insert_of_pending (w := ⟨s, session⟩) (o := o) hidle hcheck hsome duplicates hroom
        hpending
    have hle := (hroom.mem_toList.1 hpending).1
    exact ⟨houtcome, htables, negative_of_firstFree_le hroom hcount hle⟩
  · intro hpending
    have hpositive := (hcounted.writeAll hids hbefore).pendingId_lt_firstFree hroom hcount
    exact Int.not_le.2 hpositive (hroom.mem_toList.1 hpending).1

/-- An alternative that is put past every check, under the given id. -/
def baseUnder (i : Id) : Writing :=
  .putRaw .alternative (.ofFields [("id", some (.int i)), ("name", some (.text "Base"))])

/-- The session that is opened then. -/
def sessionUnder (i : Id) : Session :=
  ⟨Snapshot.empty.putRows .alternative [⟨i, "Base", none⟩], ∅, ∅⟩

def lowAndHigh : List Record :=
  [.ofFields [("name", some (.text "low"))], .ofFields [("name", some (.text "high"))]]

/-- Two new rows get the next ids above one that was written from outside. -/
theorem insert_baseUnder_three :
    let s := Store.empty.writeAll [baseUnder 3]
    let run := (⟨s, sessionUnder 3⟩ : Workspace).insert {} .alternative lowAndHigh none false
    Session.open s = .ok (sessionUnder 3) ∧ ∃ result, run.outcome = .ok result ∧
      result.items.map Record.id = [4, 5] ∧
      run.state.store.records .alternative = s.records .alternative ++ result.items := by
  dsimp only
  have hcheck : (sessionUnder 3).snapshot.checkInsert .alternative lowAndHigh
      (Option.getD none ({} : Options).strict) =
      .ok ⟨[⟨pendingId, "low", none⟩, ⟨pendingId, "high", none⟩], [], ∅⟩ := by
    cbv
  obtain ⟨_, hfits, _, hpositive⟩ :=
    insert_writeAll idle_empty [baseUnder 3] {} (sessionUnder 3) hcheck (by simp)
      (fun _ => by decide) false
  have hnonnegative : ∀ x ∈ [baseUnder 3], ∀ i ∈ x.ids, pendingId ≤ i := by decide
  obtain ⟨result, houtcome, _, hids, hrecords, _⟩ := hfits
    (hpositive counted_empty hnonnegative fun _ => ⟨trivial, trivial⟩)
  refine ⟨by cbv, result, houtcome, ?_, hrecords⟩
  rw [hids]
  rfl

/-- Above the id -1 comes that of a pending row, which the store takes for a missing id. -/
theorem insert_baseUnder_neg_fails :
    let s := Store.empty.writeAll [baseUnder (-1)]
    let run := (⟨s, sessionUnder (-1)⟩ : Workspace).insert {} .alternative (lowAndHigh.take 1) none
      false
    s.Idle ∧ Session.open s = .ok (sessionUnder (-1)) ∧
      (sessionUnder (-1)).snapshot.checkInsert .alternative (lowAndHigh.take 1) false =
        .ok ⟨[⟨pendingId, "low", none⟩], [], ∅⟩ ∧
      run.outcome = .error (.applyFailed .insert (.rowWithoutId .alternative)) := by
  intro s run
  have hcheck : (sessionUnder (-1)).snapshot.checkInsert .alternative (lowAndHigh.take 1)
      (Option.getD none ({} : Options).strict) = .ok ⟨[⟨pendingId, "low", none⟩], [], ∅⟩ := by
    cbv
  have hidle : s.Idle := idle_empty.writeAll _
  have hpending : pendingId ∈ (⟨s.firstFree .alternative, 1⟩ : IdRange).toList :=
    List.mem_singleton.2 rfl
  exact ⟨hidle, by cbv, hcheck,
    (Workspace.insert_of_pending (w := ⟨s, sessionUnder (-1)⟩) hidle hcheck (by simp) false
      (fun _ => by decide) hpending).1⟩

end Store

end EntityStore
