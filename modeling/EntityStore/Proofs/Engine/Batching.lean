import EntityStore.Engine.Each
import EntityStore.Proofs.Engine.Ready
import EntityStore.Proofs.Invariant.Methods
/-!
# Batches and single calls

A lenient batch does what its items do in calls of their own. One item can be called before the rest
of its batch (`Ready.insert_cons`, `Ready.update_cons`): the rest is checked as it would be within
the batch, and what it writes comes to stand behind what the item wrote. So the items can be called
one by one (`each_insert`, `each_update`), and the store tells the two apart by its count of the
applies alone. Where the ids run out of their 64 bits a batch of inserts can fail and still have
single calls that do not (`batch_ne_singles_utmost`).
-/
namespace EntityStore

/-- Whether candidates of the same batch count as stored makes no difference beside their ids. -/
theorem ids_eq_of_follows {k : Kind} {rows : List (Row k)}
    {as bs : List (Except Rejection (Row k))}
    (h : List.Forall₂ (Follows (rows.map (Row.id k))) as bs)
    (first : List (Except Rejection (Row k))) (others : List (Row k)) (report : Bool) :
    let dups (answers : List (Except Rejection (Row k))) : IdSet :=
      if report then (CheckResult.ofOutcomes answers).duplicateIds else ∅
    (dups (first ++ as)).union (idsOf k (rows ++ others)) =
      ((dups first).union (idsOf k rows)).union ((dups bs).union (idsOf k others)) := by
  intro dups
  apply IdSet.ext_contains
  intro i
  have hdup := duplicateIds_of_follows h i
  cases report with
  | false => simp [dups, idsOf_append]
  | true =>
    rw [Bool.eq_iff_iff]
    simp only [dups, if_true, idsOf, List.map_append, CheckResult.duplicateIds_append,
      IdSet.contains_union, IdSet.contains_ofIds, Bool.or_eq_true, decide_eq_true_eq,
      List.mem_append]
    tauto

namespace Workspace
variable {o : Options} {w : Workspace} {k : Kind} {strict : Option Bool}

theorem length_newRows (w : Workspace) (rows : List (Row k)) :
    (w.newRows k rows).length = rows.length := by
  have hids := congrArg List.length (w.map_id_newRows rows)
  rwa [List.length_map, IdRange.length_toList] at hids

theorem Ready.exists_newRows_eq (h : w.Ready) {rows : List (Row k)} (hone : rows.length ≤ 1)
    (hroom : w.store.Room k rows.length) :
    ∃ i, i ≠ pendingId ∧ (w.session.snapshot.table k).find? i = none ∧
      w.newRows k rows = rows.map (Row.withId k i) := by
  have hunknown {i : Id} (hi : w.store.maxId k < i) :
      (w.session.snapshot.table k).find? i = none := by
    rw [← Option.not_isSome_iff_eq_none]
    intro hthere
    exact Int.not_le.2 hi (Store.le_maxId (h.inStep.covers k _ hthere))
  have hmax := Store.pendingId_le_maxId (h.positive k)
  match rows, hone with
  | [], _ =>
    have hi : w.store.maxId k < w.store.maxId k + 1 := Int.lt_succ _
    exact ⟨_, Int.ne_of_gt (Int.lt_of_le_of_lt hmax hi), hunknown hi, rfl⟩
  | [row], _ =>
    have hi := hroom.maxId_lt_firstFree Nat.one_ne_zero
    have hfirst := (hroom.fits Nat.one_ne_zero).wrap_add (Nat.zero_le 1)
    refine ⟨_, Int.ne_of_gt (Int.lt_of_le_of_lt hmax hi), hunknown hi, ?_⟩
    rw [newRows, numbered]
    simpa [IdRange.toList] using congrArg (Row.withId k · row) hfirst

theorem applyCount_inserted {rows : List (Row k)} (h : rows.length ≤ 1) :
    (w.inserted k rows).store.applyCount = w.store.applyCount + rows.length := by
  match rows, h with
  | [], _ => rfl
  | [row], _ => rfl

theorem applyCount_updated {rows : List (Row k)} (h : rows.length ≤ 1) :
    (w.updated k rows).store.applyCount = w.store.applyCount + rows.length := by
  match rows, h with
  | [], _ => rfl
  | [row], _ => rfl

section Insert
variable (hclass : k ≠ .entityClass) (hentity : k ≠ .entity)
include hclass hentity

/-- After a call for the first candidate the others are answered as within the batch. -/
theorem Ready.insertAnswers_cons (h : w.Ready) {candidate : Record}
    (hroom : w.HasRoom k [candidate]) (candidates : List Record) :
    let s := w.session.snapshot
    let rows := Batch.accepted (s.insertAnswers k [candidate])
    ∃ rest, s.insertAnswers k (candidate :: candidates) = s.insertAnswers k [candidate] ++ rest ∧
      List.Forall₂ (Follows ((w.newRows k rows).map (Row.id k))) rest
        ((w.inserted k rows).session.snapshot.insertAnswers k candidates) := by
  intro s rows
  have hone : rows.length ≤ 1 := Batch.length_accepted_outcomes_singleton _ _ _
  obtain ⟨i, hpending, hfree, hrows⟩ := h.exists_newRows_eq hone hroom
  have hrest := EntityStore.insertAnswers_cons hclass hentity (h.keysDiffer k) hpending hfree
    candidate candidates
  rw [snapshot_inserted, Snapshot.putRows_eq_withTable, hrows]
  simpa [rows, s, Function.comp_def] using hrest

theorem Ready.hasRoom_cons (h : w.Ready) {candidate : Record} {candidates : List Record}
    (hroom : w.HasRoom k (candidate :: candidates)) :
    w.HasRoom k [candidate] ∧
      (w.inserted k (Batch.accepted (w.session.snapshot.insertAnswers k [candidate]))).HasRoom k
        candidates := by
  have hfirst : w.HasRoom k [candidate] := by
    refine hroom.mono ?_
    rw [Snapshot.insertAnswers, Snapshot.insertAnswers, Batch.accepted_outcomes_cons,
      Batch.accepted_outcomes_cons, List.length_append, List.length_append]
    exact Nat.add_le_add_left (Nat.zero_le _) _
  rcases h.insertAnswers_cons hclass hentity hfirst candidates with ⟨answers, hbatch, hrest⟩
  refine ⟨hfirst, ?_⟩
  rw [HasRoom, hbatch, Batch.accepted_append, accepted_eq_of_follows hrest] at hroom
  exact h.room_inserted _ _ hroom

/-- A batch of candidates can be inserted in two calls, of which the first has one candidate. -/
theorem Ready.insert_cons (h : w.Ready) (hlenient : strict.getD o.strict = false)
    {candidate : Record} {candidates : List Record}
    (hroom : w.HasRoom k (candidate :: candidates)) (report : Bool) :
    let first := w.insert o k [candidate] strict report
    let rest := first.state.insert o k candidates strict report
    let batch := w.insert o k (candidate :: candidates) strict report
    ∃ a b result, first.outcome = .ok a ∧ rest.outcome = .ok b ∧ batch.outcome = .ok result ∧
      result.items = a.items ++ b.items ∧ result.ids = a.ids.union b.ids ∧
      first.state.Ready ∧ first.state.HasRoom k candidates ∧
      first.state.store.applyCount = w.store.applyCount + a.items.length ∧
      ∀ n, rest.state.counting n = batch.state.counting n := by
  intro first rest batch
  obtain ⟨hroomFirst, hroomRest⟩ := h.hasRoom_cons hclass hentity hroom
  rcases h.insertAnswers_cons hclass hentity hroomFirst candidates with ⟨answers, hbatch, hrest⟩
  have hready : first.state.Ready := h.insert hlenient hroomFirst report
  obtain ⟨hfirst, hstate⟩ : first.outcome = _ ∧ first.state = _ :=
    h.insert_eq hlenient hroomFirst report
  rw [← hstate] at hrest hroomRest
  obtain ⟨hsecond, hend⟩ : rest.outcome = _ ∧ rest.state = _ :=
    hready.insert_eq hlenient hroomRest report
  obtain ⟨hwhole, hlast⟩ : batch.outcome = _ ∧ batch.state = _ :=
    h.insert_eq hlenient hroom report
  have hone : (Batch.accepted (w.session.snapshot.insertAnswers k [candidate])).length ≤ 1 :=
    Batch.length_accepted_outcomes_singleton _ _ _
  have haccepted := accepted_eq_of_follows hrest
  rw [HasRoom, hbatch, Batch.accepted_append, haccepted] at hroom
  rw [hbatch, Batch.accepted_append, haccepted] at hlast
  rw [hbatch, Batch.accepted_append, haccepted, h.newRows_append _ _ hroom, ← hstate] at hwhole
  refine ⟨_, _, _, hfirst, hsecond, hwhole, List.map_append,
    ids_eq_of_follows hrest _ _ report, hready, hroomRest, ?_, fun n => ?_⟩
  · rw [hstate, applyCount_inserted hone, List.length_map, length_newRows]
  · rw [hend, hlast, ← h.inserted_append _ _ hroom, ← hstate]

theorem Ready.each_insert (h : w.Ready) (hlenient : strict.getD o.strict = false)
    {candidates : List Record} (hroom : w.HasRoom k candidates) (report : Bool) :
    let batch := w.insert o k candidates strict report
    let singles := Run.each (fun w candidate => w.insert o k [candidate] strict report) w candidates
    ∃ result results, batch.outcome = .ok result ∧ singles.outcome = .ok results ∧
      (MutationResult.total results).items = result.items ∧
      (MutationResult.total results).ids = result.ids ∧
      singles.state = batch.state.counting (w.store.applyCount + result.items.length) := by
  dsimp only
  induction candidates generalizing w with
  | nil =>
    obtain ⟨houtcome, hstate⟩ := h.insert_eq (o := o) hlenient hroom report
    refine ⟨_, [], houtcome, rfl, rfl, ?_, ?_⟩
    · cases report <;> rfl
    · rw [hstate]
      rfl
  | cons candidate candidates ih =>
    obtain ⟨a, b, result, hfirst, hrest, hbatch, hitems, hids, hready, hroomRest, hcount, hstate⟩ :=
      h.insert_cons hclass hentity hlenient hroom report
    obtain ⟨b', results, hb, hresults, hsameItems, hsameIds, hend⟩ := ih hready hroomRest
    obtain rfl := Except.ok.inj (hrest.symm.trans hb)
    refine ⟨result, a :: results, hbatch, Run.outcome_each_cons hfirst hresults, ?_, ?_, ?_⟩
    · rw [MutationResult.total, hsameItems, hitems]
    · rw [MutationResult.total, hsameIds, hids]
    · rw [Run.state_each_cons hfirst, hend, hstate, hcount, hitems, List.length_append,
        Nat.add_assoc]

end Insert

section Update
variable (hclass : k ≠ .entityClass) (hentity : k ≠ .entity) (hvalue : k ≠ .listValue)
include hclass hentity hvalue

/-- A batch of updates can be made in two calls, of which the first has one update. -/
theorem Ready.update_cons (h : w.Ready) (hlenient : strict.getD o.strict = false)
    (item : Record) (changes : List Record) :
    let first := w.update o k [item] strict
    let rest := first.state.update o k changes strict
    let batch := w.update o k (item :: changes) strict
    ∃ a b, first.outcome = .ok a ∧ rest.outcome = .ok b ∧
      batch.outcome = .ok ⟨a.items ++ b.items, a.ids.union b.ids, a.rejected ++ b.rejected⟩ ∧
      first.state.store.applyCount = w.store.applyCount + a.items.length ∧
      ∀ n, rest.state.counting n = batch.state.counting n := by
  intro first rest batch
  have hready : first.state.Ready := h.update hlenient [item]
  obtain ⟨hfirst, hstate⟩ : first.outcome = _ ∧ first.state = _ := h.update_eq hlenient [item]
  obtain ⟨hsecond, hend⟩ : rest.outcome = _ ∧ rest.state = _ := hready.update_eq hlenient changes
  obtain ⟨hwhole, hlast⟩ : batch.outcome = _ ∧ batch.state = _ :=
    h.update_eq hlenient (item :: changes)
  have hone : (Batch.accepted (w.session.snapshot.updateAnswers k [item])).length ≤ 1 :=
    Batch.length_accepted_outcomes_singleton _ _ _
  have hbatch := updateAnswers_cons hclass hentity hvalue (h.keysDiffer k) item changes
  dsimp only at hbatch
  rw [← Snapshot.putRows_eq_withTable, ← snapshot_updated, ← hstate] at hbatch
  rw [hbatch, Batch.accepted_append] at hlast
  rw [hbatch, Batch.accepted_append, Batch.refused_append, List.map_append, idsOf_append] at hwhole
  refine ⟨_, _, hfirst, hsecond, hwhole, ?_, fun n => ?_⟩
  · rw [hstate, applyCount_updated hone, List.length_map]
  · rw [hend, hlast, ← updated_append, ← hstate]

theorem Ready.each_update (h : w.Ready) (hlenient : strict.getD o.strict = false)
    (changes : List Record) :
    let batch := w.update o k changes strict
    let singles := Run.each (fun w item => w.update o k [item] strict) w changes
    ∃ result results, batch.outcome = .ok result ∧ singles.outcome = .ok results ∧
      MutationResult.total results = result ∧
      singles.state = batch.state.counting (w.store.applyCount + result.items.length) := by
  dsimp only
  induction changes generalizing w with
  | nil =>
    obtain ⟨houtcome, hstate⟩ := h.update_eq (o := o) (k := k) hlenient []
    refine ⟨_, [], houtcome, rfl, rfl, ?_⟩
    rw [hstate]
    rfl
  | cons item changes ih =>
    obtain ⟨a, b, hfirst, hrest, hbatch, hcount, hstate⟩ :=
      h.update_cons hclass hentity hvalue hlenient item changes
    obtain ⟨b', results, hb, hresults, hsame, hend⟩ := ih (h.update hlenient [item])
    obtain rfl := Except.ok.inj (hrest.symm.trans hb)
    refine ⟨_, a :: results, hbatch, Run.outcome_each_cons hfirst hresults, ?_, ?_⟩
    · rw [MutationResult.total, hsame]
    · rw [Run.state_each_cons hfirst, hend, hstate, hcount, List.length_append, Nat.add_assoc]

end Update

/-- A lenient batch of inserts for whose ids there is room leaves the store and the session that its
candidates leave when they are inserted one at a time, but for the number of applies, and has their
rows and ids in order. A lenient batch of updates does too, and has the rejections of its items as
well. -/
theorem batch_eq_singles (o : Options) (h : w.Ready) (hclass : k ≠ .entityClass)
    (hentity : k ≠ .entity) (hlenient : strict.getD o.strict = false) :
    (∀ candidates report, w.HasRoom k candidates →
      let batch := w.insert o k candidates strict report
      let singles :=
        Run.each (fun w candidate => w.insert o k [candidate] strict report) w candidates
      ∃ result results, batch.outcome = .ok result ∧ singles.outcome = .ok results ∧
        (MutationResult.total results).items = result.items ∧
        (MutationResult.total results).ids = result.ids ∧
        singles.state = batch.state.counting (w.store.applyCount + result.items.length)) ∧
    (k ≠ .listValue → ∀ changes,
      let batch := w.update o k changes strict
      let singles := Run.each (fun w item => w.update o k [item] strict) w changes
      ∃ result results, batch.outcome = .ok result ∧ singles.outcome = .ok results ∧
        MutationResult.total results = result ∧
        singles.state = batch.state.counting (w.store.applyCount + result.items.length)) :=
  ⟨fun _ report hroom => h.each_insert hclass hentity hlenient hroom report,
    fun hvalue => h.each_update hclass hentity hvalue hlenient⟩

theorem ready_of_open {store : Store} {session : Session}
    (hopen : Session.open store = .ok session) (hkeys : session.snapshot.KeysDiffer)
    (hpositive : ∀ k ∈ Kind.all, ∀ r ∈ (store.table k).toList, pendingId < r.id)
    (hidle : store.claimed = false ∧ store.applyFails = false ∧ store.claimFails = false) :
    Ready ⟨store, session⟩ where
  inStep := inStep_of_open hopen
  positive := by
    intro k i hi
    rcases Ascending.contains_iff.1 hi with ⟨r, hr, rfl⟩
    exact hpositive k (Kind.mem_all k) r hr
  keysDiffer := hkeys
  free := hidle.1
  applies := hidle.2.1
  claims := hidle.2.2

theorem ready_pumps : Ready ⟨pumps, pumpsSession⟩ :=
  ready_of_open open_pumps keysDiffer_pumps (by decide) ⟨rfl, rfl, rfl⟩

/-- Tools with a name that is taken and one that is given twice, and a tool that is renamed before
and after an update of a tool that does not exist. -/
theorem batch_eq_singles_pumps :
    let w : Workspace := ⟨pumps, pumpsSession⟩
    let tools := ["mixer", "solver", "mixer", "valve"].map fun name =>
      Record.ofFields [("name", some (.text name))]
    let names := [((1 : Id), "mixer"), (2, "valve"), (1, "solver")].map fun (i, name) =>
      Record.ofFields [("id", some (.int i)), ("name", some (.text name))]
    let inserts := Run.each (fun w tool => w.insert {} .tool [tool] none true) w tools
    let updates := Run.each (fun w item => w.update {} .tool [item] none) w names
    w.Ready ∧
      (Batch.accepted (w.session.snapshot.insertAnswers .tool tools)).length = 2 ∧
      (∃ result results, (w.insert {} .tool tools none true).outcome = .ok result ∧
        inserts.outcome = .ok results ∧
        (MutationResult.total results).items = result.items ∧
        (MutationResult.total results).ids = result.ids ∧
        inserts.state = (w.insert {} .tool tools none true).state.counting
          (pumps.applyCount + result.items.length)) ∧
      (Batch.accepted (w.session.snapshot.updateAnswers .tool names)).length = 2 ∧
      ∃ result results, (w.update {} .tool names none).outcome = .ok result ∧
        updates.outcome = .ok results ∧ MutationResult.total results = result ∧
        updates.state = (w.update {} .tool names none).state.counting
          (pumps.applyCount + result.items.length) := by
  intro w tools names inserts updates
  have hlenient : (none : Option Bool).getD ({} : Options).strict = false := rfl
  have hsame := batch_eq_singles (k := .tool) {} ready_pumps (by decide) (by decide) hlenient
  have hcount : (Batch.accepted (w.session.snapshot.insertAnswers .tool tools)).length = 2 := by cbv
  have hroom : w.HasRoom .tool tools := by
    rw [HasRoom, hcount]
    exact fun _ => by decide
  exact ⟨ready_pumps, hcount, hsame.1 tools true hroom, by cbv, hsame.2 (by decide) names⟩

/-- Tools under the last id and under one that the cursor comes to after the next. -/
def utmost : Store :=
  { Store.empty.seed .tool [⟨6, "mixer", none⟩, ⟨Int64.maxValue.toInt, "solver", none⟩] with
    cursor := some ⟨"", (∅ : SortedMap Kind Id).set .tool 5⟩ }

def utmostSession : Session where
  snapshot := Snapshot.empty.putRows .tool
    [⟨6, "mixer", none⟩, ⟨Int64.maxValue.toInt, "solver", none⟩]
  added := ∅
  removed := ∅

theorem open_utmost : Session.open utmost = .ok utmostSession := by
  simp only [utmost, utmostSession, Int64.toInt_maxValue, Int.reducePow, Int.reduceSub]
  cbv

def valveAndPump : List Record :=
  [.ofFields [("name", some (.text "valve"))], .ofFields [("name", some (.text "pump"))]]

/-- With no id left behind the last one, a cursor is not brought up to the rows. A batch then fails
as a whole for an id that is taken, and the first of the single calls is through before one does. -/
theorem batch_ne_singles_utmost :
    let w : Workspace := ⟨utmost, utmostSession⟩
    let batch := w.insert {} .tool valveAndPump none false
    let singles := Run.each (fun w tool => w.insert {} .tool [tool] none false) w valveAndPump
    w.Ready ∧ batch.outcome = .error (.applyFailed .insert (.duplicateId .tool 6)) ∧
      (batch.state.store.table .tool).contains 5 = false ∧
      (singles.state.store.table .tool).contains 5 = true :=
  ⟨ready_of_open open_utmost (by decide) (by decide) ⟨rfl, rfl, rfl⟩, rfl, rfl,
    by decide +kernel⟩

end Workspace

end EntityStore
