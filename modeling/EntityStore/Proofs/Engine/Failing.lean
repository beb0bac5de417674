import EntityStore.Proofs.Engine.Writing
import EntityStore.Proofs.Invariant.Resolved
/-!
# Calls that fail

A call that fails leaves the rows, the apply count and the cursor of the store and the whole session
as they were. The one exception is an insert whose changes the store refuses: by then ids were
handed out, and these are lost (`Workspace.Burns`). A refresh that fails leaves everything as it
was.
-/
namespace EntityStore

theorem Run.outcome_map_eq_error {σ α β : Type} {r : Run σ α} {g : α → β} {f : Failure} :
    (r.map g).outcome = .error f ↔ r.outcome = .error f := by
  rcases r with ⟨_ | _, _, _⟩ <;> simp [Run.map, Except.map]

namespace Workspace
variable {o : Options} {w w' : Workspace} {k : Kind} {f : Failure}

/-- Nothing but the failures that are set up differs between two workspaces. -/
structure Untouched (w w' : Workspace) : Prop where
  store : w.store.Untouched w'.store
  session : w'.session = w.session

/-- Ids of a kind were handed out and nothing else happened. They are above those in the table and
move the kind's next id on, while 64 bits hold them. The claim that this takes is not held any
more. -/
structure Burns (w : Workspace) (k : Kind) (range : IdRange) (w' : Workspace) : Prop where
  tables : w'.store.tables = w.store.tables
  applyCount : w'.store.applyCount = w.store.applyCount
  session : w'.session = w.session
  free : w.store.claimed = false
  released : w'.store.claimed = false
  cursor : w'.store.cursor = some ⟨"", w.store.nextIds.set k range.stop⟩
  moved : w.store.Room k range.count → ∀ n, w.store.nextIds.get? k = some n → n < range.stop
  unseen : w.store.Room k range.count →
    ∀ i, (w.store.table k).contains i = true → i < range.first
  count_pos : 0 < range.count

/-- What a call that fails on `w` leaves behind. -/
inductive Spared (o : Options) (w : Workspace) : Call → Failure → Workspace → Prop where
  | untouched {c : Call} {f : Failure} {w' : Workspace} (applies : ∀ g, f ≠ .applyFailed .insert g)
      (same : w.Untouched w') : Spared o w c f w'
  | burnt {k : Kind} {candidates : List Record} {strict : Option Bool} {duplicates : Bool}
      {g : StorageFault} {checked : CheckResult k} {range : IdRange} {w' : Workspace}
      (check : w.session.snapshot.checkInsert k candidates (strict.getD o.strict) = .ok checked)
      (range_eq : range = ⟨w.store.firstFree k, checked.accepted.length⟩)
      (burns : w.Burns k range w') :
    Spared o w (.insert k candidates strict duplicates) (.applyFailed .insert g) w'

theorem Writes.untouched {α : Type} {op : Operation} {C : ChangeSet → Session → Prop}
    {r : Run Workspace α} (h : Writes w op C r) (hop : op ≠ .insert) (hf : r.outcome = .error f) :
    w.Untouched r.state ∧ ∀ g, f ≠ .applyFailed .insert g := by
  cases h with
  | stopped log happlies =>
    obtain rfl := Except.error.inj hf
    exact ⟨⟨.refl w.store, rfl⟩, happlies .insert⟩
  | nothing result log => cases hf
  | @committed c session _ result before after =>
    obtain ⟨g, houtcome, hstore, hsession⟩ | ⟨houtcome, _⟩ :=
      w.commit_outcome op c session result after
    · rw [Run.outcome_after, houtcome] at hf
      obtain rfl := Except.error.inj hf
      exact ⟨⟨hstore, hsession⟩, by simp [hop]⟩
    · rw [Run.outcome_after, houtcome] at hf
      cases hf

theorem Writes.spared {α : Type} {op : Operation} {C : ChangeSet → Session → Prop}
    {r : Run Workspace α} (h : Writes w op C r) (hop : op ≠ .insert) {g : α → Reply} {c : Call}
    (hf : (r.map g).outcome = .error f) : Spared o w c f (r.map g).state := by
  obtain ⟨hsame, happlies⟩ := h.untouched hop (Run.outcome_map_eq_error.1 hf)
  exact .untouched happlies hsame

/-- Of the ids that were handed out before the store refused the rows, only the kind's next id keeps
a trace. -/
theorem burns_of_untouched {count : Nat} (hcount : 0 < count) (hfree : w.store.claimed = false)
    (hstore : (w.store.advanced k (IdRange.stop ⟨w.store.firstFree k, count⟩)).Untouched w'.store)
    (hsession : w'.session = w.session) : w.Burns k ⟨w.store.firstFree k, count⟩ w' where
  tables := hstore.tables
  applyCount := hstore.applyCount
  session := hsession
  free := hfree
  released := hstore.claimed
  cursor := hstore.cursor
  moved hroom n hn := by
    have hfits : IdRange.Fits ⟨w.store.firstFree k, count⟩ := hroom.fits (Nat.ne_of_gt hcount)
    exact Int.lt_of_le_of_lt (Store.le_firstFree hn) (hfits.first_lt_stop hcount)
  unseen hroom i hi := hroom.lt_firstFree_of_contains (Nat.ne_of_gt hcount) hi
  count_pos := hcount

theorem insert_spared {candidates : List Record} {strict : Option Bool} {duplicates : Bool}
    (hf : (w.insert o k candidates strict duplicates).outcome = .error f) :
    Spared o w (.insert k candidates strict duplicates) f
      (w.insert o k candidates strict duplicates).state := by
  have hinserts := insert_inserts (o := o) (w := w) (k := k) candidates strict duplicates
  generalize w.insert o k candidates strict duplicates = r at hf hinserts ⊢
  cases hinserts with
  | stopped happlies =>
    obtain rfl := Except.error.inj hf
    exact .untouched (happlies .insert) ⟨.refl w.store, rfl⟩
  | nothing log _ => cases hf
  | refused log hstore =>
    obtain rfl := Except.error.inj hf
    exact .untouched (by simp) ⟨hstore, rfl⟩
  | @reserved checked range hcheck hrange hcount hfree rows _ ids _ after =>
    subst hrange
    rw [Run.outcome_after] at hf
    obtain ⟨g, houtcome, hstore, hsession⟩ | ⟨houtcome, _⟩ :=
      commit_outcome { w with store := w.store.advanced k (IdRange.stop _) } .insert
        (.ofInserts k (rows.map (Row.toRecord k))) (w.session.addRows k (rows.map (Row.stored k)))
        (⟨rows.map (Row.toRecord k), ids, checked.rejected⟩ : MutationResult) after
    · rw [houtcome] at hf
      obtain rfl := Except.error.inj hf
      exact .burnt hcheck rfl (burns_of_untouched hcount hfree hstore hsession)
    · rw [houtcome] at hf
      cases hf

/-- A call that fails changes nothing, but for the ids that an insert had handed out when the store
refused its rows; a refresh that fails changes nothing. -/
theorem perform_spares (o : Options) (w : Workspace) :
    (∀ c f, (w.perform o c).outcome = .error f → Spared o w c f (w.perform o c).state) ∧
      ∀ f, w.refresh.outcome = .error f → w.refresh.state = w := by
  constructor
  · intro c f hf
    cases c with
    | insert k candidates strict duplicates =>
      exact insert_spared (Run.outcome_map_eq_error.1 hf)
    | update k changes strict => exact (update_writes changes strict).spared (by simp) hf
    | remove roots strict => exact (remove_writes roots strict).spared (by simp) hf
    | readd k records => exact (readd_writes records).spared (by simp) hf
  · intro f hf
    unfold refresh at hf ⊢
    dsimp only at hf ⊢
    split
    next => rfl
    next session hsession =>
      rw [hsession] at hf
      cases hf

/-- A refused insert over a store that is to fail, an update in strict mode of a class that does not
exist, and a refresh from a store that holds a class without a name. -/
theorem perform_pipes_spares :
    let broken : Workspace := ⟨{ pipes with applyFails := true }, pipesSession⟩
    let call : Call := .insert .entityClass [.ofFields [("name", some (.text "valve"))]] none false
    let missing : Call := .update .entityClass [.ofFields [("id", some (.int 9))]] (some true)
    let nameless : Workspace :=
      ⟨(pipes.putRaw .entityClass (.ofFields [("id", some (.int 7))])).toOption.getD pipes,
        pipesSession⟩
    Spared {} broken call (.applyFailed .insert .injected) (broken.perform {} call).state ∧
      Spared {} ⟨pipes, pipesSession⟩ missing
        (.rejected (⟨.entityClass, .update, some 9, .unknownId .entityClass 9⟩ : Rejection).issue)
        ((⟨pipes, pipesSession⟩ : Workspace).perform {} missing).state ∧
      nameless.refresh.state = nameless := by
  intro broken call missing nameless
  exact ⟨(perform_spares {} broken).1 call _ rfl,
    (perform_spares {} ⟨pipes, pipesSession⟩).1 missing _ rfl,
    (perform_spares {} nameless).2 (.storage (.malformedRow .entityClass _)) rfl⟩

end Workspace

end EntityStore
