import EntityStore.Engine.Turns
import EntityStore.Proofs.Engine.Writing
import EntityStore.Proofs.Invariant.Resolved
import Mathlib.Data.List.Infix
/-!
# Which ids are handed out again

While 64 bits hold the ids that are handed out (`Store.HasRoom`), the next ids on record never fall,
and handing out ids of a kind moves its next id past every row that is there. So an id that a row
had is handed out again only if the row was seeded, the cursor was never past it, and it was gone,
with all rows above it, whenever ids of its kind were handed out (`Store.Forgotten`). Any other row
that was removed can be put back under its id.
-/
namespace EntityStore

/-- Whether a run of an insert of kind `k` gave an id to a row. -/
def Run.Assigns (r : Run Workspace MutationResult) (k j : Kind) (i : Id) : Prop :=
  k = j ∧ ∃ result, r.outcome = .ok result ∧ i ∈ result.items.map Record.id

/-- Whether a turn gives an id to a row of the kind. -/
def Turn.Assigns (s : Store) (t : Turn) (j : Kind) (i : Id) : Prop :=
  match t with
  | .call o session (.insert k candidates strict duplicates) =>
    ((⟨s, session⟩ : Workspace).insert o k candidates strict duplicates).Assigns k j i
  | _ => False

/-- Whether 64 bits hold the ids of the kind that a call hands out, and the one after them. -/
def Call.HasRoom (o : Options) (w : Workspace) (k : Kind) : Call → Prop
  | .insert j candidates strict _ =>
    j = k → ∀ checked,
      w.session.snapshot.checkInsert j candidates (strict.getD o.strict) = .ok checked →
        w.store.Room j checked.accepted.length
  | _ => True

def Turn.HasRoom (s : Store) (k : Kind) : Turn → Prop
  | .call o session c => c.HasRoom o ⟨s, session⟩ k
  | .setUp _ _ => True

namespace Store
variable {s s' : Store} {assigned : Kind → Id → Prop}

/-- Whether 64 bits hold the ids of a kind throughout. -/
def HasRoom (s : Store) (k : Kind) : List Turn → Prop
  | [] => True
  | t :: turns => t.HasRoom s k ∧ (s.take t).HasRoom k turns

theorem hasRoom_append {k : Kind} {first second : List Turn} :
    s.HasRoom k (first ++ second) ↔ s.HasRoom k first ∧ (s.play first).HasRoom k second := by
  induction first generalizing s with
  | nil => simp [HasRoom, play]
  | cons t first ih => simp [HasRoom, ih, play, and_assoc]

theorem HasRoom.of_prefix {k : Kind} {first turns : List Turn} (h : s.HasRoom k turns)
    (hfirst : first <+: turns) : s.HasRoom k first := by
  obtain ⟨rest, rfl⟩ := hfirst
  exact (hasRoom_append.1 h).1

/-- From `s` to `s'` no ids were handed out and no row was added. -/
structure Quiet (s s' : Store) (assigned : Kind → Id → Prop) : Prop where
  nextIds : s'.nextIds = s.nextIds
  rows : ∀ j i, (s'.table j).contains i = true → (s.table j).contains i = true
  assigns : ∀ j i, ¬ assigned j i

/-- From `s` to `s'` the ids of a range were handed out, to rows or in vain. -/
structure HandsOut (s s' : Store) (assigned : Kind → Id → Prop) (k : Kind) (range : IdRange) :
    Prop where
  first : range.first = s.firstFree k
  count_pos : 0 < range.count
  nextIds : s'.nextIds = s.nextIds.set k range.stop
  rows : ∀ j i, (s'.table j).contains i = true →
    (s.table j).contains i = true ∨ k = j ∧ i ∈ range.toList
  assigns : ∀ j i, assigned j i → k = j ∧ i ∈ range.toList

theorem Untouched.quiet (h : s.Untouched s') (hnone : ∀ j i, ¬ assigned j i) :
    s.Quiet s' assigned where
  nextIds := h.nextIds
  rows j i hi := by
    rwa [table, h.tables] at hi
  assigns := hnone

end Store

namespace Workspace
variable {o : Options} {w : Workspace} {k : Kind}

theorem Writes.quiet {α : Type} {op : Operation} {C : ChangeSet → Session → Prop}
    {r : Run Workspace α} (h : Writes w op C r)
    (hids : ∀ c session ts, C c session → w.store.tables.change c = .ok ts →
      ∀ j i, (ts.get j).contains i = true → (w.store.table j).contains i = true) :
    w.store.Quiet r.state.store fun _ _ => False := by
  cases h with
  | stopped log _ => exact (Store.Untouched.refl w.store).quiet fun _ _ => id
  | nothing result log => exact (Store.Untouched.refl w.store).quiet fun _ _ => id
  | @committed c session hc result before after =>
    rw [Run.state_after]
    obtain ⟨f, _, hstore, _⟩ | ⟨_, hchange, hnext, _⟩ := w.commit_outcome op c session result after
    · exact hstore.quiet fun _ _ => id
    · exact ⟨hnext, hids c session _ hc hchange, fun _ _ => id⟩

theorem update_quiet (changes : List Record) (strict : Option Bool) :
    w.store.Quiet (w.update o k changes strict).state.store fun _ _ => False := by
  apply (update_writes changes strict).quiet
  rintro _ _ ts ⟨_, _, rfl, _⟩ hchange j i
  exact (RecordTables.contains_change_ofUpdates hchange j i).1

theorem remove_quiet (roots : IdMap) (strict : Option Bool) :
    w.store.Quiet (w.remove o roots strict).state.store fun _ _ => False := by
  apply (remove_writes roots strict).quiet
  rintro _ _ ts ⟨_, removed, _, _, _, rfl, _⟩ hchange j i hi
  exact ((RecordTables.contains_change_ofRemoval hchange j i).1 hi).1

theorem Inserts.quiet_or_handsOut {candidates : List Record} {strict : Option Bool}
    {r : Run Workspace MutationResult} (h : Inserts o w k candidates strict r) :
    w.store.Quiet r.state.store (r.Assigns k) ∨
      ∃ range, w.store.HandsOut r.state.store (r.Assigns k) k range ∧
        ∃ checked,
          w.session.snapshot.checkInsert k candidates (strict.getD o.strict) = .ok checked ∧
            range.count = checked.accepted.length := by
  cases h with
  | stopped _ =>
    refine Or.inl ((Store.Untouched.refl w.store).quiet ?_)
    rintro j i ⟨_, result, hok, _⟩
    cases hok
  | nothing log hitems =>
    refine Or.inl ((Store.Untouched.refl w.store).quiet ?_)
    rintro j i ⟨_, result, hok, hi⟩
    rw [← Except.ok.inj hok, hitems] at hi
    cases hi
  | refused log hsame =>
    refine Or.inl (hsame.quiet ?_)
    rintro j i ⟨_, result, hok, _⟩
    cases hok
  | @reserved checked range hcheck hrange hcount hfree rows hrows ids before after =>
    have hlist : (rows.map (Row.toRecord k)).map Record.id = range.toList := by
      rw [hrows, Row.map_id_toRecord]
      exact map_id_numbered (by rw [hrange])
    generalize rows.map (Row.toRecord k) = items at hlist ⊢
    generalize w.session.addRows k (rows.map (Row.stored k)) = session
    refine Or.inr ⟨range, ?_, checked, hcheck, by rw [hrange]⟩
    obtain ⟨f, houtcome, hstore, _⟩ | ⟨houtcome, hchange, hnext, _⟩ :=
      commit_outcome { w with store := w.store.advanced k range.stop } .insert (.ofInserts k items)
        session (⟨items, ids, checked.rejected⟩ : MutationResult) after
    · refine ⟨by rw [hrange], hcount, hstore.nextIds, fun j i hi => ?_, ?_⟩
      · rw [Run.state_after, Store.table, hstore.tables] at hi
        exact Or.inl hi
      · rintro j i ⟨_, result, hok, _⟩
        rw [Run.outcome_after, houtcome] at hok
        cases hok
    · obtain ⟨_, hnew, hother⟩ := RecordTables.of_change_ofInserts hchange
      refine ⟨by rw [hrange], hcount, hnext, fun j i hi => ?_, ?_⟩
      · by_cases hj : k = j
        · subst hj
          obtain hold | ⟨row, hrow, rfl⟩ := (hnew i).1 hi
          · exact Or.inl hold
          · exact Or.inr ⟨rfl, hlist ▸ List.mem_map_of_mem hrow⟩
        · rw [Run.state_after, Store.table, hother j hj] at hi
          exact Or.inl hi
      · rintro j i ⟨hj, result, hok, hi⟩
        rw [Run.outcome_after, houtcome] at hok
        rw [← Except.ok.inj hok, hlist] at hi
        exact ⟨hj, hi⟩

end Workspace

namespace Store
variable {s : Store} {t : Turn}

/-- What a turn of a checked call does to the next ids and to the ids of the rows. -/
theorem take_cases (s : Store) (ht : t.isChecked = true) :
    s.Quiet (s.take t) (t.Assigns s) ∨
      ∃ k range, s.HandsOut (s.take t) (t.Assigns s) k range ∧
        (t.HasRoom s k → s.Room k range.count) := by
  cases t with
  | setUp applyFails claimFails => exact Or.inl ⟨rfl, fun _ _ => id, fun _ _ => id⟩
  | call o session c =>
    cases c with
    | insert k candidates strict duplicates =>
      obtain hquiet | ⟨range, hhands, checked, hcheck, hcount⟩ :=
        (Workspace.insert_inserts (o := o) (w := ⟨s, session⟩)
          (k := k) candidates strict duplicates).quiet_or_handsOut
      · exact Or.inl hquiet
      · exact Or.inr ⟨k, range, hhands, fun hroom => hcount ▸ hroom rfl checked hcheck⟩
    | update k changes strict =>
      exact Or.inl (Workspace.update_quiet (w := ⟨s, session⟩) changes strict)
    | remove roots strict =>
      exact Or.inl (Workspace.remove_quiet (w := ⟨s, session⟩) roots strict)
    | readd k records => cases ht

variable {k : Kind} {i : Id} {turns : List Turn}

theorem HandsOut.fits {s' : Store} {assigned : Kind → Id → Prop} {range : IdRange}
    (h : s.HandsOut s' assigned k range) (hroom : s.Room k range.count) : range.Fits := by
  have hfits := hroom.fits (Nat.ne_of_gt h.count_pos)
  rwa [← h.first] at hfits

theorem HandsOut.first_lt_stop {s' : Store} {assigned : Kind → Id → Prop} {range : IdRange}
    (h : s.HandsOut s' assigned k range) (hroom : s.Room k range.count) :
    s.firstFree k < range.stop :=
  h.first ▸ (h.fits hroom).first_lt_stop h.count_pos

theorem take_nextIds (ht : t.isChecked = true) (hroom : t.HasRoom s k) {n : Id}
    (h : s.nextIds.get? k = some n) : ∃ n', (s.take t).nextIds.get? k = some n' ∧ n ≤ n' := by
  obtain hquiet | ⟨j, range, hhands, hheld⟩ := s.take_cases ht
  · exact ⟨n, by rw [hquiet.nextIds, h], Int.le_refl n⟩
  · rw [hhands.nextIds, SortedMap.get?_set]
    by_cases hj : j = k
    · subst hj
      exact ⟨range.stop, if_pos rfl,
        Int.le_trans (le_firstFree h) (Int.le_of_lt (hhands.first_lt_stop (hheld hroom)))⟩
    · exact ⟨n, by rw [if_neg hj, h], Int.le_refl n⟩

/-- Next ids never fall while there is room. -/
theorem play_nextIds (hchecked : ∀ t ∈ turns, t.isChecked = true) (hroom : s.HasRoom k turns)
    {n : Id} (h : s.nextIds.get? k = some n) :
    ∃ n', (s.play turns).nextIds.get? k = some n' ∧ n ≤ n' := by
  induction turns generalizing s n with
  | nil => exact ⟨n, h, Int.le_refl n⟩
  | cons t turns ih =>
    obtain ⟨middle, hmiddle, hle⟩ := take_nextIds (hchecked t List.mem_cons_self) hroom.1 h
    obtain ⟨last, hlast, hle'⟩ :=
      ih (fun t' ht' => hchecked t' (List.mem_cons_of_mem t ht')) hroom.2 hmiddle
    exact ⟨last, hlast, Int.le_trans hle hle'⟩

/-- A row that a turn leaves behind was there before, or its id was free and is not any more. -/
theorem take_rows (ht : t.isChecked = true) (hroom : t.HasRoom s k)
    (h : ((s.take t).table k).contains i = true) :
    (s.table k).contains i = true ∨
      s.firstFree k ≤ i ∧ ∃ n, (s.take t).nextIds.get? k = some n ∧ i < n := by
  obtain hquiet | ⟨j, range, hhands, hheld⟩ := s.take_cases ht
  · exact Or.inl (hquiet.rows k i h)
  · obtain hold | ⟨rfl, hi⟩ := hhands.rows k i h
    · exact Or.inl hold
    · obtain ⟨hfirst, hstop⟩ := (hhands.fits (hheld hroom)).mem_toList.1 hi
      refine Or.inr ⟨hhands.first ▸ hfirst, range.stop, ?_, hstop⟩
      rw [hhands.nextIds, SortedMap.get?_set, if_pos rfl]

/-- A row was seeded or the next id of its kind is past it. -/
theorem seeded_or_passed (hchecked : ∀ t ∈ turns, t.isChecked = true) (hroom : s.HasRoom k turns)
    (h : ((s.play turns).table k).contains i = true) :
    (s.table k).contains i = true ∨ ∃ n, (s.play turns).nextIds.get? k = some n ∧ i < n := by
  induction turns generalizing s with
  | nil => exact Or.inl h
  | cons t turns ih =>
    have hlater (t' : Turn) (ht' : t' ∈ turns) := hchecked t' (List.mem_cons_of_mem t ht')
    obtain hrow | hpassed := ih hlater hroom.2 h
    · obtain hold | ⟨_, n, hn, hi⟩ := take_rows (hchecked t List.mem_cons_self) hroom.1 hrow
      · exact Or.inl hold
      · obtain ⟨n', hn', hle⟩ := play_nextIds hlater hroom.2 hn
        exact Or.inr ⟨n', hn', Int.lt_of_lt_of_le hi hle⟩
    · exact Or.inr hpassed

/-- An id of a seeded row that nothing in the store tells of any more: the cursor was never past it,
and whenever ids of its kind were handed out, the row and all above it were already gone. -/
structure Forgotten (start : Store) (turns : List Turn) (k : Kind) (i : Id) : Prop where
  seeded : (start.table k).contains i = true
  unpassed : ∀ earlier, earlier <+: turns →
    ∀ n, (start.play earlier).nextIds.get? k = some n → n ≤ i
  gone : ∀ earlier t, earlier ++ [t] <+: turns →
    (start.play (earlier ++ [t])).nextIds.get? k ≠ (start.play earlier).nextIds.get? k →
      ∀ j, ((start.play earlier).table k).contains j = true → j < i

theorem Forgotten.of_prefix {start : Store} {first : List Turn} (h : Forgotten start turns k i)
    (hpre : first <+: turns) : Forgotten start first k i where
  seeded := h.seeded
  unpassed earlier hearlier := h.unpassed earlier (hearlier.trans hpre)
  gone earlier t hearlier := h.gone earlier t (hearlier.trans hpre)

/-- An id that a row had and that is free again is forgotten. -/
theorem forgotten_of_firstFree_le {start : Store} (hchecked : ∀ t ∈ turns, t.isChecked = true)
    (hroom : start.HasRoom k turns) (hfree : (start.play turns).firstFree k ≤ i)
    {earlier : List Turn} (hearlier : earlier <+: turns)
    (hrow : ((start.play earlier).table k).contains i = true) : Forgotten start turns k i := by
  have hunpassed (first : List Turn) (hfirst : first <+: turns) (n : Id)
      (hn : (start.play first).nextIds.get? k = some n) : n ≤ i := by
    obtain ⟨rest, rfl⟩ := hfirst
    have hrest (t : Turn) (ht : t ∈ rest) : t.isChecked = true :=
      hchecked t (List.mem_append_right first ht)
    obtain ⟨n', hn', hle⟩ := play_nextIds hrest (hasRoom_append.1 hroom).2 hn
    rw [← play_append] at hn'
    exact Int.le_trans hle (Int.le_trans (le_firstFree hn') hfree)
  refine ⟨?_, hunpassed, ?_⟩
  · obtain hseeded | ⟨n, hn, hi⟩ :=
      seeded_or_passed (fun t ht => hchecked t (hearlier.subset ht)) (hroom.of_prefix hearlier) hrow
    · exact hseeded
    · exact absurd (hunpassed earlier hearlier n hn) (Int.not_le.2 hi)
  · intro first t hfirst hmoved j hj
    have ht : t.isChecked = true := hchecked t (hfirst.subset (by simp))
    rw [play_concat] at hmoved
    obtain hquiet | ⟨j', range, hhands, hheld⟩ := (start.play first).take_cases ht
    · rw [hquiet.nextIds] at hmoved
      exact absurd rfl hmoved
    · rw [hhands.nextIds, SortedMap.get?_set] at hmoved
      by_cases hkind : j' = k
      · subst hkind
        have hthere := hheld (hasRoom_append.1 (hroom.of_prefix hfirst)).2.1
        have hstop := hunpassed _ hfirst range.stop
          (by rw [play_concat, hhands.nextIds, SortedMap.get?_set, if_pos rfl])
        have hbelow := hthere.lt_firstFree_of_contains (Nat.ne_of_gt hhands.count_pos) hj
        exact Int.lt_of_lt_of_le (Int.lt_trans hbelow (hhands.first_lt_stop hthere)) hstop
      · rw [if_neg hkind] at hmoved
        exact absurd rfl hmoved

/-- The id of a row that is gone stays free of rows unless it is forgotten. -/
theorem absent_of_not_forgotten {start : Store} {gone rest earlier : List Turn}
    (hchecked : ∀ t ∈ gone ++ rest, t.isChecked = true) (hroom : start.HasRoom k (gone ++ rest))
    (hearlier : earlier <+: gone) (hrow : ((start.play earlier).table k).contains i = true)
    (habsent : ((start.play gone).table k).contains i = false)
    (hknown : ¬ Forgotten start gone k i) :
    ((start.play (gone ++ rest)).table k).contains i = false := by
  induction rest generalizing gone with
  | nil => simpa using habsent
  | cons t rest ih =>
    rw [List.append_cons] at hchecked hroom ⊢
    have hgone (t' : Turn) (ht' : t' ∈ gone) : t'.isChecked = true := hchecked t' (by simp [ht'])
    obtain ⟨hbefore, hnow, -⟩ := hasRoom_append.1 (hasRoom_append.1 hroom).1
    apply ih hchecked hroom (hearlier.trans (List.prefix_append gone [t]))
    · rw [← Bool.not_eq_true, play_concat]
      intro hback
      obtain hold | ⟨hfree, _⟩ := take_rows (hchecked t (by simp)) hnow hback
      · rw [habsent] at hold
        cases hold
      · exact hknown (forgotten_of_firstFree_le hgone hbefore hfree hearlier hrow)
    · intro hforgotten
      exact hknown (hforgotten.of_prefix (List.prefix_append gone [t]))

theorem readd_of_absent {w : Workspace} {r : Record} {row : Row k}
    (hrow : Row.ofRecord k r = .ok row) (hid : r.id ≠ pendingId)
    (habsent : (w.store.table k).contains r.id = false) (happlies : w.store.applyFails = false) :
    (∃ result, (w.readd k [r]).outcome = .ok result) ∧
      ((w.readd k [r]).state.store.table k).find? r.id = some r := by
  have hread : [r].mapM (Workspace.readdedRow k) = .ok [row] := by
    simp [Workspace.readdedRow, hid, hrow, Except.mapError, pure, Except.pure, bind, Except.bind]
  have hchange : w.store.tables.change (.ofInserts k [r]) =
      .ok (w.store.tables.set k ((w.store.table k).insert r)) :=
    RecordTables.change_ofInserts (by simpa using hid) (by simpa [Store.table] using habsent)
      (by simp)
  rw [Workspace.readd_of_change (by simp) hread happlies hchange]
  refine ⟨⟨_, rfl⟩, ?_⟩
  rw [Run.done, Store.table, ByKind.get_set_self, Ascending.find?_insert, if_pos rfl]

/-- While 64 bits hold the ids of a kind, an insert gives a row an id that a row of the kind had
before only if that id was forgotten. Every other row that was removed can be put back, whatever was
inserted since. -/
theorem play_recycles (start : Store) (turns : List Turn)
    (hchecked : ∀ t ∈ turns, t.isChecked = true) :
    (∀ first t earlier k i, first ++ [t] <+: turns → start.HasRoom k (first ++ [t]) →
      earlier <+: first → ((start.play earlier).table k).contains i = true →
      t.Assigns (start.play first) k i → Forgotten start first k i) ∧
    ∀ earlier gone k r row session, start.HasRoom k turns → earlier <+: gone → gone <+: turns →
      ((start.play earlier).table k).contains r.id = true →
      ((start.play gone).table k).contains r.id = false → ¬ Forgotten start gone k r.id →
      Row.ofRecord k r = .ok row → r.id ≠ pendingId → (start.play turns).applyFails = false →
      let put := (⟨start.play turns, session⟩ : Workspace).readd k [r]
      (∃ result, put.outcome = .ok result) ∧ (put.state.store.table k).find? r.id = some r := by
  constructor
  · intro first t earlier k i hfirst hroom hearlier hrow hassigns
    obtain ⟨hroomBefore, hnow, -⟩ := hasRoom_append.1 hroom
    have hbefore (t' : Turn) (ht' : t' ∈ first) : t'.isChecked = true :=
      hchecked t' (hfirst.subset (by simp [ht']))
    apply forgotten_of_firstFree_le hbefore hroomBefore _ hearlier hrow
    obtain hquiet | ⟨j, range, hhands, hheld⟩ :=
      (start.play first).take_cases (hchecked t (hfirst.subset (by simp)))
    · exact absurd hassigns (hquiet.assigns k i)
    · obtain ⟨rfl, hi⟩ := hhands.assigns k i hassigns
      exact hhands.first ▸ ((hhands.fits (hheld hnow)).mem_toList.1 hi).1
  · intro earlier gone k r row session hroom hearlier hgone hrow habsent hknown hread hid happlies
    obtain ⟨rest, rfl⟩ := hgone
    have hfree := absent_of_not_forgotten hchecked hroom hearlier hrow habsent hknown
    exact readd_of_absent hread hid hfree happlies

end Store

namespace Workspace

/-- Alternatives that were seeded without a cursor. -/
def alternatives : Workspace :=
  ⟨Store.empty.seed .alternative [⟨1, "base", none⟩, ⟨2, "high", none⟩],
    ⟨Snapshot.empty.putRows .alternative [⟨1, "base", none⟩, ⟨2, "high", none⟩], ∅, ∅⟩⟩

def withoutHigh : Workspace := (alternatives.remove {} (.ofNodes [(.alternative, 2)]) none).state

def namedLow : Record := .ofFields [("name", some (.text "low"))]

def high : Record := .ofFields [("id", some (.int 2)), ("name", some (.text "high"))]

def lowInserted : Run Workspace MutationResult :=
  withoutHigh.insert {} .alternative [namedLow] none false

theorem withoutHigh_eq : withoutHigh =
    ⟨{ Store.empty.seed .alternative [⟨1, "base", none⟩] with applyCount := 1 },
      ⟨Snapshot.empty.putRows .alternative [⟨1, "base", none⟩], ∅,
        .ofNodes [(.alternative, 2)]⟩⟩ := by
  cbv

theorem lowInserted_assigns : lowInserted.Assigns .alternative .alternative 2 := by
  have houtcome : lowInserted.outcome =
      .ok ⟨[.ofFields [("id", some (.int 2)), ("name", some (.text "low"))]], .ofIds [2], []⟩ := by
    rw [lowInserted, withoutHigh_eq, insert]
    rfl
  exact ⟨rfl, _, houtcome, List.mem_singleton.2 rfl⟩

/-- Alternatives that were seeded under the least id and the last but one. -/
def extremes : Workspace :=
  ⟨Store.empty.seed .alternative
      [⟨Int64.minValue.toInt, "base", none⟩, ⟨Int64.maxValue.toInt - 1, "high", none⟩],
    ⟨Snapshot.empty.putRows .alternative
      [⟨Int64.minValue.toInt, "base", none⟩, ⟨Int64.maxValue.toInt - 1, "high", none⟩], ∅, ∅⟩⟩

theorem open_extremes : Session.open extremes.store = .ok extremes.session := by
  simp only [extremes, Int64.toInt_minValue, Int64.toInt_maxValue, Int.reducePow, Int.reduceNeg,
    Int.reduceSub]
  cbv

def withoutLeast : Workspace :=
  (extremes.remove {} (.ofNodes [(.alternative, Int64.minValue.toInt)]) none).state

/-- The last id is handed out. -/
def lastInserted : Run Workspace MutationResult :=
  withoutLeast.insert {} .alternative [namedLow] none false

/-- The id after the last one is handed out. -/
def wrappedInserted : Run Workspace MutationResult :=
  lastInserted.state.insert {} .alternative [.ofFields [("name", some (.text "next"))]] none false

theorem withoutLeast_eq : withoutLeast =
    ⟨{ Store.empty.seed .alternative [⟨Int64.maxValue.toInt - 1, "high", none⟩] with
        applyCount := 1 },
      ⟨Snapshot.empty.putRows .alternative [⟨Int64.maxValue.toInt - 1, "high", none⟩], ∅,
        .ofNodes [(.alternative, Int64.minValue.toInt)]⟩⟩ := by
  simp only [withoutLeast, extremes, Int64.toInt_minValue, Int64.toInt_maxValue, Int.reducePow,
    Int.reduceNeg, Int.reduceSub]
  cbv

theorem wrappedInserted_assigns :
    wrappedInserted.Assigns .alternative .alternative Int64.minValue.toInt := by
  have houtcome : wrappedInserted.outcome =
      .ok ⟨[.ofFields [("id", some (.int Int64.minValue.toInt)), ("name", some (.text "next"))]],
        .ofIds [Int64.minValue.toInt], []⟩ := by
    rw [wrappedInserted, lastInserted, withoutLeast_eq, insert]
    rfl
  exact ⟨rfl, _, houtcome, List.mem_singleton.2 rfl⟩

/-- Without a cursor the largest id of a seeded table is forgotten with its row: the next insert
hands it out again, and the row cannot be put back. Ids also come again once they have wrapped
around, though a row of a higher id stood whenever ids were handed out. -/
theorem insert_recycles :
    (Session.open alternatives.store = .ok alternatives.session ∧
      (alternatives.store.table .alternative).contains 2 = true ∧
      (withoutHigh.store.table .alternative).contains 2 = false ∧
      lowInserted.Assigns .alternative .alternative 2 ∧
      (lowInserted.state.readd .alternative [high]).outcome =
        .error (.applyFailed .readd (.duplicateId .alternative 2))) ∧
    Session.open extremes.store = .ok extremes.session ∧
      (extremes.store.table .alternative).contains Int64.minValue.toInt = true ∧
      (withoutLeast.store.table .alternative).contains (Int64.maxValue.toInt - 1) = true ∧
      wrappedInserted.Assigns .alternative .alternative Int64.minValue.toInt := by
  refine ⟨⟨by cbv, rfl, by rw [withoutHigh_eq]; rfl, lowInserted_assigns, ?_⟩, open_extremes,
    rfl, by rw [withoutLeast_eq]; rfl, wrappedInserted_assigns⟩
  rw [lowInserted, withoutHigh_eq, insert]
  rfl

end Workspace

namespace Store
open Workspace

def removeHigh : Turn := .call {} alternatives.session (.remove (.ofNodes [(.alternative, 2)]) none)

def insertLow : Turn := .call {} withoutHigh.session (.insert .alternative [namedLow] none false)

/-- The alternatives with a cursor that is past them. -/
def counted : Store :=
  { alternatives.store with cursor := some ⟨"", (∅ : SortedMap Kind Id).set .alternative 3⟩ }

theorem hasRoom_insertLow {s : Store} (hfloor : Id.Fits (s.maxId .alternative + 1))
    (hstop : Id.Fits (s.firstFree .alternative + 1)) : insertLow.HasRoom s .alternative := by
  intro _ checked hcheck
  have hlow : withoutHigh.session.snapshot.checkInsert .alternative [namedLow] false =
      .ok ⟨[⟨pendingId, "low", none⟩], [], ∅⟩ := by
    cbv
  obtain rfl := Except.ok.inj (hlow.symm.trans hcheck)
  exact fun _ => ⟨hfloor, hstop⟩

theorem take_removeHigh_alternatives : alternatives.store.take removeHigh = withoutHigh.store := rfl

theorem take_removeHigh_counted : counted.take removeHigh =
    { withoutHigh.store with cursor := counted.cursor } := by
  cbv

/-- An id that is handed out again, and one that is not because the cursor is past it. -/
theorem play_alternatives_recycles :
    Forgotten alternatives.store [removeHigh] .alternative 2 ∧
      (((⟨counted.play [removeHigh, insertLow, .setUp false true], alternatives.session⟩ :
        Workspace).readd .alternative [high]).state.store.table .alternative).find? 2 =
        some high := by
  constructor
  · have hroom : alternatives.store.HasRoom .alternative [removeHigh, insertLow] := by
      refine ⟨trivial, ?_, trivial⟩
      rw [take_removeHigh_alternatives, withoutHigh_eq]
      exact hasRoom_insertLow (by decide) (by decide)
    exact (play_recycles alternatives.store [removeHigh, insertLow] (by decide)).1 [removeHigh]
      insertLow [] .alternative 2 (List.prefix_refl _) hroom List.nil_prefix rfl lowInserted_assigns
  · have hroom : counted.HasRoom .alternative [removeHigh, insertLow, .setUp false true] := by
      refine ⟨trivial, ?_, trivial, trivial⟩
      rw [take_removeHigh_counted, withoutHigh_eq]
      exact hasRoom_insertLow (by decide) (by decide)
    have hknown : ¬ Forgotten counted [removeHigh] .alternative 2 := by
      intro h
      exact absurd (h.unpassed [] List.nil_prefix 3 rfl) (by decide)
    have hput := (play_recycles counted [removeHigh, insertLow, .setUp false true] (by decide)).2 []
      [removeHigh] .alternative high ⟨2, "high", none⟩ alternatives.session hroom List.nil_prefix
      (List.prefix_append _ [insertLow, .setUp false true]) rfl (by cbv) hknown rfl (by decide) rfl
    exact hput.2

end Store

end EntityStore
