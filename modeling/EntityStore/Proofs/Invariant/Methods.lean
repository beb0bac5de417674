import EntityStore.Proofs.Invariant.Keys
import EntityStore.Proofs.Invariant.Listed
/-!
# Methods are on the lists of their features

A method is an index of the list of its feature. Inserts and removals keep this, and so do updates
of list values, because an index stands for one list value of a list and a list value whose index is
in use keeps it. Nothing is fixed for a feature or a tool feature, though: an update can lead a
method to another list, which need not offer its index. That is the only way to lose a method, and
in a history in which it does not happen every method stays on its list
(`Workspace.run_methodsListed_iff`).
-/
namespace EntityStore

namespace Snapshot

/-- The list that a method goes by offers its index. -/
def OffersMethod (s : Snapshot) (m : ToolFeatureMethod) : Prop :=
  ∃ list, s.methodList? m.toolFeatureId = some list ∧ s.offersIndex list m.methodIndex = true

instance (s : Snapshot) (m : ToolFeatureMethod) : Decidable (s.OffersMethod m) :=
  decidable_of_iff ((s.methodList? m.toolFeatureId).any fun list =>
    s.offersIndex list m.methodIndex) (Option.any_eq_true _ _)

/-- Every method is an index of the list of its feature. -/
def MethodsListed (s : Snapshot) : Prop := ∀ m ∈ s.rows .toolFeatureMethod, s.OffersMethod m

instance (s : Snapshot) : Decidable s.MethodsListed :=
  inferInstanceAs (Decidable (∀ m ∈ s.rows .toolFeatureMethod, s.OffersMethod m))

/-- `s.Reroutes s'`: a method that goes by a list in `s` goes by another one in `s'`, which does not
offer its index. -/
def Reroutes (s s' : Snapshot) : Prop :=
  ∃ m ∈ s.rows .toolFeatureMethod, ∃ list, s'.methodList? m.toolFeatureId = some list ∧
    s.methodList? m.toolFeatureId ≠ some list ∧ s.offersIndex list m.methodIndex = false

section Put
variable {s : Snapshot} {k : Kind} {rows : List (Row k)}

theorem offersMethod_of_valid {m : ToolFeatureMethod} (h : Row.Valid s .toolFeatureMethod m) :
    s.OffersMethod m := by
  rcases h with ⟨t, f, ht, hf, hindex⟩
  exact ⟨f.parameterValueListId, methodList?_eq_some_iff.2 ⟨t, ht, f, hf, rfl⟩, hindex⟩

theorem MethodsListed.offersMethod_of_mem_putRows (h : s.MethodsListed)
    (hv : ∀ row ∈ rows, Row.Valid s k row) {m : ToolFeatureMethod}
    (hm : m ∈ (s.putRows k rows).rows .toolFeatureMethod) : s.OffersMethod m := by
  by_cases hk : k = .toolFeatureMethod
  · subst hk
    rcases mem_or_mem_of_mem_putRows hm with hnew | hold
    · exact offersMethod_of_valid (hv m hnew)
    · exact h m hold
  · rw [rows_putRows_of_ne hk] at hm
    exact h m hm

theorem MethodsListed.inserted (h : s.MethodsListed) (hv : ∀ row ∈ rows, Row.Valid s k row)
    (hfresh : ∀ row ∈ rows, s.contains k (Row.id k row) = false) :
    (s.putRows k rows).MethodsListed := by
  intro m hm
  rcases h.offersMethod_of_mem_putRows hv hm with ⟨list, hlist, hindex⟩
  rcases methodList?_eq_some_iff.1 hlist with ⟨t, ht, f, hf, hflist⟩
  rcases offersIndex_iff.1 hindex with ⟨v, hvmem, hvlist, hvindex⟩
  have ht' := find?_putRows_of_fresh hfresh ht
  have hf' := find?_putRows_of_fresh hfresh hf
  have hv' := find?_putRows_of_fresh hfresh (mem_rows_iff.1 hvmem)
  exact ⟨list, methodList?_eq_some_iff.2 ⟨t, ht', f, hf', hflist⟩,
    offersIndex_iff.2 ⟨v, mem_rows_of_find? hv', hvlist, hvindex⟩⟩

theorem offersIndex_putRows_of_ne (hk : k ≠ .listValue) (list : Id) (index : Int) :
    (s.putRows k rows).offersIndex list index = s.offersIndex list index := by
  rw [Bool.eq_iff_iff, offersIndex_iff, offersIndex_iff, rows_putRows_of_ne hk]

theorem methodList?_putRows_of_ne (ht : k ≠ .toolFeature) (hf : k ≠ .feature) (i : Id) :
    (s.putRows k rows).methodList? i = s.methodList? i := by
  simp only [methodList?, find?_putRows_of_ne rows s ht, find?_putRows_of_ne rows s hf]

theorem exists_methodList?_putRows (hv : ∀ row ∈ rows, Row.Valid s k row) {i list : Id}
    (h : s.methodList? i = some list) :
    ∃ list', (s.putRows k rows).methodList? i = some list' := by
  rcases methodList?_eq_some_iff.1 h with ⟨t, ht, f, hf, rfl⟩
  have hstill : ∃ t', (s.putRows k rows).find? .toolFeature i = some t' ∧
      s.contains .feature t'.featureId = true := by
    by_cases hk : k = .toolFeature
    · subst hk
      have hcontains : (s.putRows .toolFeature rows).contains .toolFeature i = true :=
        contains_putRows_of_contains (contains_of_find? ht)
      rcases contains_iff.1 hcontains with ⟨t', ht'⟩
      refine ⟨t', ht', ?_⟩
      rcases find?_putRows_cases ht' with ⟨hnew, _⟩ | ⟨hold, _⟩
      · exact (hv t' hnew).2
      · rw [ht, Option.some.injEq] at hold
        rw [← hold]
        exact contains_of_find? hf
    · refine ⟨t, ?_, contains_of_find? hf⟩
      rw [find?_putRows_of_ne rows s hk, ht]
  rcases hstill with ⟨t', ht', hfeature⟩
  have hfeature' : (s.putRows k rows).contains .feature t'.featureId = true :=
    contains_putRows_of_contains hfeature
  rcases contains_iff.1 hfeature' with ⟨f', hf'⟩
  exact ⟨f'.parameterValueListId, methodList?_eq_some_iff.2 ⟨t', ht', f', hf', rfl⟩⟩

end Put

section Update
variable {s : Snapshot} {k : Kind} {changes : List Record} {strict : Bool}
  {checked : CheckResult k}

theorem KeysDiffer.eq_of_index (h : s.KeysDiffer) {a b : ListValue} (ha : a ∈ s.rows .listValue)
    (hb : b ∈ s.rows .listValue) (hlist : a.parameterValueListId = b.parameterValueListId)
    (hindex : a.valueIndex = b.valueIndex) : a = b := by
  have hkeys : Row.keys .listValue a = Row.keys .listValue b := by
    simp only [Row.keys, ListValue.keys, hlist, hindex]
  have hmem : ⟨"parameter_value_list_id, value_index",
      [.int a.parameterValueListId, .int a.valueIndex]⟩ ∈ Row.keys .listValue a :=
    List.mem_singleton_self _
  exact h .listValue a ha b hb _ hmem (hkeys ▸ hmem)

/-- A list value keeps the index that a method has when it is revised, if no other offers it. -/
theorem index_of_revises {before v : ListValue} (h : Row.Revises s .listValue before v)
    {m : ToolFeatureMethod} (hm : m ∈ s.rows .toolFeatureMethod)
    (hlist : s.methodList? m.toolFeatureId = some before.parameterValueListId)
    (hindex : m.methodIndex = before.valueIndex)
    (honly : ∀ b ∈ s.rows .listValue, b.parameterValueListId = before.parameterValueListId →
      b.valueIndex = before.valueIndex → b.id = before.id) :
    v.valueIndex = before.valueIndex := by
  by_contra hchanged
  have hunused := (ListValue.of_revises h).2
  have hgoes : before.valueIndex ≠ v.valueIndex := Ne.symm hchanged
  rw [decide_eq_true hgoes] at hunused
  rcases exists_other_of_index hunused (indexUser_ne_none hm hlist hindex rfl) with
    ⟨b, hb, hne, hblist, _, hbindex⟩
  exact hne (honly b hb hblist hbindex)

/-- Updates of list values take no index that a method has from its list. -/
theorem offersIndex_updated (hkeys : s.KeysDiffer) {checked : CheckResult .listValue}
    (check : s.checkUpdate .listValue changes strict = .ok checked) {m : ToolFeatureMethod}
    (hm : m ∈ s.rows .toolFeatureMethod) {list : Id}
    (hlist : s.methodList? m.toolFeatureId = some list)
    (hindex : s.offersIndex list m.methodIndex = true) :
    (s.putRows .listValue (checked.accepted.map (Row.stored .listValue))).offersIndex list
      m.methodIndex = true := by
  rcases offersIndex_iff.1 hindex with ⟨a, ha, halist, haindex⟩
  have hcontains : (s.putRows .listValue (checked.accepted.map (Row.stored .listValue))).contains
      .listValue a.id = true := contains_putRows_of_contains (contains_of_mem ha)
  rcases contains_iff.1 hcontains with ⟨v, hv⟩
  have hsame : v.parameterValueListId = list ∧ v.valueIndex = m.methodIndex := by
    refine holds_of_checkUpdate (i := a.id) (P := fun v : ListValue =>
      v.parameterValueListId = list ∧ v.valueIndex = m.methodIndex) ?_ ?_ (fun _ h => h) check hv
    · intro v hv
      rw [eq_of_id_eq (mem_rows_of_find? hv) ha (id_of_find? hv)]
      exact ⟨halist, haindex⟩
    · rintro before v hid ⟨hblist, hbindex⟩ hrevises
      constructor
      · exact (ListValue.of_revises hrevises).1.trans hblist
      · rw [← hblist] at hlist halist
        rw [← hbindex] at haindex
        refine (index_of_revises hrevises hm hlist hbindex.symm ?_).trans hbindex
        intro b hb hlist' hindex'
        rw [hkeys.eq_of_index hb ha (hlist'.trans halist.symm) (hindex'.trans haindex.symm)]
        exact hid.symm
  exact offersIndex_iff.2 ⟨v, mem_rows_of_find? hv, hsame⟩

/-- An update keeps the methods on their lists, unless it leads one to a list that does not offer
its index. -/
theorem MethodsListed.updated (h : s.MethodsListed) (hkeys : s.KeysDiffer)
    (check : s.checkUpdate k changes strict = .ok checked)
    (hstay : ¬ ((k = .feature ∨ k = .toolFeature) ∧
      s.Reroutes (s.putRows k (checked.accepted.map (Row.stored k))))) :
    (s.putRows k (checked.accepted.map (Row.stored k))).MethodsListed := by
  intro m hm
  have hvalid := valid_of_updated check
  have hbefore := h.offersMethod_of_mem_putRows hvalid hm
  rcases hbefore with ⟨list, hlist, hindex⟩
  by_cases hk : k = .feature ∨ k = .toolFeature
  · have hmethod : m ∈ s.rows .toolFeatureMethod := by
      rw [rows_putRows_of_ne (by rcases hk with rfl | rfl <;> decide)] at hm
      exact hm
    have hother : k ≠ .listValue := by rcases hk with rfl | rfl <;> decide
    rcases exists_methodList?_putRows hvalid hlist with ⟨list', hlist'⟩
    refine ⟨list', hlist', ?_⟩
    rw [offersIndex_putRows_of_ne hother]
    by_contra hlost
    refine hstay ⟨hk, m, hmethod, list', hlist', ?_, Bool.not_eq_true _ ▸ hlost⟩
    rw [hlist, ne_eq, Option.some.injEq]
    rintro rfl
    exact hlost hindex
  · rw [not_or] at hk
    refine ⟨list, ?_, ?_⟩
    · rw [methodList?_putRows_of_ne hk.2 hk.1, hlist]
    · by_cases hvalue : k = .listValue
      · subst hvalue
        rw [rows_putRows_of_ne (by decide)] at hm
        exact offersIndex_updated hkeys check hm hlist hindex
      · rw [offersIndex_putRows_of_ne hvalue, hindex]

end Update

section Remove
variable {s : Snapshot} {withClasses : Bool} {removed : IdMap}

theorem find?_without_of_stays {k : Kind} (hk : k ≠ .parameterDefinition) {i : Id} {row : Row k}
    (h : s.find? k i = some row) (hstays : removed.has k i = false) :
    (s.without removed).find? k i = some row := by
  rw [find?_without, hstays, if_neg Bool.false_ne_true, h, Option.map_some,
    Row.leftBy_of_ne removed hk]

/-- A removal that nothing stands against leaves every method that stays on its list. -/
theorem MethodsListed.without (h : s.MethodsListed) (hclosed : s.IsClosed withClasses removed)
    (hfree : s.keptValues removed = []) : (s.without removed).MethodsListed := by
  intro m' hm'
  rcases of_mem_rows_without hm' with ⟨m, hm, hmstays, rfl⟩
  rcases h m hm with ⟨list, hlist, hindex⟩
  rcases methodList?_eq_some_iff.1 hlist with ⟨t, ht, f, hf, rfl⟩
  have htstays : removed.has .toolFeature m.toolFeatureId = false :=
    hclosed.stays (.methodOfToolFeature hm) hmstays
  have hfstays : removed.has .feature t.featureId = false := by
    have hid : ToolFeature.id t = m.toolFeatureId := id_of_find? ht
    apply hclosed.stays (.toolFeatureOfFeature (mem_rows_of_find? ht))
    rw [hid, htstays]
  have hlstays : removed.has .valueList f.parameterValueListId = false := by
    have hid : Feature.id f = t.featureId := id_of_find? hf
    apply hclosed.stays (.featureOfList (mem_rows_of_find? hf))
    rw [hid, hfstays]
  refine ⟨f.parameterValueListId, methodList?_eq_some_iff.2 ⟨t,
    find?_without_of_stays (by decide) ht htstays, f,
    find?_without_of_stays (by decide) hf hfstays, rfl⟩, ?_⟩
  rcases offersIndex_iff.1 hindex with ⟨a, ha, halist, haindex⟩
  cases hgoes : removed.has .listValue a.id with
  | false => exact offersIndex_iff.2 ⟨a, leftBy_mem_rows_without ha hgoes, halist, haindex⟩
  | true =>
    rw [← halist] at hlist hlstays
    have hunused := listUser_of_keptValues hfree ha hgoes hlstays
    rcases exists_other_of_index hunused (indexUser_ne_none hm hlist haindex.symm hmstays) with
      ⟨b, hb, _, hblist, hbstays, hbindex⟩
    exact offersIndex_iff.2 ⟨b, leftBy_mem_rows_without hb hbstays, hblist.trans halist,
      hbindex.trans haindex⟩

end Remove

/-- A call keeps the methods on their lists, unless it is an update of features or tool features
that leads one to a list without its index. -/
theorem MethodsListed.change_iff {o : Options} {c : Call} {s s' : Snapshot}
    (hchange : s.Change o c s') (hkeys : s.KeysDiffer) (h : s.MethodsListed) :
    s'.MethodsListed ↔ ¬ ((∃ k changes strict, c = .update k changes strict ∧
      (k = .feature ∨ k = .toolFeature)) ∧ s.Reroutes s') := by
  constructor
  · rintro hlisted ⟨⟨k, changes, strict, rfl, hk⟩, m, hm, list, hlist, _, hlost⟩
    cases hchange with
    | update check =>
      have hmethod : k ≠ .toolFeatureMethod := by rcases hk with rfl | rfl <;> decide
      have hother : k ≠ .listValue := by rcases hk with rfl | rfl <;> decide
      rw [← rows_putRows_of_ne hmethod] at hm
      rcases hlisted m hm with ⟨list', hlist', hindex⟩
      rw [hlist, Option.some.injEq] at hlist'
      rw [← hlist', offersIndex_putRows_of_ne hother, hlost] at hindex
      cases hindex
  · intro hno
    cases hchange with
    | insert check fresh => exact h.inserted (valid_of_inserted check) (fresh_of_inserted fresh)
    | remove sub set free => exact h.without set.closed free
    | @update k changes strict checked check =>
      apply h.updated hkeys check
      rintro ⟨hk, hreroutes⟩
      exact hno ⟨⟨k, changes, strict, rfl, hk⟩, hreroutes⟩

end Snapshot

/-- An update of features or tool features that leads a method to a list without its index. -/
def Event.Reroutes (o : Options) (w : Workspace) (e : Event) : Prop :=
  (∃ k changes strict, e = .call (.update k changes strict) ∧ (k = .feature ∨ k = .toolFeature)) ∧
    w.session.snapshot.Reroutes (w.react o e).session.snapshot

namespace Workspace

theorem react_methodsListed_iff {o : Options} {w : Workspace} (hcovers : w.Covers)
    (hkeys : w.session.snapshot.KeysDiffer) (h : w.session.snapshot.MethodsListed) {e : Event}
    (he : e.isChecked = true) :
    (w.react o e).session.snapshot.MethodsListed ↔ ¬ e.Reroutes o w := by
  rcases react_change (o := o) hcovers he with ⟨_, hsame | ⟨c, rfl, hchange⟩⟩
  · rw [Event.Reroutes, hsame]
    constructor
    · rintro _ ⟨_, m, hm, list, hlist, hother, _⟩
      exact hother hlist
    · exact fun _ => h
  · rw [h.change_iff hchange hkeys, Event.Reroutes]
    simp only [Event.call.injEq]

/-- Let the keys of the rows of a kind differ and every method be on its list in a session that was
just opened. Then all methods stay on their lists throughout a checked history exactly as long as no
update of features or tool features leads one to a list without its index. -/
theorem run_methodsListed_iff (o : Options) (store : Store) (session : Session)
    (events : List Event) (hopen : Session.open store = .ok session)
    (hkeys : session.snapshot.KeysDiffer) (hlisted : session.snapshot.MethodsListed)
    (hchecked : ∀ e ∈ events, e.isChecked = true) :
    (∀ first, first <+: events →
      ((⟨store, session⟩ : Workspace).run o first).session.snapshot.MethodsListed) ↔
    ∀ first e, first ++ [e] <+: events →
      ¬ e.Reroutes o ((⟨store, session⟩ : Workspace).run o first) := by
  apply run_prefixes_iff (I := fun w => w.Covers ∧ w.session.snapshot.KeysDiffer)
    (P := fun w => w.session.snapshot.MethodsListed) (B := fun w e => e.Reroutes o w) _ _
    ⟨covers_of_open hopen, hkeys⟩ hlisted hchecked
  · exact fun w e he hw => react_keeps (fun _ _ _ hchange hkeys => hkeys.change hchange) he hw
  · rintro w e he ⟨hcovers, hdiffer⟩ hmethods
    exact react_methodsListed_iff hcovers hdiffer hmethods he

/-- Two lists of which the first offers an index more, definitions on both, and a method that has
this index. -/
def pumps : Store :=
  Store.empty
    |>.seed .entityClass [⟨1, "pump", none, []⟩]
    |>.seed .valueList [⟨1, "modes"⟩, ⟨2, "states"⟩]
    |>.seed .listValue [⟨1, 1, 0, "on"⟩, ⟨2, 1, 1, "off"⟩, ⟨3, 2, 0, "open"⟩]
    |>.seed .parameterDefinition [⟨1, 1, "mode", none, some 1, none, .any⟩,
      ⟨2, 1, "inlet", none, some 2, none, .any⟩, ⟨3, 1, "outlet", none, some 2, none, .any⟩]
    |>.seed .feature [⟨1, 1, 1, none⟩, ⟨2, 2, 2, none⟩]
    |>.seed .tool [⟨1, "solver", none⟩]
    |>.seed .toolFeature [⟨1, 1, 1, false⟩]
    |>.seed .toolFeatureMethod [⟨1, 1, 1⟩]

def pumpsSession : Session :=
  { snapshot := Snapshot.empty
      |>.putRows .entityClass [⟨1, "pump", none, []⟩]
      |>.putRows .valueList [⟨1, "modes"⟩, ⟨2, "states"⟩]
      |>.putRows .listValue [⟨1, 1, 0, "on"⟩, ⟨2, 1, 1, "off"⟩, ⟨3, 2, 0, "open"⟩]
      |>.putRows .parameterDefinition [⟨1, 1, "mode", none, some 1, none, .any⟩,
        ⟨2, 1, "inlet", none, some 2, none, .any⟩, ⟨3, 1, "outlet", none, some 2, none, .any⟩]
      |>.putRows .feature [⟨1, 1, 1, none⟩, ⟨2, 2, 2, none⟩]
      |>.putRows .tool [⟨1, "solver", none⟩]
      |>.putRows .toolFeature [⟨1, 1, 1, false⟩]
      |>.putRows .toolFeatureMethod [⟨1, 1, 1⟩]
    added := ∅
    removed := ∅ }

/-- A change of one reference of a row. -/
def repointed (i : Id) (field : String) (target : Id) : Record :=
  .ofFields [("id", some (.int i)), (field, some (.int target))]

theorem open_pumps : Session.open pumps = .ok pumpsSession := by cbv

theorem resolved_pumps : pumpsSession.snapshot.Resolved true := by decide

theorem listed_pumps : pumpsSession.snapshot.Listed := by decide

theorem keysDiffer_pumps : pumpsSession.snapshot.KeysDiffer := by decide

theorem methodsListed_pumps : pumpsSession.snapshot.MethodsListed := by decide

theorem wellTyped_pumps : pumpsSession.snapshot.WellTyped true := by
  intro k row hrow
  cases k with
  | entityClass =>
    intro _ member hm
    rw [List.mem_singleton.1 hrow] at hm
    cases hm
  | feature =>
    rcases List.mem_cons.1 hrow with rfl | hrow
    · exact ⟨⟨1, 1, "mode", none, some 1, none, .any⟩, by decide, rfl⟩
    · rw [List.mem_singleton.1 hrow]
      exact ⟨⟨2, 1, "inlet", none, some 2, none, .any⟩, by decide, rfl⟩
  | entity | entityGroup | parameterValue => cases hrow
  | _ => trivial

theorem run_pumps_methodsListed_iff :
    (∀ first, first <+: [Event.call (.update .feature [repointed 2 "parameter_definition_id" 3]
        none), .call (.remove (.ofNodes [(.listValue, 2)]) none)] →
      ((⟨pumps, pumpsSession⟩ : Workspace).run {} first).session.snapshot.MethodsListed) ↔
    ∀ first e, first ++ [e] <+: [Event.call (.update .feature
        [repointed 2 "parameter_definition_id" 3] none),
        .call (.remove (.ofNodes [(.listValue, 2)]) none)] →
      ¬ e.Reroutes {} ((⟨pumps, pumpsSession⟩ : Workspace).run {} first) :=
  run_methodsListed_iff {} pumps pumpsSession _ open_pumps keysDiffer_pumps methodsListed_pumps
    (by decide)

/-- The references of a session resolve, its rows agree, its keys differ, its texts in use are on
their lists and so are its methods. A feature that is made of another definition, or a tool feature
of another feature, leaves a method with an index that its list does not offer. -/
theorem run_pumps_not_methodsListed :
    Session.open pumps = .ok pumpsSession ∧ pumpsSession.snapshot.Resolved true ∧
      pumpsSession.snapshot.WellTyped true ∧ pumpsSession.snapshot.KeysDiffer ∧
      pumpsSession.snapshot.Listed ∧ pumpsSession.snapshot.MethodsListed ∧
      ¬ ((⟨pumps, pumpsSession⟩ : Workspace).run {} [.call (.update .feature
        [repointed 1 "parameter_definition_id" 3] none)]).session.snapshot.MethodsListed ∧
      ¬ ((⟨pumps, pumpsSession⟩ : Workspace).run {} [.call (.update .toolFeature
        [repointed 1 "feature_id" 2] none)]).session.snapshot.MethodsListed := by
  refine ⟨open_pumps, resolved_pumps, wellTyped_pumps, keysDiffer_pumps, listed_pumps,
    methodsListed_pumps, ?_, ?_⟩
  · have hrun : ((⟨pumps, pumpsSession⟩ : Workspace).run {} [.call (.update .feature
        [repointed 1 "parameter_definition_id" 3] none)]).session.snapshot =
        pumpsSession.snapshot.put .feature ⟨1, 3, 2, none⟩ := by cbv
    rw [hrun]
    decide
  · have hrun : ((⟨pumps, pumpsSession⟩ : Workspace).run {} [.call (.update .toolFeature
        [repointed 1 "feature_id" 2] none)]).session.snapshot =
        pumpsSession.snapshot.put .toolFeature ⟨1, 1, 2, false⟩ := by cbv
    rw [hrun]
    decide

end Workspace

end EntityStore
