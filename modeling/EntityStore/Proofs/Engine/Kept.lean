import EntityStore.Proofs.Engine.Settling
import EntityStore.Proofs.Invariant.Methods
/-!
# Which list values a removal has to leave

The check of a removal looks for what relies on a list value among the rows of before, and passes
over rows that go. When the removal set is closed, this finds a user exactly when a row left behind
needs the text or the index of the list value and no list value left behind has it
(`Snapshot.listUser_ne_none_iff`). So the check refuses nothing exactly when all texts and indexes
in use are still on their lists after the removal.
-/
namespace EntityStore.Snapshot

/-- A method of a tool feature that goes by a list has the index. -/
def UsesIndex (s : Snapshot) (list : Id) (index : Int) : Prop :=
  ∃ m ∈ s.rows .toolFeatureMethod, s.methodList? m.toolFeatureId = some list ∧
    m.methodIndex = index

/-- The methods of tool features that go by a list have an index of the list. -/
def IndexesListed (s : Snapshot) : Prop :=
  ∀ m ∈ s.rows .toolFeatureMethod, ∀ list, s.methodList? m.toolFeatureId = some list →
    s.offersIndex list m.methodIndex = true

theorem indexesListed_iff {s : Snapshot} : s.IndexesListed ↔
    ∀ list index, s.UsesIndex list index → s.offersIndex list index = true := by
  constructor
  · rintro h list _ ⟨m, hm, hlist, rfl⟩
    exact h m hm list hlist
  · exact fun h m hm list hlist => h list m.methodIndex ⟨m, hm, hlist, rfl⟩

theorem MethodsListed.indexesListed {s : Snapshot} (h : s.MethodsListed) : s.IndexesListed := by
  intro m hm list hlist
  obtain ⟨list', hlist', hindex⟩ := h m hm
  obtain rfl := Option.some.inj (hlist.symm.trans hlist')
  exact hindex

/-- The text or the index of a list value is in use, and its list does not offer it. -/
def Lacks (s : Snapshot) (lv : ListValue) : Prop :=
  (s.Uses lv.parameterValueListId lv.value ∧
      s.offers lv.parameterValueListId lv.value = false) ∨
    (s.UsesIndex lv.parameterValueListId lv.valueIndex ∧
      s.offersIndex lv.parameterValueListId lv.valueIndex = false)

section Erase
variable {s : Snapshot} {withClasses : Bool} {going : IdMap} {lv : ListValue}

theorem mem_rows_eraseAll {k : Kind} {row : Row k} :
    row ∈ (s.eraseAll going).rows k ↔ row ∈ s.rows k ∧ going.has k (Row.id k row) = false := by
  rw [rows, table_eraseAll, Ascending.filter, List.mem_filter, Bool.not_eq_true']
  rfl

/-- A text is needed by a row that stays exactly when it is in use without the rows that go. -/
theorem textUser_ne_none_iff :
    s.textUser lv going ≠ none ↔ (s.eraseAll going).Uses lv.parameterValueListId lv.value := by
  constructor
  · intro h
    unfold textUser at h
    split at h
    next d hfound =>
      have hd := List.find?_some hfound
      simp only [boundTo, Bool.and_eq_true, decide_eq_true_eq, Bool.not_eq_true'] at hd
      obtain ⟨⟨hlist, hstays⟩, hdefault⟩ := hd
      have hmem := mem_rows_eraseAll.2 ⟨List.mem_of_find?_eq_some hfound, hstays⟩
      exact ⟨d, hmem, hlist, Or.inl hdefault⟩
    next =>
      rw [ne_eq, Option.map_eq_none_iff] at h
      obtain ⟨v, hfound⟩ := Option.ne_none_iff_exists'.1 h
      have hv := List.find?_some hfound
      simp only [Bool.and_eq_true, decide_eq_true_eq, Bool.not_eq_true', Option.any_eq_true,
        boundTo] at hv
      obtain ⟨⟨hvalue, hvstays⟩, d, hd, hlist, hstays⟩ := hv
      have hid : d.id = v.parameterDefinitionId := id_of_find? hd
      have hmem := mem_rows_eraseAll.2 ⟨mem_rows_of_find? hd, hstays⟩
      have hvmem := mem_rows_eraseAll.2 ⟨List.mem_of_find?_eq_some hfound, hvstays⟩
      exact ⟨d, hmem, hlist, Or.inr ⟨v, hvmem, hid.symm, hvalue⟩⟩
  · rintro ⟨d, hd, hlist, huse⟩
    obtain ⟨hd, hstays⟩ := mem_rows_eraseAll.1 hd
    refine textUser_ne_none hd hlist hstays (huse.imp_right ?_)
    rintro ⟨v, hv, hid, hvalue⟩
    obtain ⟨hv, hvstays⟩ := mem_rows_eraseAll.1 hv
    exact ⟨v, hv, hid, hvalue, hvstays⟩

theorem IsClosed.methodList?_eraseAll (h : s.IsClosed withClasses going) {m : ToolFeatureMethod}
    (hm : m ∈ s.rows .toolFeatureMethod) (hstays : going.has .toolFeatureMethod m.id = false) :
    (s.eraseAll going).methodList? m.toolFeatureId = s.methodList? m.toolFeatureId := by
  have htstays : going.has .toolFeature m.toolFeatureId = false :=
    h.stays (.methodOfToolFeature hm) hstays
  unfold methodList?
  rw [find?_eraseAll, htstays, if_neg Bool.false_ne_true]
  cases ht : s.find? .toolFeature m.toolFeatureId with
  | none => rfl
  | some t =>
    have hid : ToolFeature.id t = m.toolFeatureId := id_of_find? ht
    have hfstays : going.has .feature t.featureId = false := by
      apply h.stays (.toolFeatureOfFeature (mem_rows_of_find? ht))
      rw [hid, htstays]
    simp only [Option.bind_eq_bind, Option.bind_some, find?_eraseAll, hfstays,
      if_neg Bool.false_ne_true]

theorem IsClosed.stays_of_methodList? (h : s.IsClosed withClasses going) {i list : Id}
    (hlist : (s.eraseAll going).methodList? i = some list) :
    going.has .valueList list = false := by
  obtain ⟨t, ht, f, hf, rfl⟩ := methodList?_eq_some_iff.1 hlist
  obtain ⟨hf, hstays⟩ := mem_rows_eraseAll.1 (mem_rows_of_find? hf)
  exact h.stays (.featureOfList hf) hstays

theorem indexUser_ne_none_iff (h : s.IsClosed withClasses going) :
    s.indexUser lv going ≠ none ↔
      (s.eraseAll going).UsesIndex lv.parameterValueListId lv.valueIndex := by
  constructor
  · intro huser
    rw [indexUser, ne_eq, Option.map_eq_none_iff] at huser
    obtain ⟨m, hfound⟩ := Option.ne_none_iff_exists'.1 huser
    have hm := List.find?_some hfound
    simp only [Bool.and_eq_true, decide_eq_true_eq, Bool.not_eq_true', Option.any_eq_true,
      Option.bind_eq_some_iff] at hm
    obtain ⟨⟨hindex, hstays⟩, f, ⟨t, ht, hf⟩, hlist⟩ := hm
    have hmem := List.mem_of_find?_eq_some hfound
    refine ⟨m, mem_rows_eraseAll.2 ⟨hmem, hstays⟩, ?_, hindex⟩
    rw [h.methodList?_eraseAll hmem hstays]
    exact methodList?_eq_some_iff.2 ⟨t, ht, f, hf, hlist⟩
  · rintro ⟨m, hm, hlist, hindex⟩
    obtain ⟨hm, hstays⟩ := mem_rows_eraseAll.1 hm
    rw [h.methodList?_eraseAll hm hstays] at hlist
    exact indexUser_ne_none hm hlist hindex hstays

theorem offeredElsewhere_iff (hgoes : going.has .listValue lv.id = true)
    {alike : ListValue → Bool} : s.offeredElsewhere lv going alike = true ↔
      ∃ v ∈ (s.eraseAll going).rows .listValue,
        v.parameterValueListId = lv.parameterValueListId ∧ alike v = true := by
  rw [offeredElsewhere, Ascending.any, List.any_eq_true]
  simp only [decide_eq_true_eq, Bool.not_eq_true']
  constructor
  · rintro ⟨v, hv, _, hlist, hstays, halike⟩
    exact ⟨v, mem_rows_eraseAll.2 ⟨hv, hstays⟩, hlist, halike⟩
  · rintro ⟨v, hv, hlist, halike⟩
    obtain ⟨hv, hstays⟩ := mem_rows_eraseAll.1 hv
    refine ⟨v, hv, ?_, hlist, hstays, halike⟩
    intro hid
    have hsame : going.has .listValue v.id = false := hstays
    rw [hid, hgoes] at hsame
    cases hsame

/-- A list value that goes is found to be relied on exactly when without the rows that go its text
or its index is in use and not on its list. -/
theorem listUser_ne_none_iff (h : s.IsClosed withClasses going)
    (hgoes : going.has .listValue lv.id = true) :
    s.listUser lv going true true ≠ none ↔ (s.eraseAll going).Lacks lv := by
  have htext : s.offeredElsewhere lv going (·.value = lv.value) =
      (s.eraseAll going).offers lv.parameterValueListId lv.value := by
    rw [Bool.eq_iff_iff, offeredElsewhere_iff hgoes, offers_iff]
    simp only [decide_eq_true_eq]
  have hindex : s.offeredElsewhere lv going (·.valueIndex = lv.valueIndex) =
      (s.eraseAll going).offersIndex lv.parameterValueListId lv.valueIndex := by
    rw [Bool.eq_iff_iff, offeredElsewhere_iff hgoes, offersIndex_iff]
    simp only [decide_eq_true_eq]
  rw [Lacks, ← textUser_ne_none_iff, ← indexUser_ne_none_iff h, ← htext, ← hindex, listUser, ne_eq,
    Option.or_eq_none_iff, Classical.not_and_iff_not_or_not]
  apply or_congr
  · cases s.offeredElsewhere lv going (·.value = lv.value) <;> simp
  · cases s.offeredElsewhere lv going (·.valueIndex = lv.valueIndex) <;> simp

end Erase

section Without
variable {s : Snapshot} {withClasses : Bool} {removed : IdMap}

/-- Texts are in use after a removal as they are without the rows that go, but on lists that stay:
from the others the definitions are detached. -/
theorem uses_without {list : Id} {text : String} : (s.without removed).Uses list text ↔
    removed.has .valueList list = false ∧ (s.eraseAll removed).Uses list text := by
  have hvalues : (s.without removed).rows .parameterValue =
      (s.eraseAll removed).rows .parameterValue := rows_putRows_of_ne (by decide)
  unfold Uses
  rw [hvalues]
  constructor
  · rintro ⟨d', hd', hlist', huser⟩
    obtain ⟨d, hd, hstays, rfl⟩ := of_mem_rows_without hd'
    obtain ⟨hsame, hlist, hkept⟩ := Row.leftBy_of_list hlist'
    rw [hsame] at huser
    exact ⟨hkept, d, mem_rows_eraseAll.2 ⟨hd, hstays⟩, hlist, huser⟩
  · rintro ⟨hkept, d, hd, hlist, huser⟩
    obtain ⟨hmem, hstays⟩ := mem_rows_eraseAll.1 hd
    have hsame : Row.leftBy removed .parameterDefinition d = d := by
      rw [Row.leftBy_definition, hlist]
      exact if_neg (by simpa using hkept)
    refine ⟨d, ?_, hlist, huser⟩
    rw [← hsame]
    exact leftBy_mem_rows_without hmem hstays

theorem offers_without (s : Snapshot) (removed : IdMap) (list : Id) (text : String) :
    (s.without removed).offers list text = (s.eraseAll removed).offers list text :=
  offers_putRows_of_ne (by decide) list text

theorem indexesListed_without :
    (s.without removed).IndexesListed ↔ (s.eraseAll removed).IndexesListed := by
  unfold IndexesListed without
  simp only [rows_putRows_of_ne (show Kind.parameterDefinition ≠ .toolFeatureMethod by decide),
    methodList?_putRows_of_ne (show Kind.parameterDefinition ≠ .toolFeature by decide)
      (show Kind.parameterDefinition ≠ .feature by decide),
    offersIndex_putRows_of_ne (show Kind.parameterDefinition ≠ .listValue by decide)]

theorem uses_of_eraseAll {list : Id} {text : String} (h : (s.eraseAll removed).Uses list text) :
    s.Uses list text := by
  obtain ⟨d, hd, hlist, huser⟩ := h
  refine ⟨d, (mem_rows_eraseAll.1 hd).1, hlist, huser.imp_right ?_⟩
  rintro ⟨v, hv, hid, hvalue⟩
  exact ⟨v, (mem_rows_eraseAll.1 hv).1, hid, hvalue⟩

theorem IsClosed.usesIndex_of_eraseAll (h : s.IsClosed withClasses removed) {list : Id}
    {index : Int} (huse : (s.eraseAll removed).UsesIndex list index) : s.UsesIndex list index := by
  obtain ⟨m, hm, hlist, hindex⟩ := huse
  obtain ⟨hm, hstays⟩ := mem_rows_eraseAll.1 hm
  rw [h.methodList?_eraseAll hm hstays] at hlist
  exact ⟨m, hm, hlist, hindex⟩

/-- Nothing is lacking of the list values that go exactly when a removal leaves all texts and
indexes in use on their lists. -/
theorem IsClosed.free_iff (h : s.IsClosed withClasses removed) (hlisted : s.Listed)
    (hindexes : s.IndexesListed) :
    (∀ lv ∈ s.rows .listValue, removed.has .listValue lv.id = true →
        removed.has .valueList lv.parameterValueListId = false →
        ¬ (s.eraseAll removed).Lacks lv) ↔
      (s.without removed).Listed ∧ (s.without removed).IndexesListed := by
  rw [indexesListed_without, indexesListed_iff, listed_iff]
  simp only [uses_without, offers_without, and_imp]
  rw [indexesListed_iff] at hindexes
  rw [listed_iff] at hlisted
  constructor
  · intro hfree
    constructor
    · intro list text hstays huse
      obtain ⟨a, ha, rfl, rfl⟩ := offers_iff.1 (hlisted list text (uses_of_eraseAll huse))
      cases hgoes : removed.has .listValue a.id with
      | false => exact offers_iff.2 ⟨a, mem_rows_eraseAll.2 ⟨ha, hgoes⟩, rfl, rfl⟩
      | true =>
        rw [← Bool.not_eq_false]
        exact fun hlost => hfree a ha hgoes hstays (Or.inl ⟨huse, hlost⟩)
    · intro list index huse
      have hstays : removed.has .valueList list = false := by
        obtain ⟨_, _, hlist, _⟩ := huse
        exact h.stays_of_methodList? hlist
      obtain ⟨a, ha, rfl, rfl⟩ :=
        offersIndex_iff.1 (hindexes list index (h.usesIndex_of_eraseAll huse))
      cases hgoes : removed.has .listValue a.id with
      | false => exact offersIndex_iff.2 ⟨a, mem_rows_eraseAll.2 ⟨ha, hgoes⟩, rfl, rfl⟩
      | true =>
        rw [← Bool.not_eq_false]
        exact fun hlost => hfree a ha hgoes hstays (Or.inr ⟨huse, hlost⟩)
  · rintro ⟨htexts, hmethods⟩ lv _ _ hstays (⟨huse, hlost⟩ | ⟨huse, hlost⟩)
    · rw [htexts _ _ hstays huse] at hlost
      cases hlost
    · rw [hmethods _ _ huse] at hlost
      cases hlost

end Without

/-- Just these list values of a removal set are refused: those without their list of which something
is lacking once the set is erased. -/
theorem exists_mem_keptValues_iff {s : Snapshot} {withClasses : Bool} {removed : IdMap}
    (h : s.IsClosed withClasses removed) (i : Id) :
    (∃ r ∈ s.keptValues removed, r.id = some i) ↔ ∃ lv, s.find? .listValue i = some lv ∧
      removed.has .listValue i = true ∧
      removed.has .valueList lv.parameterValueListId = false ∧ (s.eraseAll removed).Lacks lv := by
  have hrefused : (∃ r ∈ s.keptValues removed, r.id = some i) ↔
      (refusedIds (s.keptValues removed)).contains i = true := by
    rw [refusedIds, IdSet.contains_ofIds, decide_eq_true_iff, List.mem_filterMap]
  rw [hrefused, contains_refusedIds, ne_eq, keptValue_eq_none_iff]
  push Not
  constructor
  · rintro ⟨hgoes, lv, hfind, hlist, huser⟩
    have hid : ListValue.id lv = i := id_of_find? hfind
    exact ⟨lv, hfind, hgoes, hlist, (listUser_ne_none_iff h (hid ▸ hgoes)).1 huser⟩
  · rintro ⟨lv, hfind, hgoes, hlist, hlacks⟩
    have hid : ListValue.id lv = i := id_of_find? hfind
    exact ⟨hgoes, lv, hfind, hlist, (listUser_ne_none_iff h (hid ▸ hgoes)).2 hlacks⟩

/-- The check of a removal set refuses just the list values without their list of which something is
lacking once the set is erased. So, where all texts and indexes in use are on their lists, it
refuses nothing exactly when they still are after the removal. -/
theorem checkRemoval_exact {s : Snapshot} {withClasses : Bool} {roots removed : IdMap}
    (hcomplete : s.isComplete = true) (hlisted : s.Listed) (hindexes : s.IndexesListed)
    (hcascade : s.cascade withClasses roots = .ok removed) :
    ∃ kept, s.checkRemoval removed = .ok kept ∧
      (∀ i, (∃ r ∈ kept, r.id = some i) ↔ ∃ lv, s.find? .listValue i = some lv ∧
        removed.has .listValue i = true ∧
        removed.has .valueList lv.parameterValueListId = false ∧
        (s.eraseAll removed).Lacks lv) ∧
      (kept = [] ↔ (s.without removed).Listed ∧ (s.without removed).IndexesListed) := by
  have hclosed : s.IsClosed withClasses removed := by
    obtain rfl := eq_of_cascade_eq_ok hcascade
    exact isClosed_closure s withClasses roots.nodes
  have hreported := exists_mem_keptValues_iff hclosed
  refine ⟨s.keptValues removed, by rw [checkRemoval, if_pos hcomplete], hreported, ?_⟩
  rw [← hclosed.free_iff hlisted hindexes, List.eq_nil_iff_forall_not_mem]
  constructor
  · intro hnone lv hlv hgoes hlist hlacks
    obtain ⟨r, hr, _⟩ := (hreported lv.id).2 ⟨lv, mem_rows_iff.1 hlv, hgoes, hlist, hlacks⟩
    exact hnone r hr
  · intro hfree r hr
    obtain ⟨i, _, hkept⟩ := mem_keptValues_iff.1 hr
    obtain ⟨lv, hfind, hgoes, hlist, hlacks⟩ :=
      (hreported i).1 ⟨r, hr, (of_keptValue hkept).1⟩
    have hid : Row.id .listValue lv = i := id_of_find? hfind
    exact hfree lv (mem_rows_of_find? hfind) (hid ▸ hgoes) hlist hlacks

/-- Of two list values that go without their list, the one whose index a method has is refused. -/
theorem checkRemoval_pumps :
    let s := Workspace.pumpsSession.snapshot
    let going := IdMap.ofNodes [(.listValue, 1), (.listValue, 2)]
    s.checkRemoval going =
        .ok [⟨.listValue, .remove, some 2, .listValueKept "off" (.method 1)⟩] ∧
      (s.eraseAll going).Lacks ⟨2, 1, 1, "off"⟩ ∧
      ¬ ((s.without going).Listed ∧ (s.without going).IndexesListed) := by
  intro s going
  have hcheck : s.checkRemoval going =
      .ok [⟨.listValue, .remove, some 2, .listValueKept "off" (.method 1)⟩] := by cbv
  have hcascade : s.cascade true going = .ok going := by cbv
  obtain ⟨kept, hkept, hreported, hfree⟩ := checkRemoval_exact (by decide) Workspace.listed_pumps
    Workspace.methodsListed_pumps.indexesListed hcascade
  obtain rfl := Except.ok.inj (hcheck.symm.trans hkept)
  refine ⟨hcheck, ?_, fun hstill => List.cons_ne_nil _ _ (hfree.2 hstill)⟩
  obtain ⟨lv, hfind, _, _, hlacks⟩ := (hreported 2).1 ⟨_, List.mem_singleton_self _, rfl⟩
  obtain rfl : (⟨2, 1, 1, "off"⟩ : ListValue) = lv := Option.some.inj hfind
  exact hlacks

end EntityStore.Snapshot
