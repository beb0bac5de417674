import EntityStore.Proofs.Check.Keys
import EntityStore.Proofs.Invariant.Typing
import EntityStore.Proofs.Rules.ListUse
/-!
# Texts in use are on their lists

A definition bound to a list takes its default and its values from the list. Inserts and removals
keep this, and so do updates of every kind but one: updates of list values are held against the rows
before the batch, so a list that offers a text more than once can lose it in a single batch, one
list value giving way to the other. That is the only way to lose a text in use, and in a history in
which it does not happen every text in use stays on its list (`Workspace.run_listed_iff`).
-/
namespace EntityStore

namespace Snapshot

/-- The default and the values of every definition bound to a list are texts of the list. -/
def Listed (s : Snapshot) : Prop :=
  ∀ d ∈ s.rows .parameterDefinition, ∀ list, d.parameterValueListId = some list →
    (∀ text, d.defaultValue = some text → s.offers list text = true) ∧
      ∀ v ∈ s.rows .parameterValue, v.parameterDefinitionId = d.id → s.offers list v.value = true

theorem listed_iff {s : Snapshot} :
    s.Listed ↔ ∀ list text, s.Uses list text → s.offers list text = true := by
  constructor
  · rintro h list text ⟨d, hd, hlist, hdefault | ⟨v, hv, hid, rfl⟩⟩
    · exact (h d hd list hlist).1 text hdefault
    · exact (h d hd list hlist).2 v hv hid
  · intro h d hd list hlist
    constructor
    · exact fun text hdefault => h list text ⟨d, hd, hlist, Or.inl hdefault⟩
    · exact fun v hv hid => h list v.value ⟨d, hd, hlist, Or.inr ⟨v, hv, hid, rfl⟩⟩

instance (s : Snapshot) : Decidable s.Listed :=
  inferInstanceAs (Decidable (∀ d ∈ s.rows .parameterDefinition,
    ∀ list ∈ (d : ParameterDefinition).parameterValueListId,
      (∀ text ∈ (d : ParameterDefinition).defaultValue, s.offers list text = true) ∧
        ∀ v ∈ s.rows .parameterValue, (v : ParameterValue).parameterDefinitionId =
          (d : ParameterDefinition).id → s.offers list (v : ParameterValue).value = true))

/-- The values of a definition are on the list that it is bound to. -/
def Fits (s : Snapshot) (d : ParameterDefinition) : Prop :=
  ∀ list, d.parameterValueListId = some list →
    ∀ v ∈ s.rows .parameterValue, v.parameterDefinitionId = d.id → s.offers list v.value = true

theorem Listed.fits {s : Snapshot} (h : s.Listed) {d : ParameterDefinition}
    (hd : d ∈ s.rows .parameterDefinition) : s.Fits d :=
  fun list hlist => (h d hd list hlist).2

section Put
variable {s : Snapshot} {withClasses : Bool} {k : Kind} {rows : List (Row k)}

/-- After valid rows are put, a text in use was offered before, if the values that were there fit
the definitions. -/
theorem Listed.offers_of_uses_putRows (h : s.Listed) (hv : ∀ row ∈ rows, Row.Valid s k row)
    (hfits : ∀ d ∈ (s.putRows k rows).rows .parameterDefinition, s.Fits d)
    {list : Id} {text : String} (huse : (s.putRows k rows).Uses list text) :
    s.offers list text = true := by
  rcases huse with ⟨d, hd, hlist, hdefault | ⟨v, hmem, hid, rfl⟩⟩
  · by_cases hk : k = .parameterDefinition
    · subst hk
      rcases mem_or_mem_of_mem_putRows hd with hnew | hold
      · exact ((hv d hnew).2.2 list hlist).2 text hdefault
      · exact (h d hold list hlist).1 text hdefault
    · rw [rows_putRows_of_ne hk] at hd
      exact (h d hd list hlist).1 text hdefault
  · by_cases hk : k = .parameterValue
    · subst hk
      rcases mem_or_mem_of_mem_putRows hmem with hnew | hold
      · rcases hv v hnew with ⟨_, _, d', hd', _, hoffers⟩
        rw [rows_putRows_of_ne (by decide)] at hd
        have hfind : s.find? .parameterDefinition v.parameterDefinitionId = some d := by
          rw [hid]
          exact mem_rows_iff.1 hd
        obtain rfl : d' = d := Option.some.inj (hd'.symm.trans hfind)
        exact hoffers list hlist
      · exact hfits d hd list hlist v hold hid
    · rw [rows_putRows_of_ne hk] at hmem
      exact hfits d hd list hlist v hmem hid

/-- Inserts take no text from a list, and new definitions have no values yet. -/
theorem Listed.inserted (h : s.Listed) (hres : s.Resolved withClasses)
    (hv : ∀ row ∈ rows, Row.Valid s k row)
    (hfresh : ∀ row ∈ rows, s.contains k (Row.id k row) = false) : (s.putRows k rows).Listed := by
  apply listed_iff.2
  intro list text huse
  have hoffers := h.offers_of_uses_putRows hv ?_ huse
  · rcases offers_iff.1 hoffers with ⟨v, hv, hlist, htext⟩
    refine offers_iff.2 ⟨v, mem_rows_iff.2 ?_, hlist, htext⟩
    exact find?_putRows_of_fresh hfresh (mem_rows_iff.1 hv)
  · intro d hd
    by_cases hk : k = .parameterDefinition
    · subst hk
      rcases mem_or_mem_of_mem_putRows hd with hnew | hold
      · intro list _ v hmem hid
        have hdefinition := hres .parameterValue v hmem
          (.parameterDefinition, v.parameterDefinitionId) (by simp [Row.references])
        have hnot : s.contains .parameterDefinition d.id = false := hfresh d hnew
        rw [hid] at hdefinition
        exact absurd (hdefinition.symm.trans hnot) (by decide)
      · exact h.fits hold
    · rw [rows_putRows_of_ne hk] at hd
      exact h.fits hd

end Put

/-- Two list values of a list have the text. -/
def OffersTwice (s : Snapshot) (list : Id) (text : String) : Prop :=
  ∃ a ∈ s.rows .listValue, ∃ b ∈ s.rows .listValue, a.id ≠ b.id ∧
    a.parameterValueListId = list ∧ a.value = text ∧ b.parameterValueListId = list ∧ b.value = text

section Update
variable {s : Snapshot} {k : Kind} {changes : List Record} {strict : Bool}
  {checked : CheckResult k}

/-- Updated definitions fit their values: each revision of one keeps its list or takes a list that
offers all of them. -/
theorem Listed.fits_of_checkUpdate (h : s.Listed) {checked : CheckResult .parameterDefinition}
    (check : s.checkUpdate .parameterDefinition changes strict = .ok checked) :
    ∀ d ∈ checked.accepted, s.Fits d := by
  refine accepted_of_checkUpdate (P := s.Fits) (fun d hd => h.fits hd) ?_ check
  intro before d hbefore hrevises list hlist v hv hid
  have hsame : d.id = before.id := hrevises.id_eq
  rcases ParameterDefinition.list_of_revises hrevises with heq | ⟨_, hnew⟩
  · exact hbefore list (heq ▸ hlist) v hv (hid.trans hsame)
  · exact hnew list hlist v hv (hid.trans hsame)

theorem Listed.offers_of_uses_updated (h : s.Listed)
    (check : s.checkUpdate k changes strict = .ok checked) {list : Id} {text : String}
    (huse : (s.putRows k (checked.accepted.map (Row.stored k))).Uses list text) :
    s.offers list text = true := by
  refine h.offers_of_uses_putRows (valid_of_updated check) ?_ huse
  intro d hd
  by_cases hk : k = .parameterDefinition
  · subst hk
    rcases mem_or_mem_of_mem_putRows hd with hnew | hold
    · rcases List.mem_map.1 hnew with ⟨d, haccepted, rfl⟩
      exact h.fits_of_checkUpdate check d haccepted
    · exact h.fits hold
  · rw [rows_putRows_of_ne hk] at hd
    exact h.fits hd

theorem offers_putRows_of_ne {rows : List (Row k)} (hk : k ≠ .listValue) (list : Id)
    (text : String) : (s.putRows k rows).offers list text = s.offers list text := by
  rw [Bool.eq_iff_iff, offers_iff, offers_iff, rows_putRows_of_ne hk]

theorem uses_putRows_listValue {rows : List ListValue} {list : Id} {text : String} :
    (s.putRows .listValue rows).Uses list text ↔ s.Uses list text := by
  rw [Uses, Uses, rows_putRows_of_ne (by decide), rows_putRows_of_ne (by decide)]

theorem value_of_revises {before v : ListValue} (h : Row.Revises s .listValue before v)
    (huse : s.Uses before.parameterValueListId before.value)
    (honly : ∀ b ∈ s.rows .listValue, b.parameterValueListId = before.parameterValueListId →
      b.value = before.value → b.id = before.id) : v.value = before.value := by
  by_contra hchanged
  have hunused := (ListValue.of_revises h).2
  have hgoes : before.value ≠ v.value := Ne.symm hchanged
  rw [decide_eq_true hgoes] at hunused
  rcases huse with ⟨d, hd, hbound, huser⟩
  have hfound : s.textUser before ∅ ≠ none := by
    apply textUser_ne_none hd hbound rfl
    rcases huser with hdefault | ⟨w, hw, hwd, hwv⟩
    · exact Or.inl hdefault
    · exact Or.inr ⟨w, hw, hwd, hwv, rfl⟩
  rcases exists_other_of_listUser hunused hfound with ⟨b, hb, hne, hlist, _, htext⟩
  exact hne (honly b hb hlist htext)

/-- The only list value with a text in use keeps it in a batch of updates. -/
theorem keeps_of_only {checked : CheckResult .listValue}
    (check : s.checkUpdate .listValue changes strict = .ok checked) {a : ListValue}
    (ha : a ∈ s.rows .listValue) (huse : s.Uses a.parameterValueListId a.value)
    (honly : ∀ b ∈ s.rows .listValue, b.parameterValueListId = a.parameterValueListId →
      b.value = a.value → b.id = a.id) :
    ∀ v ∈ checked.accepted, v.id = a.id →
      v.parameterValueListId = a.parameterValueListId ∧ v.value = a.value := by
  refine accepted_of_checkUpdate (P := fun v : ListValue => v.id = a.id →
    v.parameterValueListId = a.parameterValueListId ∧ v.value = a.value) ?_ ?_ check
  · intro v hv hid
    rw [eq_of_id_eq hv ha hid]
    exact ⟨rfl, rfl⟩
  · intro before v hbefore hrevises hid
    have hsame : before.id = a.id := hrevises.id_eq.symm.trans hid
    rcases hbefore hsame with ⟨hlist, htext⟩
    constructor
    · exact (ListValue.of_revises hrevises).1.trans hlist
    · rw [← hlist, ← htext] at huse
      rw [value_of_revises hrevises huse, htext]
      intro b hb hblist hbtext
      exact (honly b hb (hblist.trans hlist) (hbtext.trans htext)).trans hsame.symm

/-- A list that loses a text in use to updates of list values offered it more than once. -/
theorem offersTwice_of_withdrawn {checked : CheckResult .listValue}
    (check : s.checkUpdate .listValue changes strict = .ok checked) {list : Id} {text : String}
    (huse : s.Uses list text) (hbefore : s.offers list text = true)
    (hafter : (s.putRows .listValue (checked.accepted.map (Row.stored .listValue))).offers list
      text = false) : s.OffersTwice list text := by
  rcases offers_iff.1 hbefore with ⟨a, ha, rfl, rfl⟩
  by_contra honce
  have honly (b : ListValue) (hb : b ∈ s.rows .listValue)
      (hlist : b.parameterValueListId = a.parameterValueListId) (htext : b.value = a.value) :
      b.id = a.id := by
    by_contra hne
    exact honce ⟨b, hb, a, ha, hne, hlist, htext, rfl, rfl⟩
  have hcontains : (s.putRows .listValue (checked.accepted.map (Row.stored .listValue))).contains
      .listValue a.id = true := contains_putRows_of_contains (contains_of_mem ha)
  rcases contains_iff.1 hcontains with ⟨v, hv⟩
  rw [← Bool.not_eq_true, offers_iff] at hafter
  apply hafter
  rcases find?_putRows_cases hv with ⟨hput, hid⟩ | ⟨hold, _⟩
  · rcases List.mem_map.1 hput with ⟨w, hw, rfl⟩
    rcases keeps_of_only check ha huse honly w hw hid with ⟨hlist, htext⟩
    exact ⟨w, mem_rows_of_find? hv, hlist, htext⟩
  · rw [show s.find? .listValue a.id = some a from mem_rows_iff.1 ha] at hold
    obtain rfl := Option.some.inj hold
    exact ⟨a, mem_rows_of_find? hv, rfl, rfl⟩

end Update

/-- A removal that nothing stands against leaves every text in use on its list. -/
theorem Listed.without {s : Snapshot} (h : s.Listed) {removed : IdMap}
    (hfree : s.keptValues removed = []) : (s.without removed).Listed := by
  rw [listed_iff] at *
  intro list text huse
  rcases huse with ⟨d', hd', hlist', huser'⟩
  rcases of_mem_rows_without hd' with ⟨d, hd, hstays, rfl⟩
  rcases Row.leftBy_of_list hlist' with ⟨hsame, hlist, hkept⟩
  rw [hsame] at huser'
  have huser : d.defaultValue = some text ∨ ∃ v ∈ s.rows .parameterValue,
      v.parameterDefinitionId = d.id ∧ v.value = text ∧
        removed.has .parameterValue v.id = false := by
    rcases huser' with hdefault | ⟨v', hv', hid, htext⟩
    · exact Or.inl hdefault
    · rcases of_mem_rows_without hv' with ⟨v, hv, hvstays, rfl⟩
      exact Or.inr ⟨v, hv, hid, htext, hvstays⟩
  have hoffers : s.offers list text = true := by
    apply h list text
    refine ⟨d, hd, hlist, huser.imp_right ?_⟩
    rintro ⟨v, hv, hid, htext, _⟩
    exact ⟨v, hv, hid, htext⟩
  rcases offers_iff.1 hoffers with ⟨a, ha, rfl, rfl⟩
  cases hgoes : removed.has .listValue a.id with
  | false => exact offers_iff.2 ⟨a, leftBy_mem_rows_without ha hgoes, rfl, rfl⟩
  | true =>
    have hunused := listUser_of_keptValues hfree ha hgoes hkept
    rcases exists_other_of_listUser hunused (textUser_ne_none hd hlist hstays huser) with
      ⟨b, hb, _, hblist, hbstays, hbtext⟩
    exact offers_iff.2 ⟨b, leftBy_mem_rows_without hb hbstays, hblist, hbtext⟩

/-- `s.Withdraws s'`: a list that offers a text in use more than once in `s` does not offer it in
`s'`. -/
def Withdraws (s s' : Snapshot) : Prop :=
  ∃ list text, s.Uses list text ∧ s.OffersTwice list text ∧ s'.offers list text = false

/-- A single update of a list value withdraws nothing: one of the two that offer a text stays. -/
theorem not_withdraws_of_length_le_one {s : Snapshot} {changes : List Record} {strict : Bool}
    {checked : CheckResult .listValue}
    (check : s.checkUpdate .listValue changes strict = .ok checked) (h : changes.length ≤ 1) :
    ¬ s.Withdraws (s.putRows .listValue (checked.accepted.map (Row.stored .listValue))) := by
  rintro ⟨list, text, _, ⟨a, ha, b, hb, hne, halist, hatext, hblist, hbtext⟩, hlost⟩
  have hlength := Nat.le_trans (length_accepted_le_of_checkUpdate check) h
  have hstays (v : ListValue) (hv : v ∈ s.rows .listValue) (hlist : v.parameterValueListId = list)
      (htext : v.value = text) : ∃ row ∈ checked.accepted, row.id = v.id := by
    by_contra hnone
    rw [← Bool.not_eq_true, offers_iff] at hlost
    refine hlost ⟨v, mem_rows_iff.2 ?_, hlist, htext⟩
    rw [find?_putRows_of_forall_ne, mem_rows_iff.1 hv]
    intro r hr hid
    rcases List.mem_map.1 hr with ⟨row, hrow, rfl⟩
    exact hnone ⟨row, hrow, hid⟩
  rcases hstays a ha halist hatext with ⟨row, hrow, hrowa⟩
  rcases hstays b hb hblist hbtext with ⟨row', hrow', hrowb⟩
  have hsame : row = row' := by
    match hc : checked.accepted with
    | [] =>
      rw [hc] at hrow
      cases hrow
    | [r] =>
      rw [hc, List.mem_singleton] at hrow hrow'
      rw [hrow, hrow']
    | r :: r' :: rs =>
      rw [hc, List.length_cons, List.length_cons] at hlength
      omega
  exact hne (hrowa.symm.trans ((congrArg ListValue.id hsame).trans hrowb))

/-- A call keeps the texts in use on their lists, unless it is an update of list values that
withdraws one. -/
theorem Listed.change_iff {o : Options} {c : Call} {s s' : Snapshot} (hchange : s.Change o c s')
    (hres : s.Resolved o.withClasses) (h : s.Listed) :
    s'.Listed ↔
      ¬ ((∃ changes strict, c = .update .listValue changes strict) ∧ s.Withdraws s') := by
  constructor
  · rintro hlisted ⟨⟨changes, strict, rfl⟩, list, text, huse, _, hlost⟩
    cases hchange with
    | update check =>
      rw [listed_iff.1 hlisted list text (uses_putRows_listValue.2 huse)] at hlost
      cases hlost
  · intro hno
    cases hchange with
    | insert check fresh =>
      exact h.inserted hres (valid_of_inserted check) (fresh_of_inserted fresh)
    | remove sub set free => exact h.without free
    | @update k changes strict checked check =>
      apply listed_iff.2
      intro list text huse
      have hbefore := h.offers_of_uses_updated check huse
      by_cases hk : k = .listValue
      · subst hk
        rw [← Bool.not_eq_false]
        intro hlost
        have huse := uses_putRows_listValue.1 huse
        exact hno ⟨⟨changes, strict, rfl⟩, list, text, huse,
          offersTwice_of_withdrawn check huse hbefore hlost, hlost⟩
      · rw [offers_putRows_of_ne hk, hbefore]

end Snapshot

/-- An update of list values by which a list stops offering a text in use that it offered more than
once. -/
def Event.Withdraws (o : Options) (w : Workspace) (e : Event) : Prop :=
  (∃ changes strict, e = .call (.update .listValue changes strict)) ∧
    w.session.snapshot.Withdraws (w.react o e).session.snapshot

namespace Workspace

theorem react_listed_iff {o : Options} {w : Workspace} (hcovers : w.Covers)
    (hres : w.session.snapshot.Resolved o.withClasses) (h : w.session.snapshot.Listed) {e : Event}
    (he : e.isChecked = true) :
    (w.react o e).session.snapshot.Listed ↔ ¬ e.Withdraws o w := by
  rcases react_change (o := o) hcovers he with ⟨_, hsame | ⟨c, rfl, hchange⟩⟩
  · rw [Event.Withdraws, hsame]
    constructor
    · rintro _ ⟨_, list, text, huse, _, hlost⟩
      rw [Snapshot.listed_iff.1 h list text huse] at hlost
      cases hlost
    · exact fun _ => h
  · rw [h.change_iff hchange hres, Event.Withdraws]
    simp only [Event.call.injEq]

/-- Let every reference resolve and every text in use be on its list in a session that was just
opened. Then all texts in use stay on their lists throughout a checked history exactly as long as
no update of list values withdraws one. -/
theorem run_listed_iff (o : Options) (store : Store) (session : Session) (events : List Event)
    (hopen : Session.open store = .ok session)
    (hresolved : session.snapshot.Resolved o.withClasses) (hlisted : session.snapshot.Listed)
    (hchecked : ∀ e ∈ events, e.isChecked = true) :
    (∀ first, first <+: events →
      ((⟨store, session⟩ : Workspace).run o first).session.snapshot.Listed) ↔
    ∀ first e, first ++ [e] <+: events →
      ¬ e.Withdraws o ((⟨store, session⟩ : Workspace).run o first) := by
  apply run_prefixes_iff (I := fun w => w.Covers ∧ w.session.snapshot.Resolved o.withClasses)
    (P := fun w => w.session.snapshot.Listed) (B := fun w e => e.Withdraws o w) _ _
    ⟨covers_of_open hopen, hresolved⟩ hlisted hchecked
  · exact fun w e he hw => react_keeps (P := fun s => s.Resolved o.withClasses)
      (fun _ _ _ hchange hres => hres.change hchange) he hw
  · rintro w e he ⟨hcovers, hres⟩ htexts
    exact react_listed_iff hcovers hres htexts he

/-- A list that offers one text twice, and a definition whose default it is. -/
def modes : Store :=
  (((Store.empty.seed .entityClass [⟨1, "tank", none, []⟩]).seed .valueList [⟨1, "modes"⟩]).seed
    .listValue [⟨1, 1, 0, "on"⟩, ⟨2, 1, 1, "on"⟩]).seed .parameterDefinition
    [⟨1, 1, "mode", some "on", some 1, none, .any⟩]

def modesSession : Session :=
  { snapshot := (((Snapshot.empty.put .entityClass ⟨1, "tank", none, []⟩).put .valueList
      ⟨1, "modes"⟩).putRows .listValue [⟨1, 1, 0, "on"⟩, ⟨2, 1, 1, "on"⟩]).put
      .parameterDefinition ⟨1, 1, "mode", some "on", some 1, none, .any⟩
    added := ∅
    removed := ∅ }

/-- A change of the text of a list value. -/
def renamed (i : Id) (text : String) : Record :=
  .ofFields [("id", some (.int i)), ("value", some (.text text))]

theorem open_modes : Session.open modes = .ok modesSession := by cbv

theorem listed_modes : modesSession.snapshot.Listed := by decide

theorem resolved_modes : modesSession.snapshot.Resolved true := by decide

theorem run_modes_listed_iff :
    (∀ first, first <+: [Event.call (.update .listValue [renamed 1 "off"] none),
        .call (.remove (.ofNodes [(.valueList, 1)]) none)] →
      ((⟨modes, modesSession⟩ : Workspace).run ⟨"writer", false, true⟩
        first).session.snapshot.Listed) ↔
    ∀ first e, first ++ [e] <+: [Event.call (.update .listValue [renamed 1 "off"] none),
        .call (.remove (.ofNodes [(.valueList, 1)]) none)] →
      ¬ e.Withdraws ⟨"writer", false, true⟩
        ((⟨modes, modesSession⟩ : Workspace).run ⟨"writer", false, true⟩ first) :=
  run_listed_iff ⟨"writer", false, true⟩ modes modesSession _ open_modes resolved_modes
    listed_modes (by decide)

theorem wellTyped_modes : modesSession.snapshot.WellTyped true := by
  intro k row hrow
  cases k with
  | entityClass =>
    intro _ member hm
    rw [List.mem_singleton.1 hrow] at hm
    cases hm
  | parameterDefinition | valueList | listValue => trivial
  | _ => cases hrow

theorem keysDiffer_modes : modesSession.snapshot.KeysDiffer := by decide

/-- The references of a session resolve, its rows agree, its keys differ and its texts in use are on
their lists. Two list values of one text, renamed in one batch, leave a default that its list does
not offer. -/
theorem run_modes_not_listed :
    Session.open modes = .ok modesSession ∧ modesSession.snapshot.Resolved true ∧
      modesSession.snapshot.WellTyped true ∧ modesSession.snapshot.Listed ∧
      modesSession.snapshot.KeysDiffer ∧
      ¬ ((⟨modes, modesSession⟩ : Workspace).run {} [.call (.update .listValue
        [renamed 1 "off", renamed 2 "idle"] none)]).session.snapshot.Listed := by
  refine ⟨open_modes, resolved_modes, wellTyped_modes, listed_modes, keysDiffer_modes, ?_⟩
  have hrun : ((⟨modes, modesSession⟩ : Workspace).run {} [.call (.update .listValue
      [renamed 1 "off", renamed 2 "idle"] none)]).session.snapshot =
      modesSession.snapshot.putRows .listValue [⟨1, 1, 0, "off"⟩, ⟨2, 1, 1, "idle"⟩] := by cbv
  rw [hrun]
  decide

end Workspace

end EntityStore
