import EntityStore.Conninfo
import EntityStore.Proofs.Settings.Precedence
/-!
# The port of a connection

Settings are judged by the number that the port begins with, and a connection is given the port as
it is written. So settings that are found valid give a connection a text that begins with a port,
and it is a port exactly if nothing follows the digits (`port_of_valid`); what follows them is not
looked at (`port_with_rest`).
-/
namespace EntityStore.Settings
open Text

/-- A port as a text: blanks, a sign and the digits of the port, and nothing after them. -/
def IsPort (port : String) : Prop := ∃ i, Leads port.toList i [] ∧ 1 ≤ i ∧ i ≤ 65535

theorem not_readsAsPort_empty : ¬ReadsAsPort "" := by
  rw [readsAsPort_iff]
  rintro ⟨i, hread, -⟩
  cases hread

theorem isPort_iff {port : String} {i : Int} {rest : List Char} (h : Leads port.toList i rest)
    (hlow : 1 ≤ i) (hhigh : i ≤ 65535) : IsPort port ↔ rest = [] := by
  constructor
  · rintro ⟨j, hport, -⟩
    exact (h.unique hport).2
  · rintro rfl
    exact ⟨i, h, hlow, hhigh⟩

theorem port_mem_pairs_iff {c : Conninfo} (h : c.port ≠ "") {port : String} :
    ("port", port) ∈ c.pairs ↔ port = c.port := by
  simp only [Conninfo.pairs, List.mem_filter, List.mem_cons, Prod.mk.injEq, String.reduceEq,
    false_and, true_and, false_or, List.not_mem_nil, or_false, decide_eq_true_eq,
    and_iff_left_iff_imp]
  rintro rfl
  exact h

variable (s : Settings) (env : Environment) (file : File)

/-- The port that a connection is given by settings that were found valid: it is the text that was
determined and judged, it begins with a port, and it is one exactly if nothing follows. -/
theorem port_of_valid (env' : Environment) (h : (s.load env file).valid = true) :
    ∃ port i rest,
      (∀ p, ("port", p) ∈ (Conninfo.ofSettings (s.load env file).settings env').pairs ↔
        p = port) ∧
      Determines s env file.text "db.port" (some port) ∧ Leads port.toList i rest ∧ 1 ≤ i ∧
      i ≤ 65535 ∧ (IsPort port ↔ rest = []) := by
  obtain ⟨⟨port, hport, hreads⟩, -⟩ := (validate_valid_iff (s.layered env file)).1 h
  obtain ⟨i, rest, hleads, hlow, hhigh⟩ := hreads
  have hgiven : (Conninfo.ofSettings (s.load env file).settings env').port = port := by
    show (s.load env file).settings.text "db.port" _ = port
    rw [text, get?_load, corrected_of_ne (by decide), hport]
    rfl
  have hne : port ≠ "" := by
    rintro rfl
    exact not_readsAsPort_empty ⟨i, rest, hleads, hlow, hhigh⟩
  refine ⟨port, i, rest, fun p => ?_, (determines_iff s env file).2 hport.symm, hleads, hlow, hhigh,
    isPort_iff hleads hlow hhigh⟩
  rw [port_mem_pairs_iff (hgiven ▸ hne), hgiven]

/-- An environment that gives the port alone. -/
def portAlone (port : String) : Environment := Environment.ofList [("ERGRAPH_DB_PORT", port)]

/-- A blank and a sign may stand before the digits. -/
theorem port_of_valid_signed :
    (load ∅ (portAlone " +6543") .none).valid = true ∧
      ("port", " +6543") ∈
        (Conninfo.ofSettings (load ∅ (portAlone " +6543") .none).settings ∅).pairs ∧
      IsPort " +6543" := by
  have hvalid : (load ∅ (portAlone " +6543") .none).valid = true := by decide
  have hmem : ("port", " +6543") ∈
      (Conninfo.ofSettings (load ∅ (portAlone " +6543") .none).settings ∅).pairs := by decide
  obtain ⟨port, i, rest, hpairs, -, hleads, -, -, hport⟩ := port_of_valid ∅ _ .none ∅ hvalid
  obtain rfl := (hpairs " +6543").1 hmem
  have hrest : rest = [] := (leads_iff.1 hleads).2
  exact ⟨hvalid, hmem, hport.2 hrest⟩

/-- Letters after the digits pass. -/
theorem port_with_rest :
    (load ∅ (portAlone "5432abc") .none).valid = true ∧
      ("port", "5432abc") ∈ (Conninfo.ofSettings (load ∅ (portAlone "5432abc") .none).settings
        (portAlone "5432abc")).pairs ∧
      ¬IsPort "5432abc" := by
  refine ⟨by decide, by decide, ?_⟩
  rintro ⟨i, hleads, -⟩
  exact absurd (leads_iff.1 hleads).2 (by decide)

end EntityStore.Settings
