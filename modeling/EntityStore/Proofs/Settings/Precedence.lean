import EntityStore.Proofs.Settings.File
import EntityStore.Proofs.Text.Integer
import EntityStore.Settings.Load
/-!
# What decides on a setting

The last line of the settings file for a key decides on it, else the variable of a known key or its
fallback, else the setting stays as it is (`Determines`). Loading leaves every setting as it is
determined, but for a log level that is not known, and its verdict is about the port and the owner
that are determined (`load_precedence`).
-/
namespace EntityStore.Settings
open Text

/-- The value that a setting is to have. -/
inductive Determines (s : Settings) (env : Environment) (contents : Option String) (key : String) :
    Option String → Prop where
  | line {text value : String} (hfile : contents = some text)
    (hline : Latest text.toList key value) : Determines s env contents key (some value)
  | environment {k : Known} {value : String}
    (hfile : ∀ text ∈ contents, ¬Mentions text.toList key) (hk : k ∈ known) (hkey : k.key = key)
    (hset : env.get? k.envName = some value) (hne : value ≠ "") :
    Determines s env contents key (some value)
  | fallback {k : Known} (hfile : ∀ text ∈ contents, ¬Mentions text.toList key) (hk : k ∈ known)
    (hkey : k.key = key) (hunset : ∀ value ∈ env.get? k.envName, value = "") :
    Determines s env contents key (some k.fallback)
  | prior (hfile : ∀ text ∈ contents, ¬Mentions text.toList key)
    (hunknown : ∀ k ∈ known, k.key ≠ key) : Determines s env contents key (s.get? key)

/-- An unknown log level gives way to `info`. -/
def corrected (key : String) (value : Option String) : Option String :=
  if key = "log.level" ∧ ∀ level ∈ logLevels, value ≠ some level then some "info" else value

section Environment
variable {key : String} (s : Settings) (env : Environment)

theorem keys_known_nodup : (known.map Known.key).Nodup := by decide

/-- Each of some known settings is set to a value that depends on it alone. -/
def setAll (value : Known → String) (ks : List Known) : Settings :=
  ks.foldl (fun s k => s.set k.key (value k)) s

theorem get?_setAll_of_forall (value : Known → String) {ks : List Known}
    (h : ∀ k ∈ ks, k.key ≠ key) : (s.setAll value ks).get? key = s.get? key := by
  induction ks generalizing s with
  | nil => rfl
  | cons k ks ih =>
    rw [List.forall_mem_cons] at h
    rw [setAll, List.foldl_cons, ← setAll, ih _ h.2, SortedMap.get?_set, if_neg h.1]

theorem get?_setAll_of_mem (value : Known → String) {ks : List Known} {k : Known}
    (hks : (ks.map Known.key).Nodup) (hk : k ∈ ks) :
    (s.setAll value ks).get? k.key = some (value k) := by
  induction ks generalizing s with
  | nil => cases hk
  | cons first ks ih =>
    rw [List.map_cons, List.nodup_cons] at hks
    rw [setAll, List.foldl_cons, ← setAll]
    rcases List.mem_cons.1 hk with rfl | hk
    · have hfirst : ∀ k' ∈ ks, k'.key ≠ k.key :=
        fun k' hk' heq => hks.1 (heq ▸ List.mem_map_of_mem hk')
      rw [get?_setAll_of_forall _ _ hfirst, SortedMap.get?_set, if_pos rfl]
    · exact ih _ hks.2 hk

theorem get?_addEnvironment_of_known {k : Known} (hk : k ∈ known) :
    (s.addEnvironment env).get? k.key = some (env.value k.envName k.fallback) :=
  s.get?_setAll_of_mem (fun k => env.value k.envName k.fallback) keys_known_nodup hk

theorem get?_addEnvironment_of_unknown (h : ∀ k ∈ known, k.key ≠ key) :
    (s.addEnvironment env).get? key = s.get? key :=
  s.get?_setAll_of_forall (fun k => env.value k.envName k.fallback) h

variable {env} {name fallback : String}

theorem value_of_set {value : String} (h : env.get? name = some value) (hne : value ≠ "") :
    env.value name fallback = value := by
  rw [Environment.value, h]
  exact if_neg hne

theorem value_of_unset (h : ∀ value ∈ env.get? name, value = "") :
    env.value name fallback = fallback := by
  unfold Environment.value
  split
  next value hvalue => exact if_pos (h value hvalue)
  next => rfl

end Environment

section Layers
variable (s : Settings) (env : Environment) (file : File) {key : String}

theorem get?_layered_of_latest {text value : String} (hfile : file.text = some text)
    (h : Latest text.toList key value) : (s.layered env file).get? key = some value := by
  rw [layered, hfile]
  exact get?_addLines_of_latest _ h

theorem get?_layered_of_not_mentions (h : ∀ text ∈ file.text, ¬Mentions text.toList key) :
    (s.layered env file).get? key = (s.addEnvironment env).get? key := by
  rw [layered]
  cases hfile : file.text with
  | none => rfl
  | some text => exact get?_addLines_of_not_mentions _ (h text hfile)

theorem exists_latest_or (contents : Option String) (key : String) :
    (∃ text value, contents = some text ∧ Latest text.toList key value) ∨
      ∀ text ∈ contents, ¬Mentions text.toList key := by
  by_cases h : ∃ text ∈ contents, Mentions text.toList key
  · obtain ⟨text, hfile, hmentions⟩ := h
    obtain ⟨value, hlatest⟩ := exists_latest hmentions
    exact .inl ⟨text, value, hfile, hlatest⟩
  · exact .inr (by simpa using h)

theorem determines_iff {value : Option String} :
    Determines s env file.text key value ↔ value = (s.layered env file).get? key := by
  constructor
  · intro h
    cases h with
    | line hfile hline => rw [get?_layered_of_latest s env file hfile hline]
    | environment hfile hk hkey hset hne =>
      rw [get?_layered_of_not_mentions s env file hfile, ← hkey,
        get?_addEnvironment_of_known _ _ hk, value_of_set hset hne]
    | fallback hfile hk hkey hunset =>
      rw [get?_layered_of_not_mentions s env file hfile, ← hkey,
        get?_addEnvironment_of_known _ _ hk, value_of_unset hunset]
    | prior hfile hunknown =>
      rw [get?_layered_of_not_mentions s env file hfile,
        get?_addEnvironment_of_unknown _ _ hunknown]
  · rintro rfl
    obtain ⟨text, value, hfile, hlatest⟩ | hfile := exists_latest_or file.text key
    · rw [get?_layered_of_latest s env file hfile hlatest]
      exact .line hfile hlatest
    rw [get?_layered_of_not_mentions s env file hfile]
    by_cases hknown : ∃ k ∈ known, k.key = key
    · obtain ⟨k, hk, rfl⟩ := hknown
      rw [get?_addEnvironment_of_known _ _ hk]
      by_cases hset : ∃ value ∈ env.get? k.envName, value ≠ ""
      · obtain ⟨value, hset, hne⟩ := hset
        rw [value_of_set hset hne]
        exact .environment hfile hk rfl hset hne
      · have hunset : ∀ value ∈ env.get? k.envName, value = "" := by
          simpa only [not_exists, not_and, not_not] using hset
        rw [value_of_unset hunset]
        exact .fallback hfile hk rfl hunset
    · have hunknown : ∀ k ∈ known, k.key ≠ key := by
        simpa only [not_exists, not_and] using hknown
      rw [get?_addEnvironment_of_unknown _ _ hunknown]
      exact .prior hfile hunknown

theorem exists_get?_layered {k : Known} (hk : k ∈ known) :
    ∃ value, (s.layered env file).get? k.key = some value := by
  obtain ⟨text, value, hfile, hlatest⟩ | hfile := exists_latest_or file.text k.key
  · exact ⟨value, get?_layered_of_latest s env file hfile hlatest⟩
  · rw [get?_layered_of_not_mentions s env file hfile, get?_addEnvironment_of_known _ _ hk]
    exact ⟨_, rfl⟩

end Layers

section Verdict
variable (s : Settings)

/-- A text that begins with a port, whatever follows the digits. -/
def ReadsAsPort (port : String) : Prop :=
  ∃ i rest, Leads port.toList i rest ∧ 1 ≤ i ∧ i ≤ 65535

theorem readsAsPort_iff {port : String} :
    ReadsAsPort port ↔ ∃ i, readInt .word32 port.toList = .ok i ∧ 1 ≤ i ∧ i ≤ 65535 := by
  constructor
  · rintro ⟨i, rest, hleads, hlow, hhigh⟩
    have hword : Limits.word32.low ≤ i ∧ i ≤ Limits.word32.high :=
      ⟨Int.le_trans (by decide) hlow, Int.le_trans hhigh (by decide)⟩
    exact ⟨i, readInt_eq_ok_iff.2 ⟨⟨rest, hleads⟩, hword⟩, hlow, hhigh⟩
  · rintro ⟨i, hread, hlow, hhigh⟩
    obtain ⟨⟨rest, hleads⟩, -⟩ := readInt_eq_ok_iff.1 hread
    exact ⟨i, rest, hleads, hlow, hhigh⟩

theorem int_port_iff :
    (1 ≤ (s.int "db.port" 0).1 ∧ (s.int "db.port" 0).1 ≤ 65535) ↔
      ∃ port, s.get? "db.port" = some port ∧ ReadsAsPort port := by
  simp only [readsAsPort_iff]
  unfold int
  split
  next hnone => simp [hnone]
  next port hport =>
    simp only [hport, Option.some.injEq, exists_eq_left']
    cases readInt .word32 port.toList <;> simp

theorem validate_valid_iff :
    s.validate.valid = true ↔
      (∃ port, s.get? "db.port" = some port ∧ ReadsAsPort port) ∧
        s.text "engine.owner" "" ≠ "" := by
  rw [← int_port_iff]
  simp only [validate, Bool.and_eq_true, Bool.not_eq_true', Bool.or_eq_false_iff,
    decide_eq_false_iff_not]
  refine and_congr ?_ Iff.rfl
  omega

theorem corrected_of_ne {key : String} {value : Option String} (h : key ≠ "log.level") :
    corrected key value = value := if_neg fun hcond => h hcond.1

theorem corrected_level_of_mem {level : String} (h : level ∈ logLevels) :
    corrected "log.level" (some level) = some level := if_neg fun hcond => hcond.2 level h rfl

theorem corrected_level_of_not_mem {level : String} (h : level ∉ logLevels) :
    corrected "log.level" (some level) = some "info" := by
  refine if_pos ⟨rfl, fun l hl heq => ?_⟩
  obtain rfl := Option.some.inj heq
  exact h hl

theorem get?_validate_settings {level : String} (hlevel : s.get? "log.level" = some level)
    (key : String) : s.validate.settings.get? key = corrected key (s.get? key) := by
  have hsettings : s.validate.settings =
      if level ∈ logLevels then s else s.set "log.level" "info" := by
    simp [validate, text, hlevel, ite_not]
  rw [hsettings]
  by_cases hkey : key = "log.level"
  · subst hkey
    by_cases hmem : level ∈ logLevels
    · rw [if_pos hmem, hlevel, corrected_level_of_mem hmem]
    · rw [if_neg hmem, hlevel, corrected_level_of_not_mem hmem, SortedMap.get?_set, if_pos rfl]
  · rw [corrected_of_ne hkey]
    split
    next => rfl
    next => rw [SortedMap.get?_set, if_neg (Ne.symm hkey)]

end Verdict

/-- Loading leaves every setting at what the layers come to, but for an unknown log level. -/
theorem get?_load (s : Settings) (env : Environment) (file : File) (key : String) :
    (s.load env file).settings.get? key = corrected key ((s.layered env file).get? key) := by
  obtain ⟨level, hlevel⟩ := exists_get?_layered s env file
    (k := ⟨"log.level", "ERGRAPH_LOG_LEVEL", "info"⟩) (by decide)
  exact get?_validate_settings _ hlevel key

/-- Whatever the settings were before, the environment and the file: every setting is determined
once and loading leaves it at that, but for an unknown log level; and the verdict is against the
settings exactly if the port that is determined does not read as one or the owner is empty. -/
theorem load_precedence (s : Settings) (env : Environment) (file : File) :
    (∀ key, ∃ value, (∀ v, Determines s env file.text key v ↔ v = value) ∧
        (s.load env file).settings.get? key = corrected key value) ∧
      ((s.load env file).valid = false ↔
        (¬∃ port, Determines s env file.text "db.port" (some port) ∧ ReadsAsPort port) ∨
          Determines s env file.text "engine.owner" (some "")) := by
  obtain ⟨owner, howner⟩ := exists_get?_layered s env file
    (k := ⟨"engine.owner", "ERGRAPH_OWNER", "ergraph"⟩) (by decide)
  have hvalid : (s.load env file).valid = (s.layered env file).validate.valid := rfl
  constructor
  · exact fun key => ⟨_, fun v => determines_iff s env file, get?_load s env file key⟩
  · rw [← Bool.not_eq_true, hvalid, validate_valid_iff, not_and_or]
    simp only [determines_iff, eq_comm, text, howner, Option.getD_some, not_not,
      Option.some.injEq]

end EntityStore.Settings
