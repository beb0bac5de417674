import EntityStore.Conninfo.Reader
import EntityStore.Proofs.Lists
/-!
# Connection strings read back

A value comes back from a connection string unless it is written without quotes and holds a blank:
then the value ends there, and what follows the blank is read as settings of its own
(`read_password_injects`). So a connection string reads as the settings it was written for exactly
if every value that holds a blank also holds a character that has it quoted, which the line breaks
and the form feed are not (`read_text_iff`).
-/
namespace EntityStore.Conninfo
open Text

/-- A setting of a connection that is written: a text that is not empty, or a positive limit. -/
inductive Gives (c : Conninfo) : String → String → Prop where
  | dbname (h : c.dbname ≠ "") : c.Gives "dbname" c.dbname
  | host (h : c.host ≠ "") : c.Gives "host" c.host
  | port (h : c.port ≠ "") : c.Gives "port" c.port
  | user (h : c.user ≠ "") : c.Gives "user" c.user
  | password (h : c.password ≠ "") : c.Gives "password" c.password
  | connectTimeout (h : 0 < c.connectTimeout) :
    c.Gives "connect_timeout" (toString c.connectTimeout)

/-- Whether a value is in quotes wherever it has to be. -/
def Guarded (value : String) : Prop :=
  (∃ ch ∈ value.toList, isBlank ch = true) → ∃ ch ∈ value.toList, needsQuotes ch = true

instance (value : String) : Decidable (Guarded value) :=
  decidable_of_iff (value.toList.any isBlank = true → value.toList.any needsQuotes = true)
    (by rw [Guarded, List.any_eq_true, List.any_eq_true])

/-- Texts that are not cut short where a NUL ends them. -/
structure NulFree (c : Conninfo) : Prop where
  dbname : '\x00' ∉ c.dbname.toList
  host : '\x00' ∉ c.host.toList
  port : '\x00' ∉ c.port.toList
  user : '\x00' ∉ c.user.toList
  password : '\x00' ∉ c.password.toList

section Values

theorem quotedValue_escape (v rest : List Char) :
    quotedValue (escape v ++ '\'' :: rest) = some (v, rest) := by
  induction v with
  | nil => simp [escape, quotedValue]
  | cons ch v ih =>
    by_cases hquote : ch = '\''
    · simp [escape, hquote, quotedValue, ih]
    by_cases hescape : ch = '\\'
    · simp [escape, hescape, quotedValue, ih]
    · simp [escape, hquote, hescape, quotedValue_cons, ih]

theorem bareValue_append {v rest : List Char} (hv : ∀ ch ∈ v, isBlank ch = false ∧ ch ≠ '\\')
    (hrest : ∀ ch ∈ rest.head?, isBlank ch = true) : bareValue (v ++ rest) = (v, rest) := by
  induction v with
  | nil =>
    cases rest with
    | nil => rfl
    | cons ch rest =>
      have hblank := hrest ch rfl
      have hch : ch ≠ '\\' := by
        rintro rfl
        cases hblank
      rw [List.nil_append, bareValue_cons hch, if_pos hblank]
  | cons ch v ih =>
    rw [List.forall_mem_cons] at hv
    rw [List.cons_append, bareValue_cons hv.1.2, if_neg (by simp [hv.1.1]), ih hv.2]

theorem ne_of_not_needsQuotes {ch : Char} (h : needsQuotes ch = false) : ch ≠ '\'' ∧ ch ≠ '\\' := by
  simp only [needsQuotes, Bool.or_eq_false_iff, decide_eq_false_iff_not] at h
  exact ⟨h.1.1.2, h.1.2⟩

theorem toList_valueText_quoted {value : String}
    (h : ∃ ch ∈ value.toList, needsQuotes ch = true) :
    (valueText value).toList = '\'' :: (escape value.toList ++ ['\'']) := by
  rw [valueText, if_pos (List.any_eq_true.2 h)]
  simp [quote]

theorem valueText_bare {value : String} (h : ∀ ch ∈ value.toList, needsQuotes ch = false) :
    valueText value = value := by
  rw [valueText, if_neg (by simpa using h)]

theorem bareValue_append_ne {v : List Char} (rest : List Char) (hplain : ∀ ch ∈ v, ch ≠ '\\')
    (hblank : ∃ ch ∈ v, isBlank ch = true) : (bareValue (v ++ rest)).1 ≠ v := by
  induction v with
  | nil => simp at hblank
  | cons ch v ih =>
    rw [List.forall_mem_cons] at hplain
    rw [List.cons_append, bareValue_cons hplain.1]
    by_cases hch : isBlank ch = true
    · simp [hch]
    · obtain ⟨b, hb, hbblank⟩ := hblank
      have hmem : b ∈ v := by
        rcases List.mem_cons.1 hb with rfl | hb
        · exact absurd hbblank hch
        · exact hb
      simpa [hch] using ih hplain.2 ⟨b, hmem, hbblank⟩

theorem bareValue_dropBlanks_ne {v rest : List Char} (hplain : ∀ ch ∈ v, needsQuotes ch = false)
    (hblank : ∃ ch ∈ v, isBlank ch = true)
    (hrest : ∀ ch ∈ (rest.dropWhile isBlank).head?, needsQuotes ch = false) :
    (∀ ch ∈ ((v ++ rest).dropWhile isBlank).head?, isBlank ch = false ∧ ch ≠ '\'') ∧
      (bareValue ((v ++ rest).dropWhile isBlank)).1 ≠ v := by
  have hhead : ∀ ch ∈ ((v ++ rest).dropWhile isBlank).head?,
      isBlank ch = false ∧ needsQuotes ch = false := by
    intro ch hch
    constructor
    · exact head?_dropWhile ch hch
    · rw [List.dropWhile_append] at hch
      split at hch
      next => exact hrest ch hch
      next hne =>
        obtain hch | ⟨hnil, _⟩ := mem_head?_append hch
        · exact hplain ch ((List.dropWhile_sublist isBlank).mem (List.mem_of_mem_head? hch))
        · simp [hnil] at hne
  refine ⟨fun ch hch => ⟨(hhead ch hch).1, (ne_of_not_needsQuotes (hhead ch hch).2).1⟩, ?_⟩
  cases v with
  | nil => simp at hblank
  | cons first v =>
    by_cases hfirst : isBlank first = true
    · generalize (first :: v ++ rest).dropWhile isBlank = cs at hhead
      cases cs with
      | nil => simp [bareValue]
      | cons ch cs =>
        obtain ⟨hch, hneeds⟩ := hhead ch rfl
        rw [bareValue_cons (ne_of_not_needsQuotes hneeds).2, if_neg (by simp [hch])]
        rintro ⟨⟩
        rw [hfirst] at hch
        cases hch
    · rw [List.cons_append, List.dropWhile_cons_of_neg hfirst, ← List.cons_append]
      exact bareValue_append_ne rest
        (fun ch hch => (ne_of_not_needsQuotes (hplain ch hch)).2) hblank

end Values

namespace Reader
variable (R : Reader) {key : String} (hkey : key ∈ keywords)
include hkey

theorem read_dropBlanks (cs : List Char) :
    R.read (key.toList ++ '=' :: cs) = R.read (key.toList ++ '=' :: cs.dropWhile isBlank) := by
  induction cs with
  | nil => rfl
  | cons ch cs ih =>
    by_cases hblank : isBlank ch = true
    · rw [R.read_gap key hkey ch cs hblank, ih, List.dropWhile_cons_of_pos hblank]
    · rw [List.dropWhile_cons_of_neg hblank]

/-- A value in quotes, or one that needs none, is read as it is. -/
theorem read_guarded {value : String} (hne : value ≠ "") (h : Guarded value) {rest : List Char}
    (hrest : ∀ ch ∈ rest.head?, isBlank ch = true) :
    R.read (key.toList ++ '=' :: ((valueText value).toList ++ rest)) =
      addSetting key value.toList (R.read rest) := by
  by_cases hquotes : ∃ ch ∈ value.toList, needsQuotes ch = true
  · rw [toList_valueText_quoted hquotes, List.cons_append, List.append_assoc,
      R.read_quoted key hkey, List.singleton_append, quotedValue_escape]
    rfl
  · have hplain : ∀ ch ∈ value.toList, needsQuotes ch = false := by simpa using hquotes
    have hblank : ∀ ch ∈ value.toList, isBlank ch = false := by
      intro ch hch
      exact Bool.eq_false_iff.2 fun hblank => hquotes (h ⟨ch, hch, hblank⟩)
    rw [valueText_bare hplain, R.read_bare key hkey, bareValue_append _ hrest]
    · exact fun ch hch => ⟨hblank ch hch, (ne_of_not_needsQuotes (hplain ch hch)).2⟩
    · intro ch hch
      obtain hch | ⟨hnil, _⟩ := mem_head?_append hch
      · have hmem := List.mem_of_mem_head? hch
        exact ⟨hblank ch hmem, (ne_of_not_needsQuotes (hplain ch hmem)).1⟩
      · exact absurd (String.toList_eq_nil_iff.1 hnil) hne

/-- A value with a blank and without quotes is not read as it is. -/
theorem read_unguarded {value : String} (h : ¬Guarded value) {rest : List Char}
    (hrest : ∀ ch ∈ (rest.dropWhile isBlank).head?, needsQuotes ch = false)
    (ps : List (String × String)) :
    R.read (key.toList ++ '=' :: ((valueText value).toList ++ rest)) ≠
      some ((key, value) :: ps) := by
  obtain ⟨hblank, hquotes⟩ := Classical.not_imp.1 h
  have hplain : ∀ ch ∈ value.toList, needsQuotes ch = false := by simpa using hquotes
  obtain ⟨hhead, hvalue⟩ := bareValue_dropBlanks_ne hplain hblank hrest
  rw [valueText_bare hplain, R.read_dropBlanks hkey, R.read_bare key hkey _ hhead, ne_eq,
    addSetting_eq_some_iff]
  exact fun hread => hvalue hread.1

end Reader

section Settings

/-- The text of some settings. -/
def written (ps : List (String × String)) : String :=
  " ".intercalate (ps.map fun p => p.1 ++ "=" ++ valueText p.2)

/-- What follows a setting. -/
def further : List (String × String) → List Char
  | [] => []
  | p :: ps => ' ' :: (written (p :: ps)).toList

theorem toList_written_cons (p : String × String) (ps : List (String × String)) :
    (written (p :: ps)).toList =
      p.1.toList ++ '=' :: ((valueText p.2).toList ++ further ps) := by
  cases ps with
  | nil => simp [written, further]
  | cons q ps => simp [written, further]

theorem isBlank_of_mem_head?_further {ps : List (String × String)} {ch : Char}
    (h : ch ∈ (further ps).head?) : isBlank ch = true := by
  cases ps with
  | nil => cases h
  | cons p ps =>
    obtain rfl : ' ' = ch := by simpa [further] using h
    rfl

theorem read_further (R : Reader) (ps : List (String × String)) :
    R.read (further ps) = R.read (written ps).toList := by
  cases ps with
  | nil => rfl
  | cons p ps => exact R.read_blank ' ' _ rfl

theorem head?_dropBlanks_further {ps : List (String × String)} (hkeys : ∀ p ∈ ps, p.1 ∈ keywords)
    {ch : Char} (h : ch ∈ ((further ps).dropWhile isBlank).head?) : needsQuotes ch = false := by
  cases ps with
  | nil => cases h
  | cons p ps =>
    obtain ⟨hne, hplain⟩ := plain_of_mem_keywords p.1 (hkeys p List.mem_cons_self)
    obtain ⟨first, key, hkey⟩ := List.exists_cons_of_ne_nil hne
    rw [hkey, List.forall_mem_cons] at hplain
    rw [further, toList_written_cons, hkey, List.dropWhile_cons_of_pos (by rfl), List.cons_append,
      List.dropWhile_cons_of_neg (by simp [hplain.1.1])] at h
    obtain rfl : first = ch := by simpa using h
    exact hplain.1.2.2

theorem read_written_iff (R : Reader) {ps : List (String × String)}
    (hkeys : ∀ p ∈ ps, p.1 ∈ keywords) (hvalues : ∀ p ∈ ps, p.2 ≠ "") :
    R.read (written ps).toList = some ps ↔ ∀ p ∈ ps, Guarded p.2 := by
  induction ps with
  | nil => simp [written, R.read_nil]
  | cons p ps ih =>
    rw [List.forall_mem_cons] at hkeys hvalues ⊢
    rw [toList_written_cons]
    by_cases hguarded : Guarded p.2
    · rw [R.read_guarded hkeys.1 hvalues.1 hguarded fun ch => isBlank_of_mem_head?_further,
        read_further, addSetting_eq_some_iff, ih hkeys.2 hvalues.2]
      simp [hguarded]
    · have hread := R.read_unguarded hkeys.1 hguarded
        (fun ch => head?_dropBlanks_further hkeys.2) ps
      simp [hguarded, hread]

end Settings

section Given
variable (c : Conninfo)

theorem toList_toString_of_pos {t : Int} (h : 0 < t) :
    ∃ n, (toString t).toList = Nat.toDigits 10 n := by
  obtain ⟨n, rfl⟩ := Int.eq_ofNat_of_zero_le (Int.le_of_lt h)
  exact ⟨n, Nat.toList_repr⟩

theorem toString_ne_empty {t : Int} (h : 0 < t) : toString t ≠ "" := by
  obtain ⟨n, hdigits⟩ := toList_toString_of_pos h
  rw [ne_eq, ← String.toList_eq_nil_iff, hdigits]
  exact Nat.toDigits_ne_nil

theorem mem_pairs_iff {key value : String} : (key, value) ∈ c.pairs ↔ c.Gives key value := by
  simp only [pairs, List.mem_filter, List.mem_cons, Prod.mk.injEq, List.not_mem_nil, or_false,
    decide_eq_true_eq]
  constructor
  · rintro ⟨⟨rfl, rfl⟩ | ⟨rfl, rfl⟩ | ⟨rfl, rfl⟩ | ⟨rfl, rfl⟩ | ⟨rfl, rfl⟩ | ⟨rfl, hvalue⟩, hne⟩
    · exact .dbname hne
    · exact .host hne
    · exact .port hne
    · exact .user hne
    · exact .password hne
    · split at hvalue
      next hpos =>
        subst hvalue
        exact .connectTimeout hpos
      next => exact absurd hvalue hne
  · rintro (hne | hne | hne | hne | hne | hpos)
    case connectTimeout => simpa [hpos] using toString_ne_empty hpos
    all_goals simp [hne]

theorem keywords_pairs : (c.pairs.map Prod.fst).Sublist keywords :=
  (List.filter_sublist (p := fun p : String × String => decide (p.2 ≠ ""))).map Prod.fst

theorem mem_keywords_of_mem_pairs {p : String × String} (h : p ∈ c.pairs) : p.1 ∈ keywords :=
  c.keywords_pairs.mem (List.mem_map_of_mem h)

theorem mem_or_of_mem_escape {ch : Char} {v : List Char} (h : ch ∈ escape v) :
    ch ∈ v ∨ ch = '\\' := by
  induction v with
  | nil => cases h
  | cons first v ih =>
    rw [escape] at h
    split at h <;> simp only [List.mem_cons] at h ⊢ <;> grind

theorem nul_notMem_valueText {value : String} (h : '\x00' ∉ value.toList) :
    '\x00' ∉ (valueText value).toList := by
  unfold valueText
  split
  · simp only [quote, String.toList_append, String.toList_ofList, List.mem_append, not_or]
    refine ⟨⟨by decide, fun hescaped => ?_⟩, by decide⟩
    obtain hmem | hch := mem_or_of_mem_escape hescaped
    · exact h hmem
    · cases hch
  · exact h

theorem nul_notMem_written {ps : List (String × String)} (hkeys : ∀ p ∈ ps, p.1 ∈ keywords)
    (hvalues : ∀ p ∈ ps, '\x00' ∉ p.2.toList) : '\x00' ∉ (written ps).toList := by
  induction ps with
  | nil => simp [written]
  | cons p ps ih =>
    rw [List.forall_mem_cons] at hkeys hvalues
    have hkey : ∀ key ∈ keywords, '\x00' ∉ key.toList := by decide
    have hrest := ih hkeys.2 hvalues.2
    rw [toList_written_cons]
    simp only [List.mem_append, List.mem_cons, not_or]
    refine ⟨hkey p.1 hkeys.1, by decide, nul_notMem_valueText hvalues.1, ?_⟩
    cases ps with
    | nil => simp [further]
    | cons q ps => simpa [further] using hrest

theorem NulFree.gives {c : Conninfo} (h : c.NulFree) {key value : String}
    (hgives : c.Gives key value) : '\x00' ∉ value.toList := by
  cases hgives with
  | dbname => exact h.dbname
  | host => exact h.host
  | port => exact h.port
  | user => exact h.user
  | password => exact h.password
  | connectTimeout hpos =>
    obtain ⟨n, hdigits⟩ := toList_toString_of_pos hpos
    rw [hdigits]
    intro hmem
    exact absurd (Nat.isDigit_of_mem_toDigits (by decide) (by decide) hmem) (by decide)

theorem beforeNul_eq_self {s : String} (h : '\x00' ∉ s.toList) : beforeNul s = s := by
  have hall : ∀ ch ∈ s.toList, decide (ch ≠ '\x00') = true :=
    fun ch hch => decide_eq_true fun hnul => h (hnul ▸ hch)
  rw [beforeNul, List.takeWhile_eq_self_iff.2 hall, String.ofList_toList]

/-- For every reader and every connection whose texts hold no NUL: the settings written are those
that are given, in the order of the keywords, and they are read back exactly if every value that
holds a blank holds a character that has it quoted. -/
theorem read_text_iff (R : Reader) (c : Conninfo) (h : c.NulFree) :
    ((c.pairs.map Prod.fst).Sublist keywords ∧
        ∀ key value, (key, value) ∈ c.pairs ↔ c.Gives key value) ∧
      (R.read (beforeNul c.text).toList = some c.pairs ↔
        ∀ key value, c.Gives key value → Guarded value) := by
  have hkeys : ∀ p ∈ c.pairs, p.1 ∈ keywords := fun _ => c.mem_keywords_of_mem_pairs
  have hnul : '\x00' ∉ (written c.pairs).toList := nul_notMem_written hkeys
    fun p hp => h.gives (c.mem_pairs_iff.1 hp)
  have hne : ∀ p ∈ c.pairs, p.2 ≠ "" := by
    intro p hp
    simpa using (List.mem_filter.1 hp).2
  refine ⟨⟨c.keywords_pairs, fun _ _ => c.mem_pairs_iff⟩, ?_⟩
  rw [show c.text = written c.pairs from rfl, beforeNul_eq_self hnul, read_written_iff R hkeys hne]
  simp only [Prod.forall, mem_pairs_iff]

/-- A password with quote, line feed, blank and backslash. -/
def awkward : Conninfo := ⟨"model", "", "5432", "", "it's\na \\secret", 5⟩

theorem read_awkward :
    awkward.NulFree ∧ scanner.read (beforeNul awkward.text).toList =
      some [("dbname", "model"), ("port", "5432"), ("password", "it's\na \\secret"),
        ("connect_timeout", "5")] := by
  have hfree : awkward.NulFree := by constructor <;> decide
  have hguarded : ∀ key value, awkward.Gives key value → Guarded value := by
    intro key value hgives
    cases hgives <;> decide
  exact ⟨hfree, (read_text_iff scanner awkward hfree).2.2 hguarded⟩

/-- A password with a line feed alone. -/
def injecting : Conninfo := ⟨"model", "", "", "", "secret\nhost=elsewhere", 0⟩

/-- What stands after the line feed is read as a setting of its own. -/
theorem read_password_injects :
    injecting.NulFree ∧
      injecting.pairs = [("dbname", "model"), ("password", "secret\nhost=elsewhere")] ∧
      scanner.read (beforeNul injecting.text).toList =
        some [("dbname", "model"), ("password", "secret"), ("host", "elsewhere")] ∧
      scanner.read (beforeNul injecting.text).toList ≠ some injecting.pairs := by
  have htext : (beforeNul injecting.text).toList =
      "dbname=model password=secret\nhost=elsewhere".toList := by decide
  have hread : scanner.read (beforeNul injecting.text).toList =
      some [("dbname", "model"), ("password", "secret"), ("host", "elsewhere")] := by
    rw [htext]
    show scan .between _ = _
    cbv
  refine ⟨by constructor <;> decide, by decide, hread, ?_⟩
  rw [hread]
  decide

end Given

end EntityStore.Conninfo
