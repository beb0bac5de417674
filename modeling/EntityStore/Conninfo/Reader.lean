import EntityStore.Conninfo
/-!
# Reading connection strings

The grammar of connection strings, from the side of those who read them. Blanks stand between
settings and around an equals sign. A value without quotes ends at a blank, and a backslash in it
has the next character stand for itself; a value that begins with a quote runs to the next quote
that has no backslash before it. `Reader` is anything that reads the settings of the known keywords
in this way, and `scanner` is one that takes the text character by character.
-/
namespace EntityStore.Conninfo
open Text

/-- The keywords, in the order they are written. -/
def keywords : List String := ["dbname", "host", "port", "user", "password", "connect_timeout"]

/-- The value without quotes at the front, and what follows it. -/
def bareValue : List Char → List Char × List Char
  | [] => ([], [])
  | ['\\'] => ([], [])
  | '\\' :: ch :: cs => (ch :: (bareValue cs).1, (bareValue cs).2)
  | ch :: cs =>
    if isBlank ch then ([], ch :: cs) else (ch :: (bareValue cs).1, (bareValue cs).2)

/-- The value up to the closing quote, and what follows that. -/
def quotedValue : List Char → Option (List Char × List Char)
  | [] => none
  | ['\\'] => none
  | '\'' :: cs => some ([], cs)
  | '\\' :: ch :: cs => (quotedValue cs).map fun (v, rest) => (ch :: v, rest)
  | ch :: cs => (quotedValue cs).map fun (v, rest) => (ch :: v, rest)

theorem bareValue_cons {ch : Char} (h : ch ≠ '\\') (cs : List Char) :
    bareValue (ch :: cs) =
      if isBlank ch then ([], ch :: cs) else (ch :: (bareValue cs).1, (bareValue cs).2) := by
  rw [bareValue.eq_def]
  split <;> simp_all

theorem quotedValue_cons {ch : Char} (hquote : ch ≠ '\'') (hescape : ch ≠ '\\')
    (cs : List Char) :
    quotedValue (ch :: cs) = (quotedValue cs).map fun (v, rest) => (ch :: v, rest) := by
  rw [quotedValue.eq_def]
  split <;> simp_all

/-- A setting before those that are read from the rest. -/
def addSetting (key : String) (value : List Char) (rest : Option (List (String × String))) :
    Option (List (String × String)) :=
  rest.map ((key, String.ofList value) :: ·)

theorem addSetting_eq_some_iff {key : String} {v : List Char} {value : String}
    {rest : Option (List (String × String))} {ps : List (String × String)} :
    addSetting key v rest = some ((key, value) :: ps) ↔ v = value.toList ∧ rest = some ps := by
  simp only [addSetting, Option.map_eq_some_iff, List.cons.injEq, Prod.mk.injEq, true_and]
  constructor
  · rintro ⟨_, rfl, rfl, rfl⟩
    simp
  · rintro ⟨rfl, rfl⟩
    exact ⟨ps, rfl, String.ofList_toList, rfl⟩

/-- What reads the settings of a connection string, if the string is well formed. -/
structure Reader where
  read : List Char → Option (List (String × String))
  read_nil : read [] = some []
  read_blank : ∀ ch cs, isBlank ch = true → read (ch :: cs) = read cs
  /-- Blanks after an equals sign are no part of the value. -/
  read_gap : ∀ key ∈ keywords, ∀ ch cs, isBlank ch = true →
    read (key.toList ++ '=' :: ch :: cs) = read (key.toList ++ '=' :: cs)
  read_bare : ∀ key ∈ keywords, ∀ cs, (∀ ch ∈ cs.head?, isBlank ch = false ∧ ch ≠ '\'') →
    read (key.toList ++ '=' :: cs) = addSetting key (bareValue cs).1 (read (bareValue cs).2)
  read_quoted : ∀ key ∈ keywords, ∀ cs, read (key.toList ++ '=' :: '\'' :: cs) =
    (quotedValue cs).bind fun v => addSetting key v.1 (read v.2)

/-- Where in a connection string a reader stands. -/
inductive Place where
  | between
  | keyword (key : List Char)
  /-- After blanks that follow a keyword. -/
  | equals (key : List Char)
  | gap (key : List Char)
  | bare (key value : List Char)
  | bareEscape (key value : List Char)
  | quoted (key value : List Char)
  | quotedEscape (key value : List Char)

open Place in
/-- The settings in the text from a place on. -/
def scan : Place → List Char → Option (List (String × String))
  | between, [] => some []
  | between, ch :: cs =>
    if isBlank ch then scan between cs
    else if ch = '=' then scan (gap []) cs
    else scan (keyword [ch]) cs
  | keyword _, [] => none
  | keyword key, ch :: cs =>
    if ch = '=' then scan (gap key) cs
    else if isBlank ch then scan (equals key) cs
    else scan (keyword (key ++ [ch])) cs
  | equals _, [] => none
  | equals key, ch :: cs =>
    if isBlank ch then scan (equals key) cs
    else if ch = '=' then scan (gap key) cs
    else none
  | gap key, [] => some [(String.ofList key, "")]
  | gap key, ch :: cs =>
    if isBlank ch then scan (gap key) cs
    else if ch = '\'' then scan (quoted key []) cs
    else if ch = '\\' then scan (bareEscape key []) cs
    else scan (bare key [ch]) cs
  | bare key value, [] => some [(String.ofList key, String.ofList value)]
  | bare key value, ch :: cs =>
    if ch = '\\' then scan (bareEscape key value) cs
    else if isBlank ch then addSetting (String.ofList key) value (scan between cs)
    else scan (bare key (value ++ [ch])) cs
  | bareEscape key value, [] => some [(String.ofList key, String.ofList value)]
  | bareEscape key value, ch :: cs => scan (bare key (value ++ [ch])) cs
  | quoted _ _, [] => none
  | quoted key value, ch :: cs =>
    if ch = '\'' then addSetting (String.ofList key) value (scan between cs)
    else if ch = '\\' then scan (quotedEscape key value) cs
    else scan (quoted key (value ++ [ch])) cs
  | quotedEscape _ _, [] => none
  | quotedEscape key value, ch :: cs => scan (quoted key (value ++ [ch])) cs

theorem scan_blank {ch : Char} (cs : List Char) (h : isBlank ch = true) :
    scan .between (ch :: cs) = scan .between cs := by
  simp [scan, h]

theorem scan_bare (key value cs : List Char) :
    scan (.bare key value) cs =
      addSetting (String.ofList key) (value ++ (bareValue cs).1)
        (scan .between (bareValue cs).2) := by
  induction cs using bareValue.induct generalizing value with
  | case1 => simp [scan, bareValue, addSetting]
  | case2 => simp [scan, bareValue, addSetting]
  | case3 ch cs ih => simp [scan, bareValue, ih]
  | case4 ch cs hlone hescape hblank =>
    have hch : ch ≠ '\\' := by
      rintro rfl
      cases hblank
    simp [scan, bareValue_cons hch, hblank, hch]
  | case5 ch cs hlone hescape hblank ih =>
    have hch : ch ≠ '\\' := by cases cs <;> simp_all
    simp [scan, bareValue_cons hch, hblank, hch, ih]

theorem scan_quoted (key value cs : List Char) :
    scan (.quoted key value) cs = (quotedValue cs).bind fun v =>
      addSetting (String.ofList key) (value ++ v.1) (scan .between v.2) := by
  induction cs using quotedValue.induct generalizing value with
  | case1 => rfl
  | case2 => rfl
  | case3 cs => simp [scan, quotedValue]
  | case4 ch cs ih =>
    rw [scan, if_neg (by decide), if_pos rfl, scan, ih, quotedValue]
    cases quotedValue cs <;> simp
  | case5 ch cs hlone hquote hescape ih =>
    have hch : ch ≠ '\\' := by cases cs <;> simp_all
    rw [scan, if_neg hquote, if_neg hch, ih, quotedValue_cons hquote hch]
    cases quotedValue cs <;> simp

theorem scan_keyword {cs key rest : List Char}
    (h : ∀ ch ∈ key, isBlank ch = false ∧ ch ≠ '=' ∧ needsQuotes ch = false) :
    scan (.keyword cs) (key ++ '=' :: rest) = scan (.gap (cs ++ key)) rest := by
  induction key generalizing cs with
  | nil => simp [scan]
  | cons ch key ih =>
    rw [List.forall_mem_cons] at h
    simp [scan, h.1, ih h.2]

theorem plain_of_mem_keywords : ∀ key ∈ keywords, key.toList ≠ [] ∧
    ∀ ch ∈ key.toList, isBlank ch = false ∧ ch ≠ '=' ∧ needsQuotes ch = false := by
  have hall : ∀ key ∈ keywords, key.toList ≠ [] ∧
      key.toList.all (fun ch => !isBlank ch && ch != '=' && !needsQuotes ch) = true := by decide
  simpa [and_assoc] using hall

theorem scan_setting {key : String} (h : key ∈ keywords) (rest : List Char) :
    scan .between (key.toList ++ '=' :: rest) = scan (.gap key.toList) rest := by
  obtain ⟨hne, hplain⟩ := plain_of_mem_keywords key h
  obtain ⟨ch, cs, hlist⟩ := List.exists_cons_of_ne_nil hne
  rw [hlist, List.forall_mem_cons] at hplain
  rw [hlist, List.cons_append, scan, if_neg (by simp [hplain.1]), if_neg hplain.1.2.1,
    scan_keyword hplain.2]
  rfl

/-- The reader that takes a text character by character. -/
def scanner : Reader where
  read := scan .between
  read_nil := rfl
  read_blank _ cs h := scan_blank cs h
  read_gap key hkey ch cs h := by
    rw [scan_setting hkey, scan_setting hkey, scan, if_pos h]
  read_bare key hkey cs h := by
    rw [scan_setting hkey]
    cases cs with
    | nil => simp [scan, bareValue, addSetting]
    | cons ch cs =>
      obtain ⟨hblank, hquote⟩ := h ch rfl
      have hbare : scan (.gap key.toList) (ch :: cs) = scan (.bare key.toList []) (ch :: cs) := by
        simp [scan, hblank, hquote]
      rw [hbare, scan_bare, String.ofList_toList]
      rfl
  read_quoted key hkey cs := by
    rw [scan_setting hkey, scan, if_neg (by decide), if_pos rfl, scan_quoted, String.ofList_toList]
    rfl

end EntityStore.Conninfo
