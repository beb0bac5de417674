import EntityStore.Proofs.Text.Blank
import EntityStore.Settings.File
/-!
# What a settings file says

A line defines a key when it is no comment and has something before its first equals sign
(`Defines`), and such lines are the ones that are read as settings. The lines of a file are its text
cut at every line feed, without the empty part after the last one; of the lines that define a key
the last one decides. No character beyond ASCII is told from another, so that a text may as well
stand for bytes, one character for each.
-/
namespace EntityStore.Settings
open Text

theorem lines_ne_nil (ch : Char) (cs : List Char) : lines (ch :: cs) ≠ [] := by
  rw [lines]
  split
  · simp
  · split <;> simp

/-- The lines of a text are what stands between line feeds, but that nothing after the last line
feed is no line. -/
theorem splitOn_newline (cs : List Char) :
    cs.splitOn '\n' =
      if cs = [] ∨ cs.getLast? = some '\n' then lines cs ++ [[]] else lines cs := by
  induction cs with
  | nil => rfl
  | cons ch cs ih =>
    rw [List.splitOn_cons_eq_if_modifyHead, lines, ih]
    by_cases hch : ch = '\n'
    · subst hch
      cases cs <;> simp [apply_ite (List.cons ([] : List Char))]
    · cases cs with
      | nil => simp [lines, hch]
      | cons c cs =>
        obtain ⟨l, ls, hlines⟩ := List.exists_cons_of_ne_nil (lines_ne_nil c cs)
        rw [hlines]
        simp only [beq_iff_eq, hch, if_false, reduceCtorEq, false_or, List.getLast?_cons_cons]
        split <;> rfl

/-- A line gives a key its value. -/
def Defines (line : List Char) (key value : String) : Prop :=
  ∃ content before after, Trims line content ∧ content.head? ≠ some '#' ∧
    content.head? ≠ some ';' ∧ content = before ++ '=' :: after ∧ '=' ∉ before ∧
    Trims before key.toList ∧ key ≠ "" ∧ Trims after value.toList

theorem cut_at_equals {before : List Char} (after : List Char) (h : '=' ∉ before) :
    (before ++ '=' :: after).takeWhile (fun ch => decide (ch ≠ '=')) = before ∧
      (before ++ '=' :: after).dropWhile (fun ch => decide (ch ≠ '=')) = '=' :: after := by
  have hbefore : ∀ ch ∈ before, decide (ch ≠ '=') = true := by
    intro ch hch
    exact decide_eq_true fun heq => h (heq ▸ hch)
  have hsign : ∀ ch ∈ ('=' :: after).head?, decide (ch ≠ '=') = false := by
    rintro _ ⟨⟩
    rfl
  exact ⟨takeWhile_append_exact hbefore hsign, dropWhile_append_exact hbefore hsign⟩

theorem ofChars_eq_setting_iff {line : List Char} {key value : String} :
    Line.ofChars line = .setting key value ↔ Defines line key value := by
  constructor
  · intro h
    unfold Line.ofChars at h
    split at h
    next => cases h
    next => cases h
    next => cases h
    next _ hhash hsemicolon =>
      split at h
      next => cases h
      next sign after hafter =>
        split at h
        next => cases h
        next hname =>
          obtain ⟨rfl, rfl⟩ := Line.setting.inj h
          have hsign : sign = '=' := by
            have hstop := head?_dropWhile (p := fun ch => decide (ch ≠ '=')) (l := trimChars line)
              sign (by rw [hafter]; rfl)
            simpa using hstop
          have hcut := List.takeWhile_append_dropWhile (p := fun ch => decide (ch ≠ '='))
            (l := trimChars line)
          rw [hafter, hsign] at hcut
          refine ⟨trimChars line, _, after, trims_trimChars line, fun hhead => ?_, fun hhead => ?_,
            hcut.symm, fun hmem => ?_, ?_, ?_, ?_⟩
          · obtain ⟨rest, hrest⟩ := List.head?_eq_some_iff.1 hhead
            exact hhash rest hrest
          · obtain ⟨rest, hrest⟩ := List.head?_eq_some_iff.1 hhead
            exact hsemicolon rest hrest
          · simpa using List.mem_takeWhile_imp hmem
          · rw [String.toList_ofList]
            exact trims_trimChars _
          · rw [ne_eq, ← String.toList_eq_nil_iff, String.toList_ofList]
            exact hname
          · rw [String.toList_ofList]
            exact trims_trimChars after
  · rintro ⟨content, before, after, hline, hhash, hsemicolon, rfl, hbefore, hkey, hne, hvalue⟩
    obtain ⟨htake, hdrop⟩ := cut_at_equals after hbefore
    have hname : trimChars before ≠ [] := by
      rw [← trims_iff.1 hkey, ne_eq, String.toList_eq_nil_iff]
      exact hne
    unfold Line.ofChars
    rw [← trims_iff.1 hline]
    split
    next hnil => simp at hnil
    next hcons => simp [hcons] at hhash
    next hcons => simp [hcons] at hsemicolon
    next =>
      simp only [hdrop, htake]
      rw [← trims_iff.1 hkey, ← trims_iff.1 hvalue, String.ofList_toList, String.ofList_toList]

/-- The last line of a text that defines a key gives it the value. -/
def Latest (cs : List Char) (key value : String) : Prop :=
  ∃ before line after, cs.splitOn '\n' = before ++ line :: after ∧ Defines line key value ∧
    ∀ l ∈ after, ∀ v, ¬Defines l key v

/-- Some line of a text defines a key. -/
def Mentions (cs : List Char) (key : String) : Prop :=
  ∃ line ∈ cs.splitOn '\n', ∃ v, Defines line key v

theorem exists_latest {cs : List Char} {key : String} (h : Mentions cs key) :
    ∃ v, Latest cs key v := by
  obtain ⟨line, hline, hdefines⟩ := h
  obtain hnone | ⟨before, last, after, hlines, ⟨v, hlast⟩, hafter⟩ :=
    exists_last (fun line => ∃ v, Defines line key v) (cs.splitOn '\n')
  · exact absurd hdefines (hnone line hline)
  · exact ⟨v, before, last, after, hlines, hlast, fun l hl v hv => hafter l hl ⟨v, hv⟩⟩

variable {key value : String} (s : Settings)

theorem addLines_append (ls ms : List Line) : s.addLines (ls ++ ms) = (s.addLines ls).addLines ms :=
  List.foldl_append

theorem addLines_setting (ls : List Line) :
    s.addLines (.setting key value :: ls) = addLines (s.set key value) ls := rfl

theorem get?_addLines_of_forall {ls : List Line} (h : ∀ l ∈ ls, ∀ v, l ≠ .setting key v) :
    (s.addLines ls).get? key = s.get? key := by
  induction ls generalizing s with
  | nil => rfl
  | cons l ls ih =>
    rw [List.forall_mem_cons] at h
    rw [show s.addLines (l :: ls) = (s.addLines [l]).addLines ls from rfl, ih _ h.2]
    cases l with
    | silent => rfl
    | malformed => rfl
    | setting k v =>
      have hk : k ≠ key := fun hk => h.1 v (hk ▸ rfl)
      rw [addLines_setting, addLines, List.foldl_nil, SortedMap.get?_set, if_neg hk]

/-- Of several lines for one key the last one holds. -/
theorem get?_addLines_last (before : List Line) {after : List Line}
    (h : ∀ l ∈ after, ∀ v, l ≠ .setting key v) :
    (s.addLines (before ++ .setting key value :: after)).get? key = some value := by
  rw [addLines_append, addLines_setting, get?_addLines_of_forall _ h, SortedMap.get?_set,
    if_pos rfl]

/-- A part without characters says nothing, wherever a text is cut. -/
theorem addLines_fileLines (text : String) :
    s.addLines (fileLines text) =
      s.addLines ((text.toList.splitOn '\n').map Line.ofChars) := by
  rw [splitOn_newline, fileLines]
  split
  · rw [List.map_append, addLines_append]
    rfl
  · rfl

theorem get?_addLines_of_latest {text : String} (h : Latest text.toList key value) :
    (s.addLines (fileLines text)).get? key = some value := by
  obtain ⟨before, line, after, hlines, hdefines, hafter⟩ := h
  rw [addLines_fileLines, hlines, List.map_append, List.map_cons,
    ofChars_eq_setting_iff.2 hdefines]
  refine get?_addLines_last s _ fun l hl v hsetting => ?_
  obtain ⟨line, hline, rfl⟩ := List.mem_map.1 hl
  exact hafter line hline v (ofChars_eq_setting_iff.1 hsetting)

theorem get?_addLines_of_not_mentions {text : String} (h : ¬Mentions text.toList key) :
    (s.addLines (fileLines text)).get? key = s.get? key := by
  rw [addLines_fileLines]
  refine get?_addLines_of_forall s fun l hl v hsetting => ?_
  obtain ⟨line, hline, rfl⟩ := List.mem_map.1 hl
  exact h ⟨line, hline, v, ofChars_eq_setting_iff.1 hsetting⟩

end EntityStore.Settings
