import EntityStore.IdArray
import EntityStore.Proofs.Text.Integer
/-!
# Array literals read back

A literal has its elements between braces and commas, each with any number of spaces around it
(`literal`). The spaces of an element are dropped and a brace or a comma ends it, so the elements
are read as they were written, and those that stand for an id give the ids, in order
(`decode_literal`). The literal of a list of ids is one with neither spaces nor `NULL` in it.
-/
namespace EntityStore.IdArray
open Text

/-- An element as it is written: a 64-bit id or none, and the number of spaces on either side. -/
structure Element where
  id? : Option Int64
  before : Nat
  after : Nat
  deriving DecidableEq

def spaces (n : Nat) : String := String.ofList (List.replicate n ' ')

namespace Element

/-- The element without its spaces; `NULL` stands for none. -/
def word (e : Element) : String := e.id?.elim "NULL" fun i => toString i.toInt

def text (e : Element) : String := spaces e.before ++ e.word ++ spaces e.after

end Element

/-- The array literal of elements, with a number of spaces after the brace that opens it. -/
def literal (inner : Nat) (es : List Element) : String :=
  "\x7b" ++ spaces inner ++ ",".intercalate (es.map Element.text) ++ "\x7d"

/-- The characters of an element that are read. -/
def withoutSpaces (cs : List Char) : List Char := cs.filter (· ≠ ' ')

@[simp] theorem withoutSpaces_append (cs ds : List Char) :
    withoutSpaces (cs ++ ds) = withoutSpaces cs ++ withoutSpaces ds :=
  List.filter_append cs ds

@[simp] theorem withoutSpaces_spaces (n : Nat) : withoutSpaces (spaces n).toList = [] := by
  simp [withoutSpaces, spaces]

theorem isDelimiter_of_mem_spaces {n : Nat} {ch : Char} (h : ch ∈ (spaces n).toList) :
    isDelimiter ch = false := by
  rw [spaces, String.toList_ofList] at h
  rw [List.eq_of_mem_replicate h]
  rfl

section Reading
variable {element word rest : List Char}

theorem elements_delimiter {ch : Char} (h : isDelimiter ch = true) :
    elements element (ch :: rest) = element :: elements [] rest :=
  if_pos h

theorem elements_append (h : ∀ ch ∈ word, isDelimiter ch = false) :
    elements element (word ++ rest) = elements (element ++ withoutSpaces word) rest := by
  induction word generalizing element with
  | nil => simp [withoutSpaces]
  | cons ch word ih =>
    obtain ⟨hch, hword⟩ := List.forall_mem_cons.1 h
    rw [List.cons_append, elements, if_neg (by simp [hch])]
    by_cases hspace : ch = ' '
    · subst hspace
      rw [if_pos rfl, ih hword]
      rfl
    · have hkept : withoutSpaces (ch :: word) = ch :: withoutSpaces word :=
        List.filter_cons_of_pos (by simpa using hspace)
      rw [if_neg hspace, ih hword, hkept, List.append_assoc, List.singleton_append]

/-- Between commas, and before the brace that ends the last one, stand the elements. -/
theorem elements_intercalate {words : List (List Char)} (hne : words ≠ [])
    (h : ∀ word ∈ words, ∀ ch ∈ word, isDelimiter ch = false) :
    elements [] ([','].intercalate words ++ ['\x7d']) = words.map withoutSpaces := by
  induction words with
  | nil => exact absurd rfl hne
  | cons word words ih =>
    obtain ⟨hword, hwords⟩ := List.forall_mem_cons.1 h
    cases words with
    | nil =>
      rw [List.intercalate_singleton, elements_append hword, elements_delimiter rfl]
      rfl
    | cons next words =>
      rw [List.intercalate_cons_cons, List.append_assoc, List.append_assoc, elements_append hword,
        List.singleton_append, elements_delimiter rfl, ih (List.cons_ne_nil _ _) hwords]
      rfl

theorem isPresent_of_leads {i : Int} (h : Leads word i rest) : isPresent word = true := by
  have hne : word ≠ [] := by
    rintro rfl
    cases (leads_iff.1 h).1
  have hnull : word ≠ ['N', 'U', 'L', 'L'] := by
    rintro rfl
    cases (leads_iff.1 h).1
  simp [isPresent, hne, hnull]

end Reading

namespace Element
variable (e : Element)

theorem of_mem_word {ch : Char} (h : ch ∈ e.word.toList) : isDelimiter ch = false ∧ ch ≠ ' ' := by
  unfold word at h
  cases hid : e.id? with
  | none =>
    have hletter : ch = 'N' ∨ ch = 'U' ∨ ch = 'L' := by simpa [hid] using h
    rcases hletter with rfl | rfl | rfl <;> decide
  | some i =>
    rw [hid] at h
    obtain rfl | hdigit := eq_minus_or_isDigit_of_mem_toString h
    · decide
    · refine ⟨Bool.eq_false_iff.2 fun hdelimiter => ?_, ?_⟩
      · simp only [isDelimiter, Bool.or_eq_true, decide_eq_true_eq] at hdelimiter
        rcases hdelimiter with (rfl | rfl) | rfl <;> cases hdigit
      · rintro rfl
        cases hdigit

theorem isDelimiter_of_mem_text {ch : Char} (h : ch ∈ e.text.toList) : isDelimiter ch = false := by
  rw [text, String.toList_append, String.toList_append, List.mem_append, List.mem_append] at h
  obtain (hbefore | hword) | hafter := h
  · exact isDelimiter_of_mem_spaces hbefore
  · exact (e.of_mem_word hword).1
  · exact isDelimiter_of_mem_spaces hafter

theorem withoutSpaces_text : withoutSpaces e.text.toList = e.word.toList := by
  have hword : withoutSpaces e.word.toList = e.word.toList :=
    List.filter_eq_self.2 fun ch hch => by simpa using (e.of_mem_word hch).2
  simp [text, hword]

theorem isPresent_word : isPresent e.word.toList = e.id?.isSome := by
  unfold word
  cases e.id? with
  | none => decide
  | some i => exact isPresent_of_leads (leads_toString i.toInt)

end Element

theorem filter_words (es : List Element) :
    (es.map fun e => e.word.toList).filter isPresent =
      (es.filterMap Element.id?).map fun i => (toString i.toInt).toList := by
  induction es with
  | nil => rfl
  | cons e es ih =>
    have hpresent := e.isPresent_word
    cases hid : e.id? with
    | none =>
      rw [List.map_cons, List.filter_cons_of_neg (by simp [hpresent, hid]), ih,
        List.filterMap_cons_none hid]
    | some i =>
      rw [List.map_cons, List.filter_cons_of_pos (by simp [hpresent, hid]), ih,
        List.filterMap_cons_some hid, List.map_cons, Element.word, hid]
      rfl

/-- Of the elements of a literal those that are present are read, without their spaces. -/
theorem filter_elements_literal (inner : Nat) (es : List Element) :
    (elements [] (literal inner es).toList).filter isPresent =
      (es.map fun e => e.word.toList).filter isPresent := by
  have hwritten : (literal inner es).toList = '\x7b' :: ((spaces inner).toList ++
      ([','].intercalate (es.map fun e => e.text.toList) ++ ['\x7d'])) := by
    simp [literal, String.toList_intercalate, Function.comp_def]
  have hplain : ∀ word ∈ es.map fun e => e.text.toList, ∀ ch ∈ word, isDelimiter ch = false := by
    intro word hword ch hch
    obtain ⟨e, -, rfl⟩ := List.mem_map.1 hword
    exact e.isDelimiter_of_mem_text hch
  have hwords : (es.map fun e => e.text.toList).map withoutSpaces =
      es.map fun e => e.word.toList := by
    rw [List.map_map]
    exact List.map_congr_left fun e _ => e.withoutSpaces_text
  rw [hwritten, elements_delimiter rfl, elements_append fun ch => isDelimiter_of_mem_spaces,
    withoutSpaces_spaces, List.append_nil]
  cases es with
  | nil => rfl
  | cons e es =>
    rw [elements_intercalate (by simp) hplain, hwords]
    rfl

theorem decode_literal (inner : Nat) (es : List Element) :
    decode (literal inner es) = .ok ((es.filterMap Element.id?).map Int64.toInt) := by
  rw [decode, filter_elements_literal, filter_words]
  induction es.filterMap Element.id? with
  | nil => rfl
  | cons i ids ih =>
    have hread : readInt .word64 (toString i.toInt).toList = .ok i.toInt :=
      readInt_toString i.le_toInt (Int.le_sub_one_of_lt i.toInt_lt)
    rw [List.map_cons, List.mapM_cons, hread, ih]
    rfl

theorem encode_eq_literal (ids : List Int64) :
    encode (ids.map Int64.toInt) = literal 0 (ids.map fun i => ⟨some i, 0, 0⟩) := by
  have hnone : spaces 0 = "" := rfl
  have htext (i : Int64) : Element.text ⟨some i, 0, 0⟩ = toString i.toInt := by
    simp [Element.text, Element.word, hnone]
  simp [encode, literal, Function.comp_def, htext, hnone]

/-- What is encoded is decoded, and whatever spaces stand around the elements of a literal, the ids
among them are decoded in order. -/
theorem decode_encode_literal :
    (∀ ids : List Int64, decode (encode (ids.map Int64.toInt)) = .ok (ids.map Int64.toInt)) ∧
      ∀ (inner : Nat) (es : List Element),
        decode (literal inner es) = .ok ((es.filterMap Element.id?).map Int64.toInt) := by
  refine ⟨fun ids => ?_, decode_literal⟩
  rw [encode_eq_literal, decode_literal, List.filterMap_map]
  exact congrArg (fun ids : List Int64 => Except.ok (ids.map Int64.toInt)) List.filterMap_some

/-- The extremes are read. -/
example :
    literal 0 [⟨some Int64.minValue, 2, 1⟩, ⟨none, 0, 3⟩, ⟨some Int64.maxValue, 0, 0⟩] =
      "\x7b  -9223372036854775808 ,NULL   ,9223372036854775807\x7d" ∧
    decode "\x7b  -9223372036854775808 ,NULL   ,9223372036854775807\x7d" =
      .ok [-9223372036854775808, 9223372036854775807] := by
  decide +kernel

end EntityStore.IdArray
