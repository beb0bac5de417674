import EntityStore.Proofs.Text.Blank
import EntityStore.Text.Integer
/-!
# What an integer is read from

A text leads with a number when it is made of blanks, at most one sign, digits and a rest that does
not go on with a digit (`Leads`). The number and the rest are the only ones of the text, and the
number is what is read. A number that is written in decimal is read back (`readInt_toString`).
-/
namespace EntityStore.Text

/-- An optional sign, with the factor that it stands for. -/
inductive Sign : List Char → Int → Prop where
  | none : Sign [] 1
  | plus : Sign ['+'] 1
  | minus : Sign ['-'] (-1)

/-- A text is made of a number, with blanks and a sign before it, and a rest. -/
def Leads (cs : List Char) (i : Int) (rest : List Char) : Prop :=
  ∃ blanks sign factor digits, cs = blanks ++ (sign ++ (digits ++ rest)) ∧
    (∀ ch ∈ blanks, isBlank ch = true) ∧ Sign sign factor ∧
    digits ≠ [] ∧ (∀ ch ∈ digits, ch.isDigit = true) ∧ (∀ ch ∈ rest.head?, ch.isDigit = false) ∧
    i = factor * digitsValue 0 digits

/-- The factor of the sign at the front, and what follows it. -/
def splitSign : List Char → Int × List Char
  | '-' :: cs => (-1, cs)
  | '+' :: cs => (1, cs)
  | cs => (1, cs)

theorem exists_sign (cs : List Char) :
    ∃ sign, Sign sign (splitSign cs).1 ∧ cs = sign ++ (splitSign cs).2 := by
  unfold splitSign
  split
  next => exact ⟨_, .minus, rfl⟩
  next => exact ⟨_, .plus, rfl⟩
  next => exact ⟨_, .none, rfl⟩

theorem isBlank_of_isDigit {ch : Char} (h : ch.isDigit = true) : isBlank ch = false := by
  refine Bool.eq_false_iff.2 fun hblank => ?_
  simp only [isBlank, Bool.or_eq_true, decide_eq_true_eq] at hblank
  rcases hblank with ((((rfl | rfl) | rfl) | rfl) | rfl) | rfl <;> cases h

theorem splitSign_append {sign rest : List Char} {factor : Int} (h : Sign sign factor)
    (hrest : ∃ ch ∈ rest.head?, ch.isDigit = true) :
    splitSign (sign ++ rest) = (factor, rest) ∧
      ∀ ch ∈ (sign ++ rest).head?, isBlank ch = false := by
  cases h with
  | plus => exact ⟨rfl, by rintro _ ⟨⟩; rfl⟩
  | minus => exact ⟨rfl, by rintro _ ⟨⟩; rfl⟩
  | none =>
    obtain ⟨ch, hch, hdigit⟩ := hrest
    obtain ⟨cs, rfl⟩ := List.head?_eq_some_iff.1 hch
    constructor
    · rw [List.nil_append, splitSign]
      · rintro cs ⟨⟩
        cases hdigit
      · rintro cs ⟨⟩
        cases hdigit
    · rintro _ ⟨⟩
      exact isBlank_of_isDigit hdigit

theorem leadingInt?_eq (cs : List Char) :
    leadingInt? cs = (leadingNat? (splitSign (cs.dropWhile isBlank)).2).map fun n : Nat =>
      (splitSign (cs.dropWhile isBlank)).1 * (n : Int) := by
  unfold leadingInt?
  generalize cs.dropWhile isBlank = cs
  unfold splitSign
  split
  next rest =>
    simp only [Int.neg_one_mul]
    cases leadingNat? rest <;> rfl
  next rest =>
    simp only [Int.one_mul]
    rfl
  next =>
    simp only [Int.one_mul]
    rfl

theorem leads_iff {cs rest : List Char} {i : Int} :
    Leads cs i rest ↔ leadingInt? cs = some i ∧
      rest = (splitSign (cs.dropWhile isBlank)).2.dropWhile Char.isDigit := by
  rw [leadingInt?_eq]
  constructor
  · rintro ⟨blanks, sign, factor, digits, rfl, hblanks, hsign, hne, hdigits, hstop, rfl⟩
    have hfirst : ∃ ch ∈ (digits ++ rest).head?, ch.isDigit = true := by
      obtain ⟨ch, ds, rfl⟩ := List.exists_cons_of_ne_nil hne
      exact ⟨ch, rfl, hdigits ch List.mem_cons_self⟩
    obtain ⟨hsplit, hhead⟩ := splitSign_append hsign hfirst
    rw [dropWhile_append_exact hblanks hhead, hsplit]
    constructor
    · obtain ⟨ch, ds, rfl⟩ := List.exists_cons_of_ne_nil hne
      simp only [leadingNat?, takeWhile_append_exact hdigits hstop, Option.map_some]
    · exact (dropWhile_append_exact hdigits hstop).symm
  · rintro ⟨hread, rfl⟩
    obtain ⟨sign, hsign, hsplit⟩ := exists_sign (cs.dropWhile isBlank)
    generalize splitSign (cs.dropWhile isBlank) = split at *
    obtain ⟨factor, after⟩ := split
    obtain ⟨n, hn, rfl⟩ := Option.map_eq_some_iff.1 hread
    unfold leadingNat? at hn
    split at hn
    next => cases hn
    next digits hne =>
      obtain rfl := Option.some.inj hn
      refine ⟨cs.takeWhile isBlank, sign, factor, after.takeWhile Char.isDigit, ?_,
        fun ch => List.mem_takeWhile_imp, hsign, hne, fun ch => List.mem_takeWhile_imp,
        head?_dropWhile, rfl⟩
      rw [List.takeWhile_append_dropWhile, ← hsplit, List.takeWhile_append_dropWhile]

theorem Leads.unique {cs rest rest' : List Char} {i j : Int} (h : Leads cs i rest)
    (h' : Leads cs j rest') : i = j ∧ rest = rest' := by
  obtain ⟨hi, hrest⟩ := leads_iff.1 h
  obtain ⟨hj, hrest'⟩ := leads_iff.1 h'
  exact ⟨Option.some.inj (hi.symm.trans hj), hrest.trans hrest'.symm⟩

theorem exists_leads_iff {cs : List Char} {i : Int} :
    (∃ rest, Leads cs i rest) ↔ leadingInt? cs = some i := by
  simp [leads_iff]

theorem readInt_eq_ok_iff {limits : Limits} {cs : List Char} {i : Int} :
    readInt limits cs = .ok i ↔ (∃ rest, Leads cs i rest) ∧ limits.low ≤ i ∧ i ≤ limits.high := by
  rw [exists_leads_iff, readInt]
  cases h : leadingInt? cs with
  | none => simp
  | some j =>
    by_cases hj : limits.low ≤ j ∧ j ≤ limits.high
    · simp only [if_pos hj, Except.ok.injEq, Option.some.injEq]
      constructor
      · rintro rfl
        exact ⟨rfl, hj⟩
      · exact fun h => h.1
    · simp only [if_neg hj, Option.some.injEq, reduceCtorEq, false_iff, not_and]
      rintro rfl
      exact not_and.1 hj

theorem toList_toString (i : Int) :
    (toString i).toList = (if i < 0 then ['-'] else []) ++ Nat.toDigits 10 i.natAbs := by
  cases i with
  | ofNat n => exact Nat.toList_repr
  | negSucc n =>
    have hwritten : toString (Int.negSucc n) = "-" ++ (n + 1).repr := rfl
    rw [hwritten, String.toList_append, Nat.toList_repr, if_pos (Int.negSucc_lt_zero n)]
    rfl

theorem eq_minus_or_isDigit_of_mem_toString {i : Int} {ch : Char} (h : ch ∈ (toString i).toList) :
    ch = '-' ∨ ch.isDigit = true := by
  rw [toList_toString, List.mem_append] at h
  obtain hsign | hdigit := h
  · split at hsign
    next => exact Or.inl (List.mem_singleton.1 hsign)
    next => cases hsign
  · exact Or.inr (Nat.isDigit_of_mem_toDigits (by decide) (by decide) hdigit)

theorem leads_toString (i : Int) : Leads (toString i).toList i [] := by
  have hdigits : ∀ ch ∈ Nat.toDigits 10 i.natAbs, ch.isDigit = true :=
    fun ch => Nat.isDigit_of_mem_toDigits (by decide) (by decide)
  have hvalue : digitsValue 0 (Nat.toDigits 10 i.natAbs) = i.natAbs :=
    Nat.ofDigitChars_ten_toDigits
  have hfactor (sign : List Char) (factor : Int) (hsign : Sign sign factor)
      (hi : i = factor * i.natAbs) : Leads (sign ++ Nat.toDigits 10 i.natAbs) i [] := by
    refine ⟨[], sign, factor, Nat.toDigits 10 i.natAbs, ?_, by simp, hsign, Nat.toDigits_ne_nil,
      hdigits, by simp, ?_⟩
    · rw [List.append_nil, List.nil_append]
    · rw [hvalue]
      exact hi
  rw [toList_toString]
  split
  next hneg => exact hfactor ['-'] (-1) .minus (by omega)
  next hpos => exact hfactor [] 1 .none (by omega)

theorem readInt_toString {limits : Limits} {i : Int} (hlow : limits.low ≤ i)
    (hhigh : i ≤ limits.high) : readInt limits (toString i).toList = .ok i :=
  readInt_eq_ok_iff.2 ⟨⟨[], leads_toString i⟩, hlow, hhigh⟩

end EntityStore.Text
