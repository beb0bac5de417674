/-!
# Lists in strictly ascending order of a key

One container serves every collection whose listing shows an order: tables of rows by id, sets of
ids, and maps from field names or kinds. An entry is found by its key, inserting an entry replaces
the one with the same key, and two collections are equal when every look-up agrees (`ext_find?`).
-/
namespace EntityStore

/-- Entries in strictly ascending order of their keys. -/
structure Ascending {α κ : Type} [Ord κ] (key : α → κ) where
  toList : List α
  ascending : toList.Pairwise fun a b => compare (key a) (key b) = .lt

namespace Ascending
variable {α κ : Type} [Ord κ] {key : α → κ}

@[ext] theorem ext {m n : Ascending key} (h : m.toList = n.toList) : m = n := by
  cases m; cases n; simp_all

instance [DecidableEq α] : DecidableEq (Ascending key) := fun m n =>
  decidable_of_iff (m.toList = n.toList) ⟨ext, fun h => h ▸ rfl⟩

def empty : Ascending key := ⟨[], .nil⟩

instance : EmptyCollection (Ascending key) := ⟨empty⟩
instance : Inhabited (Ascending key) := ⟨empty⟩

def size (m : Ascending key) : Nat := m.toList.length

def isEmpty (m : Ascending key) : Bool := m.toList.isEmpty

/-- The first entry, in ascending order, that satisfies a condition. -/
def findWhere (m : Ascending key) (p : α → Bool) : Option α := m.toList.find? p

def any (m : Ascending key) (p : α → Bool) : Bool := m.toList.any p

/-- The entry with the largest key. -/
def last? (m : Ascending key) : Option α := m.toList.getLast?

def filter (m : Ascending key) (p : α → Bool) : Ascending key :=
  ⟨m.toList.filter p, m.ascending.filter _⟩

/-- Other entries under the same keys. -/
def map {β : Type} {key' : β → κ} (m : Ascending key) (f : α → β) (h : ∀ a, key' (f a) = key a) :
    Ascending key' :=
  ⟨m.toList.map f, List.pairwise_map.2 (by simpa only [h] using m.ascending)⟩

/-- Places an entry before the first larger one, over an entry with the same key. -/
def insertInto (key : α → κ) (x : α) : List α → List α
  | [] => [x]
  | y :: ys =>
    match compare (key x) (key y) with
    | .lt => x :: y :: ys
    | .eq => x :: ys
    | .gt => y :: insertInto key x ys

theorem mem_insertInto {x z : α} {l : List α} (h : z ∈ insertInto key x l) : z = x ∨ z ∈ l := by
  induction l with
  | nil => simp_all [insertInto]
  | cons y ys ih =>
    simp only [insertInto] at h
    split at h
    · simp_all
    · rcases List.mem_cons.1 h with h | h <;> simp_all
    · rcases List.mem_cons.1 h with h | h
      · simp_all
      · rcases ih h with h | h <;> simp_all

theorem pairwise_insertInto [Std.TransOrd κ] [Std.LawfulEqOrd κ] {l : List α}
    (h : l.Pairwise fun a b => compare (key a) (key b) = .lt) (x : α) :
    (insertInto key x l).Pairwise fun a b => compare (key a) (key b) = .lt := by
  induction l with
  | nil => simp [insertInto]
  | cons y ys ih =>
    obtain ⟨hy, hys⟩ := List.pairwise_cons.1 h
    simp only [insertInto]
    split
    next hxy =>
      refine List.pairwise_cons.2 ⟨fun z hz => ?_, h⟩
      rcases List.mem_cons.1 hz with rfl | hz
      · exact hxy
      · exact Std.TransCmp.lt_trans hxy (hy z hz)
    next hxy =>
      have hk : key x = key y := Std.LawfulEqCmp.eq_of_compare hxy
      exact List.pairwise_cons.2 ⟨fun z hz => hk ▸ hy z hz, hys⟩
    next hxy =>
      refine List.pairwise_cons.2 ⟨fun z hz => ?_, ih hys⟩
      rcases mem_insertInto hz with rfl | hz
      · exact Std.OrientedCmp.gt_iff_lt.1 hxy
      · exact hy z hz

section Insert
variable [Std.TransOrd κ] [Std.LawfulEqOrd κ]

/-- Adds an entry, over the one with the same key. -/
def insert (m : Ascending key) (x : α) : Ascending key :=
  ⟨insertInto key x m.toList, pairwise_insertInto m.ascending x⟩

def ofList (l : List α) : Ascending key := l.foldl insert ∅

/-- Adds every entry of a second collection; its entries win. -/
def union (m n : Ascending key) : Ascending key := n.toList.foldl insert m

end Insert

theorem key_ne_of_lt [Std.LawfulEqOrd κ] {a b : α} (h : compare (key a) (key b) = .lt) :
    key a ≠ key b := by
  intro hk
  rw [hk, Std.ReflOrd.compare_self] at h
  exact Ordering.noConfusion h

section Lookup
variable [DecidableEq κ]

/-- The entry with the given key. -/
def find? (m : Ascending key) (k : κ) : Option α := m.toList.find? fun a => key a = k

def contains (m : Ascending key) (k : κ) : Bool := (m.find? k).isSome

def erase (m : Ascending key) (k : κ) : Ascending key := m.filter fun a => key a ≠ k

@[simp] theorem find?_empty (k : κ) : (∅ : Ascending key).find? k = none := rfl

theorem key_of_find? {m : Ascending key} {k : κ} {x : α} (h : m.find? k = some x) : key x = k := by
  simpa using List.find?_some h

theorem mem_of_find? {m : Ascending key} {k : κ} {x : α} (h : m.find? k = some x) :
    x ∈ m.toList := List.mem_of_find?_eq_some h

theorem find?_map {β : Type} {key' : β → κ} (m : Ascending key) (f : α → β)
    (h : ∀ a, key' (f a) = key a) (k : κ) : (m.map f h).find? k = (m.find? k).map f := by
  simp only [find?, map, List.find?_map, Function.comp_def, h]

variable [Std.LawfulEqOrd κ]

theorem mem_iff_find? {m : Ascending key} {x : α} : x ∈ m.toList ↔ m.find? (key x) = some x := by
  refine ⟨fun hx => ?_, mem_of_find?⟩
  obtain ⟨l, hl⟩ := m
  simp only [find?] at *
  induction l with
  | nil => simp at hx
  | cons y ys ih =>
    obtain ⟨hy, hys⟩ := List.pairwise_cons.1 hl
    rcases List.mem_cons.1 hx with rfl | hx
    · simp
    · rw [List.find?_cons_of_neg (by simpa using key_ne_of_lt (hy x hx)), ih hys hx]

theorem find?_eq_some_iff {m : Ascending key} {k : κ} {x : α} :
    m.find? k = some x ↔ x ∈ m.toList ∧ key x = k :=
  ⟨fun h => ⟨mem_of_find? h, key_of_find? h⟩, fun ⟨hx, hk⟩ => hk ▸ mem_iff_find?.1 hx⟩

theorem contains_iff {m : Ascending key} {k : κ} :
    m.contains k = true ↔ ∃ x ∈ m.toList, key x = k := by
  simp only [contains, Option.isSome_iff_exists, find?_eq_some_iff]

/-- No two entries have one key, so it does not matter from which end a key is looked for. -/
theorem find?_toList_reverse (m : Ascending key) (k : κ) :
    (m.toList.reverse.find? fun a => key a = k) = m.find? k := by
  cases h : m.toList.reverse.find? fun a => key a = k with
  | none =>
    refine (List.find?_eq_none.2 fun x hx => ?_).symm
    exact List.find?_eq_none.1 h x (List.mem_reverse.2 hx)
  | some x =>
    have hx := List.mem_reverse.1 (List.mem_of_find?_eq_some h)
    have hk := List.find?_some h
    exact (find?_eq_some_iff.2 ⟨hx, by simpa using hk⟩).symm

theorem find?_insertInto (x : α) (l : List α) (k : κ) :
    (insertInto key x l).find? (fun a => key a = k) =
      if key x = k then some x else l.find? fun a => key a = k := by
  induction l with
  | nil => by_cases h : key x = k <;> simp [insertInto, h]
  | cons y ys ih =>
    simp only [insertInto]
    split
    next => by_cases h : key x = k <;> simp [h]
    next hxy =>
      have hk : key x = key y := Std.LawfulEqCmp.eq_of_compare hxy
      by_cases h : key x = k
      · simp [h]
      · simp [h, show key y ≠ k from hk ▸ h]
    next hxy =>
      by_cases hy : key y = k
      · have h : key x ≠ k := by
          intro h
          rw [h, hy, Std.ReflOrd.compare_self] at hxy
          exact Ordering.noConfusion hxy
        simp [hy, h]
      · simp [hy, ih]

theorem find?_filter (m : Ascending key) (p : α → Bool) (k : κ) :
    (m.filter p).find? k = (m.find? k).filter p := by
  apply Option.ext
  intro x
  rw [find?_eq_some_iff, Option.filter_eq_some_iff, find?_eq_some_iff]
  simp only [filter, List.mem_filter]
  constructor <;> rintro ⟨⟨h1, h2⟩, h3⟩ <;> exact ⟨⟨h1, h3⟩, h2⟩

theorem find?_erase (m : Ascending key) (i k : κ) :
    (m.erase i).find? k = if i = k then none else m.find? k := by
  rw [erase, find?_filter]
  cases h : m.find? k with
  | none => simp
  | some x =>
    by_cases hk : i = k
    · simp [Option.filter, key_of_find? h, hk]
    · simp [Option.filter, key_of_find? h, hk, Ne.symm hk]

variable [Std.TransOrd κ]

theorem find?_insert (m : Ascending key) (x : α) (k : κ) :
    (m.insert x).find? k = if key x = k then some x else m.find? k :=
  find?_insertInto x m.toList k

theorem find?_foldl_insert (l : List α) (m : Ascending key) (k : κ) :
    (l.foldl insert m).find? k = (l.reverse.find? fun a => key a = k).or (m.find? k) := by
  induction l generalizing m with
  | nil => simp
  | cons x l ih =>
    rw [List.foldl_cons, ih, find?_insert, List.reverse_cons, List.find?_append, Option.or_assoc]
    by_cases h : key x = k <;> simp [h]

theorem find?_ofList (l : List α) (k : κ) :
    (ofList l : Ascending key).find? k = l.reverse.find? fun a => key a = k := by
  simp [ofList, find?_foldl_insert]

theorem find?_union (m n : Ascending key) (k : κ) :
    (m.union n).find? k = (n.find? k).or (m.find? k) := by
  rw [union, find?_foldl_insert, find?_toList_reverse]

theorem ext_find? {m n : Ascending key} (h : ∀ k, m.find? k = n.find? k) : m = n := by
  have nodup (c : Ascending key) : c.toList.Nodup :=
    c.ascending.imp fun {a b} hab (heq : a = b) => key_ne_of_lt hab (heq ▸ rfl)
  have perm : m.toList.Perm n.toList := by
    refine (List.perm_ext_iff_of_nodup (nodup m) (nodup n)).2 fun x => ?_
    rw [mem_iff_find?, mem_iff_find?, h]
  have asymm (a b : α) (_ : a ∈ m.toList) (_ : b ∈ n.toList)
      (hab : compare (key a) (key b) = .lt) (hba : compare (key b) (key a) = .lt) : a = b :=
    absurd hba (Std.OrientedCmp.not_lt_of_lt hab)
  exact ext (perm.eq_of_pairwise asymm m.ascending n.ascending)

end Lookup

end Ascending

end EntityStore
