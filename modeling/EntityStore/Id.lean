import EntityStore.Kind
import EntityStore.SortedMap
/-!
# Row ids, sets of ids and ids by kind

An id names a row within its kind. Ids have 64 bits, and sums of ids wrap around in them
(`Id.wrap`), which changes a sum only if 64 bits do not hold it (`Id.Fits`). Sets of ids list them
in ascending order; a map from kinds to sets names rows of the whole store. A kind may be present in
a map with no ids, which `prune` undoes. What a map names is given by `has`, and the lemmas say what
every change does to it.
-/
namespace EntityStore

/-- Identity of a row within its kind. -/
abbrev Id := Int

/-- The id of a row that has not been given one yet. -/
def pendingId : Id := 0

namespace Id

/-- What 64 bits keep of a number. -/
def wrap (i : Int) : Id := (Int64.ofInt i).toInt

/-- Whether 64 bits hold a number. -/
def Fits (i : Int) : Prop := Int64.minValue.toInt ≤ i ∧ i ≤ Int64.maxValue.toInt

instance (i : Int) : Decidable (Fits i) := inferInstanceAs (Decidable (_ ∧ _))

theorem fits_wrap (i : Int) : Fits (wrap i) := by
  rw [Fits, Int64.toInt_minValue, Int64.toInt_maxValue]
  exact ⟨Int64.le_toInt _, Int.le_sub_one_of_lt (Int64.toInt_lt _)⟩

theorem Fits.wrap_eq {i : Int} (h : Fits i) : wrap i = i := by
  rw [Fits, Int64.toInt_minValue, Int64.toInt_maxValue] at h
  exact Int64.toInt_ofInt_of_le h.1 (Int.lt_of_le_sub_one h.2)

theorem Fits.of_le {i j l : Int} (hi : Fits i) (hl : Fits l) (hij : i ≤ j) (hjl : j ≤ l) : Fits j :=
  ⟨Int.le_trans hi.1 hij, Int.le_trans hjl hl.2⟩

/-- Sums may be wrapped at every step or at the end. -/
theorem wrap_wrap_add (i j : Int) : wrap (wrap i + j) = wrap (i + j) := by
  simp only [wrap, Int64.toInt_ofInt, Int.bmod_add_bmod]

end Id

/-- A row of the store, by kind and id. -/
abbrev Node := Kind × Id

abbrev IdSet := Ascending fun i : Id => i

namespace IdSet

def ofIds (ids : List Id) : IdSet := Ascending.ofList ids

@[simp] theorem contains_ofIds {ids : List Id} {i : Id} :
    (ofIds ids).contains i = decide (i ∈ ids) := by
  rw [Bool.eq_iff_iff, decide_eq_true_iff, Ascending.contains, ofIds, Ascending.find?_ofList]
  simp

@[simp] theorem contains_insert (s : IdSet) (i j : Id) :
    (s.insert i).contains j = (decide (i = j) || s.contains j) := by
  rw [Ascending.contains, Ascending.find?_insert]
  by_cases h : i = j <;> simp [h, Ascending.contains]

@[simp] theorem contains_union (s t : IdSet) (i : Id) :
    (s.union t).contains i = (s.contains i || t.contains i) := by
  rw [Ascending.contains, Ascending.find?_union, Option.isSome_or, Bool.or_comm]
  rfl

@[simp] theorem contains_filter (s : IdSet) (p : Id → Bool) (i : Id) :
    (s.filter p).contains i = (s.contains i && p i) := by
  rw [Ascending.contains, Ascending.find?_filter, Ascending.contains]
  cases h : s.find? i with
  | none => rfl
  | some j =>
    obtain rfl : j = i := Ascending.key_of_find? h
    by_cases hp : p j <;> simp [Option.filter, hp]

@[simp] theorem contains_empty (i : Id) : (∅ : IdSet).contains i = false := rfl

theorem mem_toList {s : IdSet} {i : Id} : i ∈ s.toList ↔ s.contains i = true := by
  simp [Ascending.contains_iff]

end IdSet

abbrev IdMap := SortedMap Kind IdSet

namespace IdMap

/-- The ids listed under a kind; none when the kind is absent. -/
def ids (m : IdMap) (k : Kind) : IdSet := (m.get? k).getD ∅

/-- Whether a row is named by the map. -/
def has (m : IdMap) (k : Kind) (i : Id) : Bool := (m.ids k).contains i

def add (m : IdMap) (k : Kind) (s : IdSet) : IdMap := m.set k ((m.ids k).union s)

def addId (m : IdMap) (k : Kind) (i : Id) : IdMap := m.set k ((m.ids k).insert i)

/-- The ids of both maps, kind by kind. A kind present in either map stays present. -/
def merge (m n : IdMap) : IdMap := n.toList.foldl (fun acc e => acc.add e.1 e.2) m

/-- Takes ids away from a kind that is present; an absent kind stays absent. -/
def remove (m : IdMap) (k : Kind) (s : IdSet) : IdMap :=
  match m.get? k with
  | none => m
  | some old => m.set k (old.filter fun i => !s.contains i)

/-- Leaves out the kinds without ids. -/
def prune (m : IdMap) : IdMap := m.filter fun e => !e.2.isEmpty

/-- Number of rows named. -/
def total (m : IdMap) : Nat := (m.toList.map fun e => e.2.size).foldr (· + ·) 0

/-- The rows named, in kind order and then by id. -/
def nodes (m : IdMap) : List Node :=
  m.toList.flatMap fun e => e.2.toList.map fun i => (e.1, i)

/-- The kinds that have at least one id. -/
def kinds (m : IdMap) : List Kind := (m.prune).keys

def ofNodes (l : List Node) : IdMap := l.foldl (fun m n => m.addId n.1 n.2) ∅

theorem ids_set (m : IdMap) (k : Kind) (s : IdSet) (j : Kind) :
    ids (m.set k s) j = if k = j then s else m.ids j := by
  rw [ids, SortedMap.get?_set]
  split <;> rfl

@[simp] theorem has_empty (k : Kind) (i : Id) : has ∅ k i = false := rfl

@[simp] theorem has_add (m : IdMap) (k : Kind) (s : IdSet) (j : Kind) (i : Id) :
    (m.add k s).has j i = (m.has j i || decide (k = j) && s.contains i) := by
  rw [has, add, ids_set]
  by_cases h : k = j
  · subst h
    simp [has]
  · simp [h, has]

@[simp] theorem has_addId (m : IdMap) (k : Kind) (i : Id) (j : Kind) (l : Id) :
    (m.addId k i).has j l = (m.has j l || decide (k = j ∧ i = l)) := by
  rw [has, addId, ids_set]
  by_cases h : k = j
  · subst h
    simp [has, Bool.or_comm]
  · simp [h, has]

theorem has_remove (m : IdMap) (k : Kind) (s : IdSet) (j : Kind) (i : Id) :
    (m.remove k s).has j i = (m.has j i && !(decide (k = j) && s.contains i)) := by
  rw [remove]
  split
  next h =>
    by_cases hk : k = j
    · subst hk
      simp [has, ids, h]
    · simp [hk]
  next old h =>
    rw [has, ids_set]
    by_cases hk : k = j
    · subst hk
      simp [has, ids, h]
    · simp [hk, has]

theorem get?_prune (m : IdMap) (k : Kind) :
    m.prune.get? k = (m.get? k).filter fun s => !s.isEmpty := by
  rw [prune, SortedMap.get?, Ascending.find?_filter, SortedMap.get?]
  cases m.find? k with
  | none => rfl
  | some e => by_cases h : e.2.isEmpty <;> simp [Option.filter, h]

@[simp] theorem has_prune (m : IdMap) (k : Kind) (i : Id) : m.prune.has k i = m.has k i := by
  rw [has, has, ids, ids, get?_prune]
  cases h : m.get? k with
  | none => rfl
  | some s =>
    by_cases hs : s.isEmpty
    · have : s = ∅ := Ascending.ext (List.isEmpty_iff.1 hs)
      simp [this]
      rfl
    · simp [Option.filter, hs]

theorem mem_nodes {m : IdMap} {n : Node} : n ∈ m.nodes ↔ m.has n.1 n.2 = true := by
  obtain ⟨k, i⟩ := n
  simp only [nodes, List.mem_flatMap, List.mem_map, Prod.mk.injEq]
  constructor
  · rintro ⟨⟨k', s⟩, he, i', hi, rfl, rfl⟩
    rw [has, ids, SortedMap.get?_eq_some_iff.2 he]
    exact IdSet.mem_toList.1 hi
  · intro h
    cases hg : m.get? k with
    | none => simp [has, ids, hg] at h
    | some s =>
      refine ⟨(k, s), SortedMap.get?_eq_some_iff.1 hg, i, ?_, rfl, rfl⟩
      simpa [has, ids, hg, IdSet.mem_toList] using h

theorem has_foldl_addId (l : List Node) (m : IdMap) (k : Kind) (i : Id) :
    (l.foldl (fun m n => m.addId n.1 n.2) m).has k i = (m.has k i || decide ((k, i) ∈ l)) := by
  induction l generalizing m with
  | nil => simp
  | cons n l ih =>
    obtain ⟨j, c⟩ := n
    simp only [List.foldl_cons, ih, has_addId, List.mem_cons, Prod.mk.injEq, Bool.or_assoc,
      Bool.decide_or]
    congr 2
    simp [eq_comm]

@[simp] theorem has_ofNodes (l : List Node) (k : Kind) (i : Id) :
    (ofNodes l).has k i = decide ((k, i) ∈ l) := by
  simp [ofNodes, has_foldl_addId]

end IdMap

end EntityStore
