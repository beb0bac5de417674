import EntityStore.Ascending
/-!
# Maps listed in ascending key order

A map is an ascending list of key and value pairs. The equations `get?_set`, `get?_erase`,
`get?_filter` and `get?_union` say what every change does to a look-up.
-/
namespace EntityStore

abbrev SortedMap (κ β : Type) [Ord κ] := Ascending fun e : κ × β => e.1

namespace SortedMap
variable {κ β : Type} [Ord κ] [DecidableEq κ]

def get? (m : SortedMap κ β) (k : κ) : Option β := (m.find? k).map (·.2)

def keys (m : SortedMap κ β) : List κ := m.toList.map (·.1)

section Change
variable [Std.TransOrd κ] [Std.LawfulEqOrd κ]

def set (m : SortedMap κ β) (k : κ) (v : β) : SortedMap κ β := m.insert (k, v)

end Change

@[simp] theorem get?_empty (k : κ) : (∅ : SortedMap κ β).get? k = none := rfl

variable [Std.LawfulEqOrd κ]

theorem get?_eq_some_iff {m : SortedMap κ β} {k : κ} {v : β} :
    m.get? k = some v ↔ (k, v) ∈ m.toList := by
  simp only [get?, Option.map_eq_some_iff, Ascending.find?_eq_some_iff]
  constructor
  · rintro ⟨⟨k', v'⟩, ⟨h, rfl⟩, rfl⟩
    exact h
  · exact fun h => ⟨_, ⟨h, rfl⟩, rfl⟩

theorem get?_erase (m : SortedMap κ β) (i k : κ) :
    get? (m.erase i) k = if i = k then none else m.get? k := by
  simp only [get?, Ascending.find?_erase]
  split <;> rfl

theorem get?_filter (m : SortedMap κ β) (p : κ → Bool) (k : κ) :
    get? (m.filter fun e => p e.1) k = if p k then m.get? k else none := by
  rw [get?, Ascending.find?_filter, get?]
  cases h : m.find? k with
  | none => simp
  | some e =>
    obtain rfl := Ascending.key_of_find? h
    by_cases hp : p e.1 <;> simp [hp, Option.filter]

variable [Std.TransOrd κ]

theorem get?_union (m n : SortedMap κ β) (k : κ) :
    get? (m.union n) k = (n.get? k).or (m.get? k) := by
  rw [get?, Ascending.find?_union, get?, get?, Option.map_or]

theorem get?_set (m : SortedMap κ β) (i : κ) (v : β) (k : κ) :
    (m.set i v).get? k = if i = k then some v else m.get? k := by
  simp only [get?, set, Ascending.find?_insert]
  split <;> rfl

theorem ext_get? {m n : SortedMap κ β} (h : ∀ k, m.get? k = n.get? k) : m = n := by
  refine Ascending.ext_find? fun k => Option.ext fun ⟨k', v⟩ => ?_
  have aux (c : SortedMap κ β) : c.find? k = some (k', v) ↔ c.get? k = some v ∧ k' = k := by
    rw [Ascending.find?_eq_some_iff, get?_eq_some_iff]
    constructor <;> rintro ⟨h, rfl⟩ <;> exact ⟨h, rfl⟩
  rw [aux, aux, h]

theorem set_set (m : SortedMap κ β) (i : κ) (a b : β) : (m.set i a).set i b = m.set i b := by
  apply ext_get?
  intro j
  simp only [get?_set]
  split <;> rfl

end SortedMap

end EntityStore
