import EntityStore.Id
import Mathlib.Data.List.Nodup
import Mathlib.Data.List.Perm.Subperm
/-!
# Maps of ids

A map that lists no kind without ids is determined by the rows that it names (`IdMap.ext_has`), and
maps built row by row are of that sort. A map names every row once, so one that names only some of
the rows of another names fewer (`IdMap.total_lt`).
-/
namespace EntityStore

theorem IdSet.ext_contains {s t : IdSet} (h : ∀ i, s.contains i = t.contains i) : s = t := by
  apply Ascending.ext_find?
  intro i
  apply Option.ext
  intro j
  have aux (u : IdSet) : u.find? i = some j ↔ u.contains i = true ∧ j = i := by
    rw [Ascending.find?_eq_some_iff, IdSet.mem_toList]
    constructor <;> rintro ⟨hu, rfl⟩ <;> exact ⟨hu, rfl⟩
  rw [aux, aux, h]

theorem IdSet.exists_contains {s : IdSet} (h : s.isEmpty = false) : ∃ i, s.contains i = true := by
  obtain ⟨i, hi⟩ := List.exists_mem_of_ne_nil s.toList (by
    intro hnil
    rw [Ascending.isEmpty, hnil] at h
    cases h)
  exact ⟨i, IdSet.mem_toList.1 hi⟩

theorem IdSet.union_assoc (s t u : IdSet) : (s.union t).union u = s.union (t.union u) := by
  apply ext_contains
  intro i
  simp [Bool.or_assoc]

theorem IdSet.eq_empty_of_isEmpty {s : IdSet} (h : s.isEmpty = true) : s = ∅ :=
  Ascending.ext (List.isEmpty_iff.1 h)

theorem IdSet.isEmpty_eq_false {s : IdSet} {i : Id} (h : s.contains i = true) :
    s.isEmpty = false := by
  cases he : s.isEmpty with
  | false => rfl
  | true =>
    rw [eq_empty_of_isEmpty he] at h
    cases h

theorem IdSet.toList_ofIds {ids : List Id} (h : ids.Pairwise (· < ·)) :
    (ofIds ids).toList = ids := by
  have hascending : ids.Pairwise fun a b => compare a b = .lt :=
    h.imp fun hlt => Int.compare_eq_lt.2 hlt
  have hsame : ofIds ids = ⟨ids, hascending⟩ := by
    apply ext_contains
    intro i
    rw [contains_ofIds, Bool.eq_iff_iff, decide_eq_true_iff, ← mem_toList]
  rw [hsame]

namespace IdMap

/-- No kind is listed without an id. -/
def Dense (m : IdMap) : Prop := ∀ k ids, m.get? k = some ids → ids.isEmpty = false

theorem has_eq_of_get? {m : IdMap} {k : Kind} {s : IdSet} (h : m.get? k = some s) (i : Id) :
    m.has k i = s.contains i := by
  rw [has, ids, h]
  rfl

theorem has_eq_false_of_get? {m : IdMap} {k : Kind} (h : m.get? k = none) (i : Id) :
    m.has k i = false := by
  rw [has, ids, h]
  rfl

theorem has_foldl_add (l : List (Kind × IdSet)) (m : IdMap) (k : Kind) (i : Id) :
    (l.foldl (fun acc e => acc.add e.1 e.2) m).has k i =
      (m.has k i || l.any fun e => decide (e.1 = k) && e.2.contains i) := by
  induction l generalizing m with
  | nil => simp
  | cons e l ih => rw [List.foldl_cons, ih, has_add, List.any_cons, Bool.or_assoc]

theorem has_foldl_remove (l : List (Kind × IdSet)) (m : IdMap) (k : Kind) (i : Id) :
    (l.foldl (fun acc e => acc.remove e.1 e.2) m).has k i =
      (m.has k i && !l.any fun e => decide (e.1 = k) && e.2.contains i) := by
  induction l generalizing m with
  | nil => simp
  | cons e l ih =>
    rw [List.foldl_cons, ih, has_remove, List.any_cons, Bool.not_or, Bool.and_assoc]

theorem any_toList (m : IdMap) (k : Kind) (i : Id) :
    (m.toList.any fun e => decide (e.1 = k) && e.2.contains i) = m.has k i := by
  rw [Bool.eq_iff_iff, List.any_eq_true, ← mem_nodes (n := (k, i)), nodes, List.mem_flatMap]
  constructor
  · rintro ⟨⟨k, s⟩, hmem, h⟩
    rw [Bool.and_eq_true, decide_eq_true_eq] at h
    obtain ⟨rfl, hi⟩ := h
    exact ⟨_, hmem, List.mem_map_of_mem (IdSet.mem_toList.2 hi)⟩
  · rintro ⟨⟨k', s⟩, hmem, h⟩
    rcases List.mem_map.1 h with ⟨i', hi, heq⟩
    cases heq
    exact ⟨_, hmem, by simp [IdSet.mem_toList.1 hi]⟩

@[simp] theorem has_merge (m n : IdMap) (k : Kind) (i : Id) :
    (m.merge n).has k i = (m.has k i || n.has k i) := by
  rw [merge, has_foldl_add, any_toList]

theorem ext_has {m n : IdMap} (hm : m.Dense) (hn : n.Dense) (h : ∀ k i, m.has k i = n.has k i) :
    m = n := by
  have listed (a b : IdMap) (ha : a.Dense) (hab : ∀ k i, a.has k i = b.has k i) (k : Kind)
      (s : IdSet) (hs : a.get? k = some s) : b.get? k = some s := by
    cases hb : b.get? k with
    | none =>
      rcases IdSet.exists_contains (ha k s hs) with ⟨i, hi⟩
      rw [← has_eq_of_get? hs, hab, has_eq_false_of_get? hb] at hi
      cases hi
    | some t =>
      congr 1
      apply IdSet.ext_contains
      intro i
      rw [← has_eq_of_get? hs, ← has_eq_of_get? hb, hab]
  apply SortedMap.ext_get?
  intro k
  apply Option.ext
  intro s
  exact ⟨listed m n hm h k s, listed n m hn (fun k i => (h k i).symm) k s⟩

theorem dense_empty : Dense ∅ := by
  intro k ids h
  cases h

theorem dense_addId {m : IdMap} (h : m.Dense) (k : Kind) (i : Id) : (m.addId k i).Dense := by
  intro j ids hj
  rw [addId, SortedMap.get?_set] at hj
  split at hj
  · obtain rfl := Option.some.inj hj
    exact IdSet.isEmpty_eq_false (i := i) (by simp)
  · exact h j ids hj

theorem dense_ofNodes (l : List Node) : (ofNodes l).Dense := by
  have h (m : IdMap) (hm : m.Dense) : (l.foldl (fun m n => m.addId n.1 n.2) m).Dense := by
    induction l generalizing m with
    | nil => exact hm
    | cons n l ih => exact ih _ (dense_addId hm n.1 n.2)
  exact h ∅ dense_empty

theorem dense_add {m : IdMap} (h : m.Dense) (k : Kind) {ids : IdSet} (hids : ids.isEmpty = false) :
    (m.add k ids).Dense := by
  intro j s hj
  rw [add, SortedMap.get?_set] at hj
  split at hj
  · obtain rfl := Option.some.inj hj
    obtain ⟨i, hi⟩ := IdSet.exists_contains hids
    exact IdSet.isEmpty_eq_false (i := i) (by simp [hi])
  · exact h j s hj

theorem dense_prune (m : IdMap) : m.prune.Dense := by
  intro k ids h
  rw [get?_prune, Option.filter_eq_some_iff] at h
  simpa using h.2

theorem add_add (m : IdMap) (k : Kind) (s t : IdSet) :
    (m.add k s).add k t = m.add k (s.union t) := by
  rw [add, add, add, ids_set, if_pos rfl, SortedMap.set_set, IdSet.union_assoc]

theorem prune_remove_remove (m : IdMap) (k : Kind) (s t : IdSet) :
    ((m.remove k s).prune.remove k t).prune = (m.remove k (s.union t)).prune := by
  apply ext_has (dense_prune _) (dense_prune _)
  intro j i
  simp only [has_prune, has_remove, IdSet.contains_union]
  cases decide (k = j) <;> simp [Bool.and_assoc]

theorem nodup_nodes (m : IdMap) : m.nodes.Nodup := by
  apply List.nodup_flatMap.2
  constructor
  · rintro ⟨k, s⟩ _
    exact List.pairwise_map.2 (s.ascending.imp fun hlt h =>
      Ascending.key_ne_of_lt hlt (congrArg Prod.snd h))
  · apply m.ascending.imp
    rintro ⟨k, s⟩ ⟨j, t⟩ hlt n hn hn'
    rcases List.mem_map.1 hn with ⟨_, _, rfl⟩
    rcases List.mem_map.1 hn' with ⟨_, _, h⟩
    exact Ascending.key_ne_of_lt hlt (congrArg Prod.fst h).symm

theorem length_nodes (m : IdMap) : m.nodes.length = m.total := by
  rw [nodes, total, List.length_flatMap, List.sum_eq_foldr]
  simp [Ascending.size]

theorem total_lt {m n : IdMap} (h : ∀ k i, m.has k i = true → n.has k i = true) {k : Kind} {i : Id}
    (hn : n.has k i = true) (hm : m.has k i = false) : m.total < n.total := by
  have hnew : (k, i) ∉ m.nodes := by
    rw [mem_nodes, hm]
    exact Bool.false_ne_true
  have hsub : ((k, i) :: m.nodes) ⊆ n.nodes := by
    intro x hx
    rcases List.mem_cons.1 hx with rfl | hx
    · exact mem_nodes.2 hn
    · exact mem_nodes.2 (h x.1 x.2 (mem_nodes.1 hx))
  have hle := ((List.nodup_cons.2 ⟨hnew, m.nodup_nodes⟩).subperm hsub).length_le
  rw [List.length_cons, length_nodes, length_nodes] at hle
  exact hle

theorem total_congr {m n : IdMap} (h : ∀ k i, m.has k i = n.has k i) : m.total = n.total := by
  rw [← length_nodes, ← length_nodes]
  apply List.Perm.length_eq
  apply (List.perm_ext_iff_of_nodup m.nodup_nodes n.nodup_nodes).2
  intro x
  rw [mem_nodes, mem_nodes, h]

/-- `Before a b`: the row `a` comes before `b` in kind order, or in the order of the ids. -/
def Before (a b : Node) : Prop := compare a.1 b.1 = .lt ∨ a.1 = b.1 ∧ a.2 < b.2

theorem pairwise_nodes (m : IdMap) : m.nodes.Pairwise Before := by
  apply List.pairwise_flatMap.2
  constructor
  · rintro ⟨k, s⟩ _
    exact List.pairwise_map.2 (s.ascending.imp fun hlt => Or.inr ⟨rfl, Int.compare_eq_lt.1 hlt⟩)
  · apply m.ascending.imp
    rintro ⟨k, s⟩ ⟨j, t⟩ hlt a ha b hb
    rcases List.mem_map.1 ha with ⟨_, _, rfl⟩
    rcases List.mem_map.1 hb with ⟨_, _, rfl⟩
    exact Or.inl hlt

theorem nodes_eq_nil_of_isEmpty {m : IdMap} (h : m.isEmpty = true) : m.nodes = [] := by
  rw [nodes, List.isEmpty_iff.1 h]
  rfl

end IdMap

end EntityStore
