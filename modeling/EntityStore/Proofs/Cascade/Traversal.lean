import EntityStore.Cascade.Walk
import Mathlib.Data.List.Nodup
/-!
# What a walk reaches

The rows that go with some rows are the least set that holds these, every row with an owner in the
set, and all metadata whose joins are all in the set. A walk reaches exactly that set
(`mem_reach_iff`). Half way through, the rows reached together with those waiting are closed under
the links of the rows reached, and the counts are those of the joins not reached yet (`Walk.Inv`);
following one row keeps this, and when no row waits the rows reached are closed on their own.
-/
namespace EntityStore

/-- A row that goes when some rows do. -/
inductive Links.Goes (x : Links) (roots : List Node) : Node → Prop where
  | root {n : Node} (h : n ∈ roots) : Goes x roots n
  | owned {owner n : Node} (h : (owner, n) ∈ x.owned) (ho : Goes x roots owner) : Goes x roots n
  | orphaned {m : Id} (used : ∃ j, (j, m) ∈ x.joins)
      (all : ∀ j, (j, m) ∈ x.joins → Goes x roots j) : Goes x roots (.metadata, m)

namespace Links
variable {x : Links}

theorem mem_dependents {owner n : Node} : n ∈ x.dependents owner ↔ (owner, n) ∈ x.owned := by
  simp only [dependents, List.mem_filterMap]
  constructor
  · rintro ⟨⟨o, d⟩, hp, h⟩
    split at h
    next ho =>
      obtain rfl := Option.some.inj h
      subst ho
      exact hp
    next => cases h
  · intro h
    exact ⟨_, h, if_pos rfl⟩

theorem join_unique {j : Node} {m m' : Id} (h : (j, m) ∈ x.joins) (h' : (j, m') ∈ x.joins) :
    m = m' :=
  congrArg Prod.snd (List.inj_on_of_nodup_map x.joins_nodup h h' rfl)

theorem metadataOf_eq_some_iff {j : Node} {m : Id} :
    x.metadataOf j = some m ↔ (j, m) ∈ x.joins := by
  simp only [metadataOf, Option.map_eq_some_iff]
  constructor
  · rintro ⟨⟨j', m'⟩, h, rfl⟩
    have hj : j' = j := by simpa using List.find?_some h
    subst hj
    exact List.mem_of_find?_eq_some h
  · intro h
    cases hf : x.joins.find? (fun e => e.1 = j) with
    | none => simpa using List.find?_eq_none.1 hf _ h
    | some e =>
      rcases e with ⟨j', m'⟩
      have hj : j' = j := by simpa using List.find?_some hf
      subst hj
      exact ⟨_, rfl, (join_unique h (List.mem_of_find?_eq_some hf)).symm⟩

/-- Whether an entry is a join outside some rows that uses a piece of metadata. -/
def outsideJoin (rows : List Node) (m : Id) (j : Node × Id) : Bool :=
  decide (j.2 = m) && !rows.contains j.1

/-- The number of joins outside some rows that use a piece of metadata. -/
def joinsOutside (x : Links) (rows : List Node) (m : Id) : Nat :=
  x.joins.countP (outsideJoin rows m)

theorem joinsOutside_eq_zero_iff {rows : List Node} {m : Id} :
    x.joinsOutside rows m = 0 ↔ ∀ j, (j, m) ∈ x.joins → j ∈ rows := by
  rw [joinsOutside, List.countP_eq_zero]
  constructor
  · intro h j hj
    simpa [outsideJoin] using h (j, m) hj
  · rintro h ⟨j, m'⟩ hj
    simp only [outsideJoin, Bool.and_eq_true, decide_eq_true_eq, Bool.not_eq_true', not_and,
      Bool.not_eq_false, List.contains_iff_mem]
    rintro rfl
    exact h j hj

theorem joinsOutside_pos {rows : List Node} {j : Node} {m : Id} (h : (j, m) ∈ x.joins)
    (hj : j ∉ rows) : 0 < x.joinsOutside rows m := by
  apply Nat.pos_of_ne_zero
  intro h0
  exact hj (joinsOutside_eq_zero_iff.1 h0 j h)

theorem countP_without {l : List (Node × Id)} (hl : (l.map (·.1)).Nodup) {e : Node × Id}
    (he : e ∈ l) (p : Node × Id → Bool) (hp : p e = true) :
    l.countP p = l.countP (fun j => p j && decide (j.1 ≠ e.1)) + 1 := by
  induction l with
  | nil => cases he
  | cons a l ih =>
    rcases List.nodup_cons.1 hl with ⟨ha, hl⟩
    rcases List.mem_cons.1 he with rfl | he
    · have hrest : l.countP p = l.countP fun j => p j && decide (j.1 ≠ e.1) := by
        refine List.countP_congr fun j hj => ?_
        have hne : j.1 ≠ e.1 := fun h => ha (List.mem_map.2 ⟨j, hj, h⟩)
        simp [hne]
      rw [List.countP_cons_of_pos hp, hrest, List.countP_cons_of_neg (by simp)]
    · have hne : a.1 ≠ e.1 := fun h => ha (List.mem_map.2 ⟨e, he, h.symm⟩)
      by_cases hpa : p a
      · rw [List.countP_cons_of_pos hpa, List.countP_cons_of_pos (by simp [hpa, hne]), ih hl he]
      · rw [List.countP_cons_of_neg hpa, List.countP_cons_of_neg (by simp [hpa]), ih hl he]

theorem outsideJoin_append (rows : List Node) (n : Node) (m : Id) :
    outsideJoin (rows ++ [n]) m = fun j => outsideJoin rows m j && decide (j.1 ≠ n) := by
  funext j
  by_cases h : j.1 = n <;> simp [outsideJoin, h]

theorem joinsOutside_append_join {rows : List Node} {n : Node} {m : Id} (h : (n, m) ∈ x.joins)
    (hn : n ∉ rows) : x.joinsOutside rows m = x.joinsOutside (rows ++ [n]) m + 1 := by
  rw [joinsOutside, joinsOutside, outsideJoin_append]
  exact countP_without x.joins_nodup h _ (by simp [outsideJoin, hn])

theorem joinsOutside_append_of_not_join {rows : List Node} {n : Node} {m : Id}
    (h : (n, m) ∉ x.joins) : x.joinsOutside (rows ++ [n]) m = x.joinsOutside rows m := by
  rw [joinsOutside, joinsOutside, outsideJoin_append]
  refine List.countP_congr fun j hj => ?_
  have hne : outsideJoin rows m j = true → j.1 ≠ n := by
    rintro hout rfl
    have hm : j.2 = m := by
      simp only [outsideJoin, Bool.and_eq_true, decide_eq_true_eq] at hout
      exact hout.1
    exact h (hm ▸ hj)
  by_cases hout : outsideJoin rows m j = true <;> simp_all

theorem getD_foldl_count (l : List (Node × Id)) (counts : SortedMap Id Nat) (m : Id) :
    ((l.foldl (fun counts j => counts.set j.2 ((counts.get? j.2).getD 0 + 1)) counts).get? m).getD 0
      = (counts.get? m).getD 0 + l.countP fun j => decide (j.2 = m) := by
  induction l generalizing counts with
  | nil => rfl
  | cons j l ih =>
    rw [List.foldl_cons, ih, SortedMap.get?_set]
    by_cases h : j.2 = m
    · rw [if_pos h, List.countP_cons_of_pos (by simpa using h), h, Option.getD_some]
      omega
    · rw [if_neg h, List.countP_cons_of_neg (by simpa using h)]

theorem getD_joinCounts (x : Links) (m : Id) :
    (x.joinCounts.get? m).getD 0 = x.joinsOutside [] m := by
  have hall : outsideJoin [] m = fun j => decide (j.2 = m) := by
    funext j
    simp [outsideJoin]
  rw [joinCounts, getD_foldl_count, joinsOutside, hall]
  simp

end Links

namespace Walk
variable {x : Links}

theorem mem_release {outside : SortedMap Id Nat} {m : Id} {n : Node} :
    n ∈ (release outside m).1 ↔ n = (.metadata, m) ∧ (outside.get? m).getD 0 = 1 := by
  unfold release
  split
  next h => simp [h]
  next h => simp [h]
  next c h => by_cases hc : c = 0 <;> simp [h, hc]

theorem getD_release (outside : SortedMap Id Nat) (m m' : Id) :
    (((release outside m).2).get? m').getD 0 =
      if m = m' then (outside.get? m).getD 0 - 1 else (outside.get? m').getD 0 := by
  unfold release
  split
  next h => split <;> simp_all
  next h => split <;> simp_all
  next c h => rw [SortedMap.get?_set]; split <;> simp_all

/-- What holds half way through a walk. -/
structure Inv (x : Links) (roots : List Node) (w : Walk) (waiting : List Node) : Prop where
  goes : ∀ n ∈ w.reached ++ waiting, x.Goes roots n
  roots : ∀ n ∈ roots, n ∈ w.reached ++ waiting
  owned : ∀ owner n, (owner, n) ∈ x.owned → owner ∈ w.reached → n ∈ w.reached ++ waiting
  counts : ∀ m, (w.outside.get? m).getD 0 = x.joinsOutside w.reached m
  orphaned : ∀ m, (∃ j, (j, m) ∈ x.joins) → x.joinsOutside w.reached m = 0 →
    (.metadata, m) ∈ w.reached ++ waiting

theorem inv_start (x : Links) (roots : List Node) : Inv x roots ⟨[], x.joinCounts⟩ roots where
  goes n hn := .root hn
  roots n hn := hn
  owned _ _ _ ho := by cases ho
  counts m := x.getD_joinCounts m
  orphaned m hj h0 := by
    rcases hj with ⟨j, hj⟩
    exact absurd h0 (Nat.ne_of_gt (Links.joinsOutside_pos hj List.not_mem_nil))

theorem Inv.skip {roots : List Node} {w : Walk} {n : Node} {waiting : List Node}
    (h : Inv x roots w (n :: waiting)) (hn : n ∈ w.reached) : Inv x roots w waiting := by
  have hsub : ∀ d ∈ w.reached ++ n :: waiting, d ∈ w.reached ++ waiting := by
    intro d hd
    rcases List.mem_append.1 hd with hd | hd
    · exact List.mem_append_left _ hd
    · rcases List.mem_cons.1 hd with rfl | hd
      · exact List.mem_append_left _ hn
      · exact List.mem_append_right _ hd
  exact {
    goes := fun d hd => h.goes d (by
      rcases List.mem_append.1 hd with hd | hd
      · exact List.mem_append_left _ hd
      · exact List.mem_append_right _ (List.mem_cons_of_mem _ hd))
    roots := fun d hd => hsub d (h.roots d hd)
    owned := fun o d hp ho => hsub d (h.owned o d hp ho)
    counts := h.counts
    orphaned := fun m hj h0 => hsub _ (h.orphaned m hj h0) }

/-- A row that a visit brings along is owned by the row visited, or is metadata whose last join
outside was that row. -/
theorem mem_visit {w : Walk} {n d : Node} :
    d ∈ (visit x w n).1 ↔ (n, d) ∈ x.owned ∨
      ∃ m, (n, m) ∈ x.joins ∧ d = (.metadata, m) ∧ (w.outside.get? m).getD 0 = 1 := by
  unfold visit
  split
  next h =>
    have hnone : ∀ m, (n, m) ∉ x.joins := by
      intro m hm
      rw [Links.metadataOf_eq_some_iff.2 hm] at h
      cases h
    simp [Links.mem_dependents, hnone]
  next m h =>
    have hm := Links.metadataOf_eq_some_iff.1 h
    simp only [List.mem_append, Links.mem_dependents, mem_release]
    constructor
    · rintro (ho | ⟨hd, h1⟩)
      · exact Or.inl ho
      · exact Or.inr ⟨m, hm, hd, h1⟩
    · rintro (ho | ⟨m', hm', hd, h1⟩)
      · exact Or.inl ho
      · obtain rfl := Links.join_unique hm hm'
        exact Or.inr ⟨hd, h1⟩

/-- A visit takes the join off its count when it is one, and keeps every other count. -/
theorem counts_visit {roots : List Node} {w : Walk} {n : Node} {waiting : List Node}
    (h : Inv x roots w (n :: waiting)) (hn : n ∉ w.reached) (m : Id) :
    (((visit x w n).2.outside).get? m).getD 0 = x.joinsOutside (w.reached ++ [n]) m := by
  unfold visit
  split
  next hnone =>
    have hm : (n, m) ∉ x.joins := by
      intro hm
      rw [Links.metadataOf_eq_some_iff.2 hm] at hnone
      cases hnone
    rw [Links.joinsOutside_append_of_not_join hm]
    exact h.counts m
  next m' hsome =>
    have hm' := Links.metadataOf_eq_some_iff.1 hsome
    rw [getD_release]
    split
    next heq =>
      subst heq
      have hone := Links.joinsOutside_append_join hm' hn
      rw [h.counts]
      omega
    next hne =>
      have hm : (n, m) ∉ x.joins := fun hm => hne (Links.join_unique hm' hm)
      rw [Links.joinsOutside_append_of_not_join hm]
      exact h.counts m

theorem Inv.visit {roots : List Node} {w : Walk} {n : Node} {waiting : List Node}
    (h : Inv x roots w (n :: waiting)) (hn : n ∉ w.reached) :
    Inv x roots (visit x w n).2 ((visit x w n).1 ++ waiting) := by
  have hreached := reached_visit x w n
  have hcounts := counts_visit h hn
  have hkeep : ∀ d ∈ w.reached ++ n :: waiting,
      d ∈ (Walk.visit x w n).2.reached ++ ((Walk.visit x w n).1 ++ waiting) := by
    intro d hd
    rw [hreached]
    simp only [List.mem_append, List.mem_cons, List.not_mem_nil, or_false] at hd ⊢
    rcases hd with hd | hd | hd
    · exact Or.inl (Or.inl hd)
    · exact Or.inl (Or.inr hd)
    · exact Or.inr (Or.inr hd)
  have hfound : ∀ d ∈ (Walk.visit x w n).1,
      d ∈ (Walk.visit x w n).2.reached ++ ((Walk.visit x w n).1 ++ waiting) :=
    fun d hd => List.mem_append_right _ (List.mem_append_left _ hd)
  have hgoes_n : x.Goes roots n :=
    h.goes n (List.mem_append_right _ List.mem_cons_self)
  have hzero : ∀ m, x.joinsOutside (w.reached ++ [n]) m = 0 → (∃ j, (j, m) ∈ x.joins) →
      x.Goes roots (.metadata, m) := by
    intro m h0 hused
    refine .orphaned hused fun j hj => ?_
    have hmem := Links.joinsOutside_eq_zero_iff.1 h0 j hj
    rcases List.mem_append.1 hmem with hmem | hmem
    · exact h.goes j (List.mem_append_left _ hmem)
    · obtain rfl := List.mem_singleton.1 hmem
      exact hgoes_n
  refine ⟨?_, ?_, ?_, ?_, ?_⟩
  · intro d hd
    rw [hreached] at hd
    simp only [List.mem_append, List.mem_singleton] at hd
    rcases hd with (hd | rfl) | hd | hd
    · exact h.goes d (List.mem_append_left _ hd)
    · exact hgoes_n
    · rcases mem_visit.1 hd with ho | ⟨m, hm, rfl, h1⟩
      · exact .owned ho hgoes_n
      · have hone := Links.joinsOutside_append_join hm hn
        rw [h.counts] at h1
        exact hzero m (by omega) ⟨n, hm⟩
    · exact h.goes d (List.mem_append_right _ (List.mem_cons_of_mem _ hd))
  · exact fun d hd => hkeep d (h.roots d hd)
  · intro o d hod ho
    rw [hreached] at ho
    rcases List.mem_append.1 ho with ho | ho
    · exact hkeep d (h.owned o d hod ho)
    · obtain rfl := List.mem_singleton.1 ho
      exact hfound d (mem_visit.2 (Or.inl hod))
  · intro m
    rw [hreached]
    exact hcounts m
  · intro m hused h0
    rw [hreached] at h0
    by_cases hm : (n, m) ∈ x.joins
    · have hone := Links.joinsOutside_append_join hm hn
      have h1 := h.counts m
      exact hfound _ (mem_visit.2 (Or.inr ⟨m, hm, rfl, by omega⟩))
    · rw [Links.joinsOutside_append_of_not_join hm] at h0
      exact hkeep _ (h.orphaned m hused h0)

/-- When nothing waits any more, what was kept half way holds of the rows reached alone. -/
theorem inv_follow {roots : List Node} {w : Walk} {waiting : List Node}
    (h : Inv x roots w waiting) : Inv x roots (follow x w waiting) [] := by
  fun_induction follow x w waiting with
  | case1 w => exact h
  | case2 w n waiting hn ih => exact ih (h.skip hn)
  | case3 w n waiting hn ih => exact ih (h.visit hn)

end Walk

/-- A walk reaches the rows that go with its roots, and no others. -/
theorem Links.mem_reach_iff (x : Links) (roots : List Node) (n : Node) :
    n ∈ x.reach roots ↔ x.Goes roots n := by
  have h := Walk.inv_follow (Walk.inv_start x roots)
  have mem {d : Node} : d ∈ x.reach roots ↔
      d ∈ (Walk.follow x ⟨[], x.joinCounts⟩ roots).reached ++ [] := by
    rw [List.append_nil]
    rfl
  constructor
  · exact fun hn => h.goes n (mem.1 hn)
  · intro hn
    induction hn with
    | root hr => exact mem.2 (h.roots _ hr)
    | owned hod _ ih => exact mem.2 (h.owned _ _ hod ih)
    | orphaned hused _ ih =>
      exact mem.2 (h.orphaned _ hused (Links.joinsOutside_eq_zero_iff.2 ih))

end EntityStore
