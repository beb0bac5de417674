import EntityStore.Id
import EntityStore.Saturation
/-!
# Walking a removal

A walk starts at some rows and follows the links away from them: a row that is reached for the
first time brings along the rows that it owns. Metadata has no owner. It has a count of the joins
that are still outside, which goes down with every join reached, and the metadata is reached when
the last of its joins is. Rows wait in a list while others are followed; every link leads to one of
finitely many rows, so the list runs empty.
-/
namespace EntityStore

/-- What takes what along: rows with their owners, and the joins that hold metadata in place. -/
structure Links where
  /-- Pairs of an owner and a row that goes with it. -/
  owned : List (Node × Node)
  /-- Joins, each with its metadata. -/
  joins : List (Node × Id)
  joins_nodup : (joins.map (·.1)).Nodup

/-- How far a walk has come. -/
structure Walk where
  reached : List Node
  /-- The number of joins outside, by metadata. -/
  outside : SortedMap Id Nat

namespace Links

/-- The rows that an owner brings along. -/
def dependents (x : Links) (n : Node) : List Node :=
  x.owned.filterMap fun p => if p.1 = n then some p.2 else none

/-- The metadata of a join. -/
def metadataOf (x : Links) (n : Node) : Option Id := (x.joins.find? fun j => j.1 = n).map (·.2)

/-- The rows that links lead to. -/
def targets (x : Links) : List Node := x.owned.map (·.2) ++ x.joins.map fun j => (.metadata, j.2)

/-- The number of joins of every piece of metadata. -/
def joinCounts (x : Links) : SortedMap Id Nat :=
  x.joins.foldl (fun counts j => counts.set j.2 ((counts.get? j.2).getD 0 + 1)) ∅

end Links

namespace Walk

/-- Takes a join off the count of its metadata, and finds the metadata when no other is left. -/
def release (outside : SortedMap Id Nat) (metadata : Id) : List Node × SortedMap Id Nat :=
  match outside.get? metadata with
  | none | some 0 => ([], outside)
  | some (n + 1) => (if n = 0 then [(.metadata, metadata)] else [], outside.set metadata n)

/-- Reaches a row, which brings others along. -/
def visit (x : Links) (w : Walk) (n : Node) : List Node × Walk :=
  match x.metadataOf n with
  | none => (x.dependents n, { w with reached := w.reached ++ [n] })
  | some m =>
    let (orphans, outside) := release w.outside m
    (x.dependents n ++ orphans, ⟨w.reached ++ [n], outside⟩)

@[simp] theorem reached_visit (x : Links) (w : Walk) (n : Node) :
    (visit x w n).2.reached = w.reached ++ [n] := by
  unfold visit
  split <;> rfl

theorem mem_targets_of_mem_dependents {x : Links} {n d : Node} (h : d ∈ x.dependents n) :
    d ∈ x.targets := by
  obtain ⟨p, hp, h⟩ := List.mem_filterMap.1 h
  split at h
  · obtain rfl := Option.some.inj h
    exact List.mem_append_left _ (List.mem_map_of_mem hp)
  · cases h

theorem mem_targets_of_mem_visit {x : Links} {w : Walk} {n d : Node}
    (h : d ∈ (visit x w n).1) : d ∈ x.targets := by
  unfold visit at h
  split at h
  next => exact mem_targets_of_mem_dependents h
  next m hm =>
    rcases List.mem_append.1 h with h | h
    · exact mem_targets_of_mem_dependents h
    · obtain ⟨j, hj, rfl⟩ := Option.map_eq_some_iff.1 hm
      have hd : d = (.metadata, j.2) := by
        simp only [release] at h
        split at h
        · cases h
        · cases h
        · split at h <;> simp_all
      rw [hd]
      exact List.mem_append_right _ (List.mem_map_of_mem (List.mem_of_find?_eq_some hj))

/-- The rows that can still be reached: targets of links, and rows waiting that none leads to. -/
def ahead (x : Links) (w : Walk) (waiting : List Node) : Nat :=
  (Saturation.outside x.targets w.reached).length +
    (waiting.filter fun n => !x.targets.contains n).length

theorem ahead_skip_le (x : Links) (w : Walk) (n : Node) (waiting : List Node) :
    ahead x w waiting ≤ ahead x w (n :: waiting) := by
  have h := ((List.sublist_cons_self n waiting).filter fun d => !x.targets.contains d).length_le
  unfold ahead
  omega

theorem ahead_visit_lt {x : Links} {w : Walk} {n : Node} (waiting : List Node)
    (hn : n ∉ w.reached) :
    ahead x (visit x w n).2 ((visit x w n).1 ++ waiting) < ahead x w (n :: waiting) := by
  have hfound : (visit x w n).1.filter (fun d => !x.targets.contains d) = [] := by
    refine List.filter_eq_nil_iff.2 fun d hd => ?_
    simpa using mem_targets_of_mem_visit hd
  simp only [ahead, reached_visit, List.filter_append, hfound, List.nil_append]
  by_cases ht : n ∈ x.targets
  · have hlt : (Saturation.outside x.targets (w.reached ++ [n])).length <
        (Saturation.outside x.targets w.reached).length :=
      Saturation.length_outside_append_lt (c := n)
        (List.mem_filter.2 ⟨ht, by simpa using hn⟩) List.mem_cons_self
    have hcons : ((n :: waiting).filter fun d => !x.targets.contains d) =
        waiting.filter fun d => !x.targets.contains d :=
      List.filter_cons_of_neg (by simpa using ht)
    rw [hcons]
    omega
  · have hle := Saturation.length_outside_append_le x.targets w.reached [n]
    have hcons : ((n :: waiting).filter fun d => !x.targets.contains d) =
        n :: waiting.filter fun d => !x.targets.contains d :=
      List.filter_cons_of_pos (by simpa using ht)
    rw [hcons, List.length_cons]
    omega

/-- Follows the waiting rows, and those that they bring along, until none is left. -/
def follow (x : Links) (w : Walk) : List Node → Walk
  | [] => w
  | n :: waiting =>
    if n ∈ w.reached then follow x w waiting
    else follow x (visit x w n).2 ((visit x w n).1 ++ waiting)
termination_by waiting => (ahead x w waiting, waiting.length)
decreasing_by
  · exact Prod.Lex.right' _ (ahead_skip_le x w n waiting) (Nat.lt_succ_self _)
  · exact Prod.Lex.left _ _ (ahead_visit_lt waiting ‹_›)

end Walk

/-- The rows reached from some rows, these included. -/
def Links.reach (x : Links) (roots : List Node) : List Node :=
  (Walk.follow x ⟨[], x.joinCounts⟩ roots).reached

end EntityStore
