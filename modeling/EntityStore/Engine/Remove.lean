import EntityStore.Cascade
import EntityStore.Check
import EntityStore.Engine.Workspace
/-!
# Removing

The roots that exist are removed with everything that goes with them, in one set of changes.
Definitions whose value list goes stay behind, detached from it. List values that something staying
behind relies on are refused, and with them whatever they alone would have taken along; strictly,
the first refusal fails the call.
-/
namespace EntityStore

/-- What a removal did. -/
structure RemoveResult where
  removed : IdMap
  /-- The definitions whose value list was removed, as they were written. -/
  detached : List Record
  rejected : List Rejection
  deriving DecidableEq

namespace Snapshot

def knownRoots (s : Snapshot) (roots : IdMap) : IdMap :=
  .ofNodes (roots.nodes.filter fun n => s.contains n.1 n.2)

/-- A refusal for every root that does not exist, in kind order and then by id. -/
def unknownRoots (s : Snapshot) (roots : IdMap) : List Rejection :=
  (roots.nodes.filter fun n => !s.contains n.1 n.2).map fun n =>
    ⟨n.1, .remove, some n.2, .unknownId n.1 n.2⟩

/-- The definitions that stay behind when their value list is removed, without the list. -/
def detachedBy (s : Snapshot) (removed : IdMap) : List ParameterDefinition :=
  ((s.table .parameterDefinition).toList.filter fun d =>
    d.parameterValueListId.any (removed.has .valueList) &&
      !removed.has .parameterDefinition d.id).map ParameterDefinition.detached

/-- Roots that are left with their removal set, what was refused, and the log of it. -/
structure Settled where
  roots : IdMap
  removed : IdMap
  rejected : List Rejection
  log : List Log.Entry

/-- Gives up the roots that cannot go until the rest can. Every round gives up at least one root;
a round that does not would refuse the same list values for ever and is the last. -/
def settle (s : Snapshot) (withClasses : Bool) (roots removed : IdMap) : Settled :=
  let kept := s.keptValues removed
  let left := (roots.remove .listValue (.ofIds (kept.filterMap Rejection.id))).prune
  if left.total < roots.total then
    let next := IdMap.ofNodes (s.closure withClasses left.nodes)
    let rest := settle s withClasses left next
    { rest with
      rejected := kept ++ rest.rejected
      log := kept.map Rejection.log ++
        (if left.isEmpty then [] else [cascadeLog left next]) ++ rest.log }
  else ⟨roots, removed, kept, kept.map Rejection.log⟩
termination_by roots.total

end Snapshot

/-- The session after rows were removed and definitions detached from their lists. -/
def Session.removeRows (s : Session) (removed : IdMap) (detached : List ParameterDefinition) :
    Session :=
  { s with
    snapshot := (s.snapshot.eraseAll removed).putRows .parameterDefinition
      (detached.map (Row.stored .parameterDefinition)) }.recordRemoved removed

namespace Workspace

/-- Writes a removal that nothing stands against. -/
def removeRows (w : Workspace) (roots removed : IdMap) (rejected : List Rejection) :
    Run Workspace RemoveResult :=
  if removed.isEmpty then .done ⟨∅, [], rejected⟩ w []
  else
    let detached := w.session.snapshot.detachedBy removed
    let items := detached.map ParameterDefinition.toRecord
    w.commit .remove (.ofRemoval removed .parameterDefinition items)
      (w.session.removeRows removed detached) ⟨removed, items, rejected⟩
      [.info (s!"Removed {removed.total} records from {roots.total} roots"
        ++ if items = [] then "" else ", detached definitions from removed value lists")]

def remove (o : Options) (w : Workspace) (roots : IdMap) (strict : Option Bool) :
    Run Workspace RemoveResult :=
  let s := w.session.snapshot
  let isStrict := strict.getD o.strict
  let unknown := s.unknownRoots roots
  let known := s.knownRoots roots
  match isStrict, unknown with
  | true, r :: _ => .failed (.rejected r.issue) w []
  | _, _ =>
    let unknownLog := unknown.map Rejection.log
    if known.isEmpty then .done ⟨∅, [], unknown⟩ w unknownLog
    else match s.cascade o.withClasses known with
      | .error f => .failed f w unknownLog
      | .ok removed =>
        let log := unknownLog ++ [cascadeLog known removed]
        match s.checkRemoval removed with
        | .error f => .failed f w log
        | .ok kept =>
          match isStrict, kept with
          | true, r :: _ => .failed (.rejected r.issue) w log
          | _, _ =>
            let settled := s.settle o.withClasses known removed
            (w.removeRows settled.roots settled.removed (unknown ++ settled.rejected)).after
              (log ++ settled.log)

/-- The removal set of some roots in the session. -/
def cascade (o : Options) (w : Workspace) (roots : IdMap) : Run Workspace IdMap :=
  match w.session.snapshot.cascade o.withClasses roots with
  | .error f => .failed f w []
  | .ok removed => .done removed w [cascadeLog roots removed]

end Workspace

namespace Store

/-- The removal set of some roots in the store, of which only the kinds reached are loaded. -/
def cascade (o : Options) (s : Store) (roots : IdMap) : Run Store IdMap :=
  if roots.kinds = [] then .done ∅ s []
  else
    let kinds := Kind.reached o.withClasses roots.kinds
    let loadLog := Snapshot.loadLog s kinds
    match Snapshot.load s kinds with
    | .error f => .failed (.storage f) s loadLog
    | .ok snapshot =>
      match snapshot.cascade o.withClasses roots with
      | .error f => .failed f s loadLog
      | .ok removed => .done removed s (loadLog ++ [cascadeLog roots removed])

end Store

end EntityStore
