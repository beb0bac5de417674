import EntityStore.Proofs.Check.Modes
import EntityStore.Proofs.Engine.RemoveCall
import EntityStore.Proofs.Engine.Writing
/-!
# Strict and lenient calls

What a removal refuses are roots that do not exist and then list values of the first cascade; both
modes meet these in the same order, so that a strict removal ends at the first where a lenient one
goes on without it (`Workspace.remove_modes`).
-/
namespace EntityStore

/-- Settling refuses the list values of the first cascade that may not go, and no others later. -/
theorem Snapshot.settle_rejected {s : Snapshot} {withClasses : Bool} {known removed : IdMap}
    {kept : List Rejection} (hcascade : s.cascade withClasses known = .ok removed)
    (hcheck : s.checkRemoval removed = .ok kept) :
    (s.settle withClasses known removed).rejected = kept := by
  obtain rfl := eq_of_cascade_eq_ok hcascade
  have hkept : s.keptValues (s.removalSet withClasses known) = kept := by
    unfold checkRemoval at hcheck
    split at hcheck
    · exact Except.ok.inj hcheck
    · cases hcheck
  rw [← hkept]
  exact (settle_removalSet s withClasses known).2

namespace Workspace
variable {o : Options} {w : Workspace}

theorem removeRows_outcome (w : Workspace) (roots removed : IdMap) (rejected : List Rejection) :
    (∃ f, (w.removeRows roots removed rejected).outcome = .error (.applyFailed .remove f)) ∨
      ∃ result, (w.removeRows roots removed rejected).outcome = .ok result ∧
        result.rejected = rejected := by
  cases hempty : removed.isEmpty with
  | true =>
    rw [removeRows_of_isEmpty w roots rejected hempty]
    exact Or.inr ⟨_, rfl, rfl⟩
  | false =>
    obtain ⟨f, _, hfailed⟩ | ⟨hdone, _, _⟩ := removeRows_cases w roots rejected hempty
    · exact Or.inl ⟨f, hfailed⟩
    · exact Or.inr ⟨_, hdone, rfl⟩

/-- How a strict removal goes beside a lenient one that the store does not fail. -/
inductive RemoveModes (w : Workspace) (lenient strict : Run Workspace RemoveResult) : Prop where
  | agree (result : RemoveResult) (ok : lenient.outcome = .ok result)
      (agrees : Agrees result.rejected lenient.outcome strict.outcome)
      (same : result.rejected = [] → strict = lenient)
  /-- Both fail for want of a kind, which a session that was opened never does. -/
  | incomplete (missing : w.session.snapshot.isComplete = false) (f : ArgumentFault) (g : Failure)
      (lenient_eq : lenient.outcome = .error (.argument f)) (strict_eq : strict.outcome = .error g)

variable {lenientRun strictRun : Run Workspace RemoveResult}

theorem RemoveModes.of_refused {r : Rejection} {rest : List Rejection}
    (hok : ∃ result, lenientRun.outcome = .ok result ∧ result.rejected = r :: rest)
    (hstrict : strictRun.outcome = .error (.rejected r.issue)) :
    RemoveModes w lenientRun strictRun := by
  obtain ⟨result, hresult, hrejected⟩ := hok
  apply RemoveModes.agree result hresult
  · rw [hrejected, hstrict]
    exact agrees_refused r rest lenientRun.outcome
  · rw [hrejected]
    simp

theorem RemoveModes.of_same
    (hok : ∃ result, lenientRun.outcome = .ok result ∧ result.rejected = []) :
    RemoveModes w lenientRun lenientRun := by
  obtain ⟨result, hresult, hrejected⟩ := hok
  apply RemoveModes.agree result hresult
  · rw [hrejected, hresult]
    exact agrees_ok result
  · exact fun _ => rfl

theorem remove_modes (roots : IdMap) {lenient strict : Option Bool}
    (hlenient : lenient.getD o.strict = false) (hstrict : strict.getD o.strict = true)
    (happlies : ∀ f, (w.remove o roots lenient).outcome ≠ .error (.applyFailed .remove f)) :
    RemoveModes w (w.remove o roots lenient) (w.remove o roots strict) := by
  unfold remove at happlies ⊢
  simp only [hlenient, hstrict] at happlies ⊢
  by_cases hempty : (w.session.snapshot.knownRoots roots).isEmpty = true
  · simp only [if_pos hempty]
    cases w.session.snapshot.unknownRoots roots with
    | nil => exact .of_same ⟨⟨∅, [], []⟩, rfl, rfl⟩
    | cons r rest => exact .of_refused ⟨⟨∅, [], r :: rest⟩, rfl, rfl⟩ rfl
  · simp only [if_neg hempty] at happlies ⊢
    cases hcascade : w.session.snapshot.cascade o.withClasses
        (w.session.snapshot.knownRoots roots) with
    | error f =>
      obtain ⟨hmissing, g, rfl⟩ := Snapshot.of_cascade_error hcascade
      cases w.session.snapshot.unknownRoots roots with
      | nil => exact .incomplete hmissing g _ rfl rfl
      | cons r rest => exact .incomplete hmissing g _ rfl rfl
    | ok removed =>
      simp only [hcascade] at happlies ⊢
      cases hcheck : w.session.snapshot.checkRemoval removed with
      | error f =>
        obtain ⟨hmissing, g, rfl⟩ := Snapshot.of_checkRemoval_error hcheck
        cases w.session.snapshot.unknownRoots roots with
        | nil => exact .incomplete hmissing g _ rfl rfl
        | cons r rest => exact .incomplete hmissing g _ rfl rfl
      | ok kept =>
        simp only [hcheck, Snapshot.settle_rejected hcascade hcheck, Run.outcome_after]
          at happlies ⊢
        generalize w.session.snapshot.unknownRoots roots = unknown at happlies ⊢
        obtain ⟨f, hfailed⟩ | hdone := w.removeRows_outcome _ _ (unknown ++ kept)
        · exact absurd hfailed (happlies f)
        · cases unknown with
          | cons r rest => exact .of_refused hdone rfl
          | nil =>
            cases kept with
            | cons r rest => exact .of_refused hdone rfl
            | nil => exact .of_same hdone

end Workspace

open Workspace

/-- Strict mode is lenient mode stopped at the first refusal. Lenient checks of a complete snapshot
never fail and answer every item once, in order; of checks and removals the strict run fails exactly
when the lenient one refuses something, with the first of these issues, and does the same
otherwise. -/
theorem modes_agree :
    (∀ (s : Snapshot) (k : Kind) (candidates : List Record), s.isComplete = true →
      ∃ c, s.checkInsert k candidates false = .ok c ∧ Accounts (insertStep s k) candidates c ∧
        Agrees c.rejected (s.checkInsert k candidates false) (s.checkInsert k candidates true)) ∧
    (∀ (s : Snapshot) (k : Kind) (changes : List Record), s.isComplete = true →
      ∃ c, s.checkUpdate k changes false = .ok c ∧ Accounts (updateStep s k) changes c ∧
        Agrees c.rejected (s.checkUpdate k changes false) (s.checkUpdate k changes true)) ∧
    ∀ (o : Options) (w : Workspace) (roots : IdMap) (lenient strict : Option Bool),
      lenient.getD o.strict = false → strict.getD o.strict = true →
      (∀ f, (w.remove o roots lenient).outcome ≠ .error (.applyFailed .remove f)) →
      RemoveModes w (w.remove o roots lenient) (w.remove o roots strict) :=
  ⟨fun _ k candidates h => Snapshot.checkInsert_modes h k candidates,
    fun _ k changes h => Snapshot.checkUpdate_modes h k changes,
    fun _ _ roots _ _ hlenient hstrict happlies => remove_modes roots hlenient hstrict happlies⟩

/-- A class of the pipes and one that does not exist. -/
def pipeRoots : IdMap := .ofNodes [(.entityClass, 2), (.entityClass, 9)]

theorem outcome_remove_pipeRoots :
    ((⟨pipes, pipesSession⟩ : Workspace).remove {} pipeRoots none).outcome =
      .ok ⟨.ofNodes [(.entityClass, 2)], [],
        [⟨.entityClass, .remove, some 9, .unknownId .entityClass 9⟩]⟩ := by
  have hknown : pipesSession.snapshot.knownRoots pipeRoots = .ofNodes [(.entityClass, 2)] := rfl
  have hcascade : pipesSession.snapshot.cascade false (.ofNodes [(.entityClass, 2)]) =
      .ok (.ofNodes [(.entityClass, 2)]) := by cbv
  have hsettle : pipesSession.snapshot.settle false (.ofNodes [(.entityClass, 2)])
      (.ofNodes [(.entityClass, 2)]) =
      ⟨.ofNodes [(.entityClass, 2)], .ofNodes [(.entityClass, 2)], [], []⟩ := by cbv
  unfold remove
  simp only [hknown, hcascade, hsettle]
  rfl

/-- Checks with something to refuse, and a removal of which one root does not exist. -/
theorem modes_agree_pipes :
    let s := pipesSession.snapshot
    let w : Workspace := ⟨pipes, pipesSession⟩
    let taken : List Record := [.ofFields [("name", some (.text "tank"))]]
    let missing : List Record := [.ofFields [("id", some (.int 9))]]
    (∃ c, s.checkInsert .entityClass taken false = .ok c ∧
        Accounts (insertStep s .entityClass) taken c ∧
        Agrees c.rejected (s.checkInsert .entityClass taken false)
          (s.checkInsert .entityClass taken true)) ∧
      (∃ c, s.checkUpdate .entityClass missing false = .ok c ∧
        Accounts (updateStep s .entityClass) missing c ∧
        Agrees c.rejected (s.checkUpdate .entityClass missing false)
          (s.checkUpdate .entityClass missing true)) ∧
      RemoveModes w (w.remove {} pipeRoots none) (w.remove {} pipeRoots (some true)) := by
  intro s w taken missing
  have hcomplete : s.isComplete = true := rfl
  refine ⟨modes_agree.1 s .entityClass taken hcomplete,
    modes_agree.2.1 s .entityClass missing hcomplete,
    modes_agree.2.2 {} w pipeRoots none (some true) rfl rfl fun f hf => ?_⟩
  rw [outcome_remove_pipeRoots] at hf
  cases hf

end EntityStore
