import ComponentDocs.Proofs.Session
import Mathlib.Data.List.DropRight

/-!
# The log of failures

The log is cut to its limit each time that failures are added to it.  It always holds the
newest failures of everything that was handed to it since it was last taken, as if that
history had been cut once.
-/

namespace ComponentDocs

open ComponentDocs.Types

namespace Operation

def logged (sources : Sources) : Operation → List Failure
  | .resolve name file imports => (sources.lookup name file imports).failures
  | .resolveAll name file imports => (sources.collect name file imports).failures
  | .insertFile _ _ | .define _ _ | .collect _ _ _ | .analyze _ _ _ | .read _ | .takeFailures
  | .clear => []

/-- Whether an operation leaves the failures of earlier ones in the log. -/
def keepsLog : Operation → Bool
  | .takeFailures => false
  | _ => true

end Operation

namespace Session

def loggedFrom (resolver : Resolver) : List Operation → List Failure
  | [] => []
  | operation :: operations =>
      operation.logged resolver.sources ++ loggedFrom (operation.apply resolver) operations

/-- All failures that were handed to the log since it was last taken. -/
def unread (workspace : Workspace) (operations : List Operation) : List Failure :=
  loggedFrom (run workspace (operations.rdropWhile Operation.keepsLog))
    (operations.rtakeWhile Operation.keepsLog)

end Session

theorem rtake_eq_of_length_le {α : Type} {log : List α} {limit : Nat} (h : log.length ≤ limit) :
    log.rtake limit = log := by
  rw [List.rtake, Nat.sub_eq_zero_of_le h, List.drop_zero]

theorem length_rtake {α : Type} (history : List α) (limit : Nat) :
    (history.rtake limit).length = min limit history.length := by
  rw [List.rtake, List.length_drop]
  omega

theorem rtake_append_rtake {α : Type} (history more : List α) (limit : Nat) :
    (history.rtake limit ++ more).rtake limit = (history ++ more).rtake limit := by
  obtain hle | hlt := Nat.le_total history.length limit
  · rw [rtake_eq_of_length_le hle]
  · have hcut : (history ++ more).length - limit =
        (history.length - limit) + ((history.rtake limit ++ more).length - limit) := by
      simp only [List.length_append, length_rtake]
      omega
    have hfirst : (history ++ more).drop (history.length - limit) =
        history.rtake limit ++ more := List.drop_append_of_le_length (Nat.sub_le _ _)
    calc (history.rtake limit ++ more).rtake limit
        = ((history ++ more).drop (history.length - limit)).drop
            ((history.rtake limit ++ more).length - limit) := by rw [hfirst]; rfl
      _ = (history ++ more).rtake limit := by rw [List.drop_drop, ← hcut]; rfl

theorem Types.Resolver.record_log (resolver : Resolver) (failures : List Failure) :
    (resolver.record failures).log = (resolver.log ++ failures).rtake logLimit := by
  rw [record, List.rtake]

theorem Operation.apply_log {resolver : Resolver} {history : List Failure} {operation : Operation}
    (hkeeps : operation.keepsLog = true) (h : resolver.log = history.rtake Resolver.logLimit) :
    (operation.apply resolver).log =
      (history ++ operation.logged resolver.sources).rtake Resolver.logLimit := by
  have hunchanged : resolver.log = (history ++ []).rtake Resolver.logLimit := by
    rw [List.append_nil, h]
  cases operation with
  | insertFile | define | collect | read | clear => exact hunchanged
  | analyze options path metadata =>
      rw [apply, analyze_log]
      exact hunchanged
  | resolve name file imports =>
      simp only [apply, Resolver.resolve, Resolver.record_log, h, rtake_append_rtake, logged]
  | resolveAll name file imports =>
      simp only [apply, Resolver.resolveAll, Resolver.collect, Resolver.record_log, h,
        rtake_append_rtake, logged]
  | takeFailures => contradiction

namespace Session

theorem foldl_apply_log {resolver : Resolver} {history : List Failure}
    {operations : List Operation} (hkeeps : ∀ operation ∈ operations, operation.keepsLog = true)
    (h : resolver.log = history.rtake Resolver.logLimit) :
    (operations.foldl Operation.apply resolver).log =
      (history ++ loggedFrom resolver operations).rtake Resolver.logLimit := by
  induction operations generalizing resolver history with
  | nil => rw [loggedFrom, List.append_nil, List.foldl_nil, h]
  | cons operation operations ih =>
      rw [List.forall_mem_cons] at hkeeps
      rw [List.foldl_cons, loggedFrom, ← List.append_assoc]
      exact ih hkeeps.2 (Operation.apply_log hkeeps.1 h)

theorem log_rdropWhile (workspace : Workspace) (operations : List Operation) :
    (run workspace (operations.rdropWhile Operation.keepsLog)).log = [] := by
  generalize hearlier : operations.rdropWhile Operation.keepsLog = earlier
  obtain rfl | hne := eq_or_ne earlier []
  · rfl
  · subst hearlier
    have hlast := List.rdropWhile_last_not Operation.keepsLog operations hne
    rw [← List.dropLast_append_getLast hne, run, List.foldl_append]
    generalize (operations.rdropWhile Operation.keepsLog).getLast hne = last at hlast
    cases last with
    | takeFailures => rfl
    | _ => exact absurd rfl hlast

theorem run_log (workspace : Workspace) (operations : List Operation) :
    (run workspace operations).log = (unread workspace operations).rtake Resolver.logLimit := by
  have hstart := log_rdropWhile workspace operations
  have hkeeps : ∀ operation ∈ operations.rtakeWhile Operation.keepsLog,
      operation.keepsLog = true := fun _ => List.mem_rtakeWhile_imp
  have hrecent := foldl_apply_log hkeeps (hstart.trans (List.rtake_nil _).symm)
  rw [run, ← List.foldl_append, List.rdropWhile_append_rtakeWhile] at hrecent
  exact hrecent

end Session

/-- After every session the log holds the newest 256 of the failures that resolving types,
alone or with their dependencies, produced since the log was last taken.  Collecting types,
documenting a component, taking in definitions and forgetting files leave it alone; taking
it gives it and leaves it empty. -/
theorem log_newest (workspace : Workspace) (operations : List Operation) :
    let resolver := Session.run workspace operations
    let history := Session.unread workspace operations
    (resolver.log <:+ history ∧ resolver.log.length = min 256 history.length) ∧
      (∀ name file imports, (resolver.collect name file imports).1.log = resolver.log) ∧
      (∀ options path metadata,
        (analyze options resolver path metadata).1.log = resolver.log) ∧
      (∀ source path, (resolver.define source path).1.log = resolver.log) ∧
      resolver.clear.log = resolver.log ∧
      resolver.takeFailures.2 = resolver.log ∧ resolver.takeFailures.1.log = [] := by
  intro resolver history
  have hlog : resolver.log = history.rtake 256 := Session.run_log workspace operations
  refine ⟨⟨?_, ?_⟩, fun _ _ _ => rfl, ?_, fun _ _ => rfl, rfl, rfl, rfl⟩
  · rw [hlog]
    exact List.drop_suffix _ _
  · rw [hlog, length_rtake]
  · intro options path metadata
    exact analyze_log options resolver path metadata

end ComponentDocs
