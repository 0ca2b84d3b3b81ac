import ComponentDocs.Analysis
import ComponentDocs.Proofs.Folds
import ComponentDocs.Proofs.Types.Search

/-!
# Sessions

A session is a sequence of operations on one resolver and its workspace.  Each
operation amounts to a list of events, of which a lookup is one and an
extraction of given definitions another, so that what every event keeps is kept
by every session.
-/

namespace ComponentDocs

open ComponentDocs.Types

/-- One thing that happens to the sources. -/
inductive Event where
  | inserted (path : Text) (content : Content)
  | opened
  | defined (source path : Text)
  | lookedUp (name file : Text) (imports : List Import)
  | cleared
  deriving DecidableEq

namespace Event

def apply (sources : Sources) : Event → Sources
  | .inserted path content =>
      { sources with workspace := sources.workspace.insert path content }
  | .opened => sources.afterRead
  | .defined source path => (sources.define source path).1
  | .lookedUp name file imports => (sources.lookup name file imports).sources
  | .cleared => { sources with catalog := {} }

def replay (sources : Sources) (events : List Event) : Sources :=
  events.foldl apply sources

@[simp] theorem replay_cons (sources : Sources) (event : Event) (events : List Event) :
    replay sources (event :: events) = replay (event.apply sources) events := rfl

@[simp] theorem replay_append (sources : Sources) (first second : List Event) :
    replay sources (first ++ second) = replay (replay sources first) second :=
  List.foldl_append

end Event

def Types.Query.event (query : Query) : Event :=
  .lookedUp query.reference.name query.reference.file query.imports

theorem Types.Threaded.replay_eq {first last : Sources} {queries : List Query}
    (h : Threaded first queries last) :
    Event.replay first (queries.map Query.event) = last := by
  induction h with
  | nil sources => rfl
  | cons query queries last _ ih =>
      rw [List.map_cons, Event.replay_cons]
      exact ih

inductive Operation where
  | insertFile (path : Text) (content : Content)
  | define (source path : Text)
  | resolve (name file : Text) (imports : List Import)
  | resolveAll (name file : Text) (imports : List Import)
  | collect (name file : Text) (imports : List Import)
  | analyze (options : Options) (path : Text) (metadata : Component.Metadata)
  | read (path : Text)
  | takeFailures
  | clear

def collectEvents (file : Text) (imports : List Import) : List Text → Sources → List Event
  | [], _ => []
  | name :: names, sources =>
      (sources.queries name file imports).map Query.event ++
        collectEvents file imports names (sources.collect name file imports).sources

def analysisEvents (options : Options) (sources : Sources) (path : Text)
    (metadata : Component.Metadata) : List Event :=
  match sources.workspace.text? path with
  | .error _ => [.opened]
  | .ok source =>
      if options.timeoutMillis == 0 then [.opened]
      else if options.resolveTypes then
        .opened :: .defined source path ::
          collectEvents path (Definitions.ofSource source path).imports
            (referencedTypes (Component.Api.ofSource options metadata source).parameters)
            (sources.afterRead.define source path).1
      else [.opened, .defined source path]

namespace Operation

def apply (resolver : Resolver) : Operation → Resolver
  | .insertFile path content => resolver.insertFile path content
  | .define source path => (resolver.define source path).1
  | .resolve name file imports => (resolver.resolve name file imports).1
  | .resolveAll name file imports => (resolver.resolveAll name file imports).1
  | .collect name file imports => (resolver.collect name file imports).1
  | .analyze options path metadata => (ComponentDocs.analyze options resolver path metadata).1
  | .read path => (resolver.read path).1
  | .takeFailures => resolver.takeFailures.1
  | .clear => resolver.clear

def events (sources : Sources) : Operation → List Event
  | .insertFile path content => [.inserted path content]
  | .define source path => [.defined source path]
  | .resolve name file imports => [.lookedUp name file imports]
  | .resolveAll name file imports | .collect name file imports =>
      (sources.queries name file imports).map Query.event
  | .analyze options path metadata => analysisEvents options sources path metadata
  | .read _ => [.opened]
  | .takeFailures => []
  | .clear => [.cleared]

end Operation

theorem collectTypes_sources (file : Text) (imports : List Import) (names : List Text)
    (resolver : Resolver) :
    (collectTypes file imports names resolver).1.sources =
      Event.replay resolver.sources (collectEvents file imports names resolver.sources) := by
  suffices h : ∀ (types : List ResolvedType) (failures : List Failure),
      (names.foldl (collectType file imports) (resolver, types, failures)).1.sources =
        Event.replay resolver.sources (collectEvents file imports names resolver.sources) from
    h [] []
  induction names generalizing resolver with
  | nil => intro types failures; rfl
  | cons name names ih =>
      intro types failures
      rw [List.foldl_cons, collectEvents, Event.replay_append,
        (resolver.sources.threaded_queries name file imports).replay_eq]
      exact ih (resolver.collect name file imports).1 _ _

theorem analyze_sources (options : Options) (resolver : Resolver) (path : Text)
    (metadata : Component.Metadata) :
    (analyze options resolver path metadata).1.sources =
      Event.replay resolver.sources
        (analysisEvents options resolver.sources path metadata) := by
  unfold analyze analysisEvents
  simp only [Resolver.read]
  cases resolver.sources.workspace.text? path with
  | error error => rfl
  | ok source =>
      dsimp only
      split
      · rfl
      · split
        · simp only [Event.replay_cons]
          exact collectTypes_sources _ _ _ _
        · rfl

theorem Operation.apply_sources (resolver : Resolver) (operation : Operation) :
    (operation.apply resolver).sources =
      Event.replay resolver.sources (operation.events resolver.sources) := by
  cases operation with
  | insertFile path content | define source path | resolve name file imports | read path
  | takeFailures | clear => rfl
  | resolveAll name file imports | collect name file imports =>
      exact (resolver.sources.threaded_queries name file imports).replay_eq.symm
  | analyze options path metadata => exact analyze_sources options resolver path metadata

theorem collectTypes_log (file : Text) (imports : List Import) (names : List Text)
    (resolver : Resolver) :
    (collectTypes file imports names resolver).1.log = resolver.log := by
  have hstep : ∀ state name, (collectType file imports state name).1.log = state.1.log :=
    fun _ _ => rfl
  exact view_foldl (fun state => state.1.log) hstep names (resolver, [], [])

theorem analyze_log (options : Options) (resolver : Resolver) (path : Text)
    (metadata : Component.Metadata) :
    (analyze options resolver path metadata).1.log = resolver.log := by
  unfold analyze
  simp only [Resolver.read]
  cases resolver.sources.workspace.text? path with
  | error error => rfl
  | ok source =>
      dsimp only
      split
      · rfl
      · split
        · exact collectTypes_log _ _ _ _
        · rfl

theorem Types.Resolver.record_log_length_le (resolver : Resolver) (failures : List Failure) :
    (resolver.record failures).log.length ≤ Resolver.logLimit := by
  simp only [record, List.length_drop]
  omega

theorem Types.Resolver.record_nil {resolver : Resolver}
    (h : resolver.log.length ≤ Resolver.logLimit) : resolver.record [] = resolver := by
  have hdrop : resolver.log.length - Resolver.logLimit = 0 := by omega
  simp [record, hdrop]

theorem Operation.apply_log_length_le {resolver : Resolver} (operation : Operation)
    (h : resolver.log.length ≤ Resolver.logLimit) :
    (operation.apply resolver).log.length ≤ Resolver.logLimit := by
  cases operation with
  | insertFile | define | collect | read | clear => exact h
  | resolve | resolveAll => exact Resolver.record_log_length_le _ _
  | analyze options path metadata =>
      simp only [apply, analyze_log]
      exact h
  | takeFailures => exact Nat.zero_le _

namespace Session

def fresh (workspace : Workspace) : Resolver :=
  { sources := { workspace } }

def run (workspace : Workspace) (operations : List Operation) : Resolver :=
  operations.foldl Operation.apply (fresh workspace)

def eventsFrom (resolver : Resolver) : List Operation → List Event
  | [] => []
  | operation :: operations =>
      operation.events resolver.sources ++ eventsFrom (operation.apply resolver) operations

def events (workspace : Workspace) (operations : List Operation) : List Event :=
  eventsFrom (fresh workspace) operations

theorem run_sources (workspace : Workspace) (operations : List Operation) :
    (run workspace operations).sources =
      Event.replay { workspace } (events workspace operations) := by
  suffices h : ∀ resolver : Resolver, (operations.foldl Operation.apply resolver).sources =
      Event.replay resolver.sources (eventsFrom resolver operations) from h (fresh workspace)
  induction operations with
  | nil => intro resolver; rfl
  | cons operation operations ih =>
      intro resolver
      rw [List.foldl_cons, ih, eventsFrom, Event.replay_append, Operation.apply_sources]

/-- A property of sources that holds at the start and that every event keeps holds
after every session. -/
theorem run_induction {P : Sources → Prop} {workspace : Workspace} (hstart : P { workspace })
    (hevent : ∀ sources event, P sources → P (Event.apply sources event))
    (operations : List Operation) : P (run workspace operations).sources := by
  rw [run_sources]
  generalize events workspace operations = happened
  generalize ({ workspace } : Sources) = sources at hstart
  induction happened generalizing sources with
  | nil => exact hstart
  | cons event happened ih => exact ih _ (hevent sources event hstart)

theorem run_log_length_le (workspace : Workspace) (operations : List Operation) :
    (run workspace operations).log.length ≤ Resolver.logLimit := by
  suffices h : ∀ resolver : Resolver, resolver.log.length ≤ Resolver.logLimit →
      (operations.foldl Operation.apply resolver).log.length ≤ Resolver.logLimit from
    h (fresh workspace) (Nat.zero_le _)
  induction operations with
  | nil => intro resolver h; exact h
  | cons operation operations ih =>
      intro resolver h
      exact ih _ (operation.apply_log_length_le h)

end Session

end ComponentDocs
