import ComponentDocs.Proofs.Extraction
import Mathlib.Data.List.Nodup

/-!
# How often files are read

A lookup reads a module only if its file is not known, and then it is: a session in which
the resolver is never cleared reads no module twice.  So what is wrong in a module is
reported once.
-/

namespace ComponentDocs

open ComponentDocs.Types

variable {imports : List Import} {sources : Sources} {file name path : Text} {event : Event}

namespace Types.Sources

def opens (sources : Sources) (path : Text) : Bool :=
  (sources.load path).1.workspace.reads != sources.workspace.reads

def loaded? (sources : Sources) (name file : Text) (imports : List Import) : Option Text :=
  (sources.module? name file imports).filter sources.opens

theorem reads_load (sources : Sources) (path : Text) :
    (sources.load path).1.workspace.reads =
      sources.workspace.reads + if sources.catalog.knowsFile path then 0 else 1 := by
  cases hknown : sources.catalog.knowsFile path with
  | true => rw [load_known hknown]; rfl
  | false =>
      cases htext : sources.workspace.text? path with
      | ok source => rw [load_read hknown htext]; rfl
      | error error => rw [load_unreadable hknown htext]; rfl

theorem opens_eq (sources : Sources) (path : Text) :
    sources.opens path = !sources.catalog.knowsFile path := by
  rw [opens, reads_load]
  cases sources.catalog.knowsFile path <;> simp

theorem knowsFile_load (sources : Sources) (path other : Text) :
    (sources.load path).1.catalog.knowsFile other =
      (decide (other = path) || sources.catalog.knowsFile other) := by
  cases hknown : sources.catalog.knowsFile path with
  | true =>
      rw [load_known hknown]
      by_cases hother : other = path
      · simp [hother, hknown]
      · simp [hother]
  | false =>
      cases htext : sources.workspace.text? path with
      | ok source =>
          rw [load_read hknown htext]
          exact Catalog.knowsFile_addFile _ path _ other
      | error error =>
          rw [load_unreadable hknown htext]
          exact Catalog.knowsFile_markFile _ path other

/-- But for the types that it remembers, a lookup leaves the sources as loading its module
does. -/
theorem lookup_loads (sources : Sources) (name file : Text) (imports : List Import) :
    let next := (sources.lookup name file imports).sources
    let loaded := ((sources.module? name file imports).elim sources fun target =>
      (sources.load target).1)
    next.workspace = loaded.workspace ∧ next.catalog.files = loaded.catalog.files := by
  have houtcome := sources.lookup_outcome name file imports
  generalize (sources.lookup name file imports).found = found at houtcome
  generalize (sources.lookup name file imports).sources = after at houtcome ⊢
  cases houtcome with
  | hit type hresolved => simp [module?, hresolved]
  | declared known _ hdeclared => simp [module?, hdeclared, remember, Catalog.addResolved]
  | imported target key known _ hmodule _ => simp [hmodule, remember, Catalog.addResolved]
  | undeclared target hmodule => simp [hmodule]
  | unfound hmodule => simp [hmodule]

theorem reads_lookup (sources : Sources) (name file : Text) (imports : List Import) :
    (sources.lookup name file imports).sources.workspace.reads =
      sources.workspace.reads + (sources.loaded? name file imports).toList.length := by
  rw [(sources.lookup_loads name file imports).1, loaded?]
  cases sources.module? name file imports with
  | none => rfl
  | some target =>
      rw [Option.elim_some, reads_load, Option.filter_some, opens_eq]
      cases sources.catalog.knowsFile target <;> rfl

theorem loaded?_eq_some_iff :
    sources.loaded? name file imports = some path ↔
      sources.catalog.knowsFile path = false ∧
        (sources.lookup name file imports).sources.catalog.knowsFile path = true := by
  have hafter : (sources.lookup name file imports).sources.catalog.knowsFile path =
      (decide (sources.module? name file imports = some path) ||
        sources.catalog.knowsFile path) := by
    rw [Catalog.knowsFile, (sources.lookup_loads name file imports).2]
    cases sources.module? name file imports with
    | none => simp [Catalog.knowsFile]
    | some target =>
        have hload := sources.knowsFile_load target path
        rw [Catalog.knowsFile] at hload
        simp [hload, eq_comm]
  rw [hafter, loaded?, Option.filter_eq_some_iff, opens_eq]
  cases sources.catalog.knowsFile path <;> simp

theorem file_of_mem_load_failures {failure : Failure}
    (h : failure ∈ (sources.load path).2) : failure.file = path ∧ sources.opens path = true := by
  rw [opens_eq]
  cases hknown : sources.catalog.knowsFile path with
  | true =>
      rw [load_known hknown] at h
      contradiction
  | false =>
      refine ⟨?_, rfl⟩
      cases htext : sources.workspace.text? path with
      | ok source =>
          rw [load_read hknown htext] at h
          exact Definitions.failuresIn_ofSource source path failure h
      | error error =>
          rw [load_unreadable hknown htext] at h
          rw [List.mem_singleton.mp h]
          rfl

/-- What a lookup reports, but for imports that it cannot follow, is about the module that
it reads. -/
theorem loaded?_of_mem_failures {failure : Failure}
    (h : failure ∈ (sources.lookup name file imports).failures)
    (hkind : failure.kind ≠ .importing) :
    sources.loaded? name file imports = some failure.file := by
  cases hresolved : sources.catalog.resolved? file name with
  | some type =>
      rw [lookup_hit hresolved] at h
      contradiction
  | none =>
      cases hdeclared : sources.catalog.declaration? name with
      | some known =>
          rw [lookup_declared hresolved hdeclared] at h
          contradiction
      | none =>
          cases hrecord : imports.find? (fun record => record.binds name) with
          | none =>
              rw [lookup_unbound hresolved hdeclared hrecord] at h
              contradiction
          | some record =>
              rw [lookup_imported hresolved hdeclared hrecord] at h
              cases htarget : sources.workspace.resolveModule? file record.source with
              | none =>
                  unfold lookupImported at h
                  rw [htarget] at h
                  split at h
                  all_goals
                    rw [List.mem_singleton.mp h] at hkind
                    contradiction
              | some target =>
                  have hmodule : sources.module? name file imports = some target := by
                    simp [module?, hresolved, hdeclared, hrecord, htarget]
                  have hload : failure ∈ (sources.load target).2 := by
                    rw [lookupImported_resolved htarget, lookupIn] at h
                    dsimp only at h
                    split at h <;> exact h
                  obtain ⟨rfl, hopens⟩ := file_of_mem_load_failures hload
                  rw [loaded?, hmodule, Option.filter_some, if_pos hopens]

end Types.Sources

/-! ## What events read -/

def Event.loaded? (sources : Sources) : Event → Option Text
  | .lookedUp name file imports => sources.loaded? name file imports
  | .inserted _ _ | .opened | .defined _ _ | .cleared => none

def Event.loads (sources : Sources) : List Event → List Text
  | [] => []
  | event :: events => (event.loaded? sources).toList ++ loads (event.apply sources) events

namespace Event

theorem loads_append (sources : Sources) (first second : List Event) :
    loads sources (first ++ second) =
      loads sources first ++ loads (replay sources first) second := by
  induction first generalizing sources with
  | nil => rfl
  | cons event first ih =>
      simp only [List.cons_append, loads, ih, List.append_assoc, replay_cons]

theorem loaded?_knows (h : event.loaded? sources = some path) :
    sources.catalog.knowsFile path = false ∧
      (event.apply sources).catalog.knowsFile path = true := by
  cases event with
  | lookedUp name file imports => exact Sources.loaded?_eq_some_iff.mp h
  | inserted | opened | defined | cleared => contradiction

theorem knowsFile_apply (h : sources.catalog.knowsFile path = true) (hkept : event ≠ .cleared) :
    (event.apply sources).catalog.knowsFile path = true := by
  cases event with
  | inserted | opened => exact h
  | defined source other =>
      simp only [apply, Sources.define, Catalog.knowsFile_addFile, h, Bool.or_true]
  | lookedUp name file imports =>
      by_contra hunknown
      have hfiles := (sources.lookup_loads name file imports).2
      simp only [apply, Catalog.knowsFile, hfiles] at hunknown
      cases hmodule : sources.module? name file imports with
      | none =>
          rw [hmodule] at hunknown
          exact hunknown h
      | some target =>
          rw [hmodule, Option.elim_some, ← Catalog.knowsFile, Sources.knowsFile_load, h] at hunknown
          simp at hunknown
  | cleared => contradiction

variable {events : List Event}

theorem knowsFile_replay (h : sources.catalog.knowsFile path = true) (hkept : .cleared ∉ events) :
    (replay sources events).catalog.knowsFile path = true := by
  induction events generalizing sources with
  | nil => exact h
  | cons event events ih =>
      obtain ⟨hevent, hevents⟩ := List.ne_and_not_mem_of_not_mem_cons hkept
      exact ih (knowsFile_apply h hevent.symm) hevents

theorem knowsFile_of_mem_loads (hkept : .cleared ∉ events) (h : path ∈ loads sources events) :
    sources.catalog.knowsFile path = false := by
  induction events generalizing sources with
  | nil => contradiction
  | cons event events ih =>
      obtain ⟨hevent, hevents⟩ := List.ne_and_not_mem_of_not_mem_cons hkept
      rcases List.mem_append.mp h with hfirst | hlater
      · exact (loaded?_knows (Option.mem_toList.mp hfirst)).1
      · have hnext := ih hevents hlater
        by_contra hknown
        rw [knowsFile_apply (by simpa using hknown) hevent.symm] at hnext
        contradiction

theorem nodup_loads (sources : Sources) (hkept : .cleared ∉ events) :
    (loads sources events).Nodup := by
  induction events generalizing sources with
  | nil => exact List.nodup_nil
  | cons event events ih =>
      obtain ⟨-, hevents⟩ := List.ne_and_not_mem_of_not_mem_cons hkept
      rw [loads]
      cases hloaded : event.loaded? sources with
      | none => exact ih _ hevents
      | some path =>
          refine List.nodup_cons.mpr ⟨fun hlater => ?_, ih _ hevents⟩
          have hunknown := knowsFile_of_mem_loads hevents hlater
          rw [(loaded?_knows hloaded).2] at hunknown
          contradiction

theorem knowsFile_of_defined {source : Text} (hkept : .cleared ∉ events)
    (h : .defined source path ∈ events) :
    (replay sources events).catalog.knowsFile path = true := by
  obtain ⟨before, after, rfl⟩ := List.append_of_mem h
  rw [replay_append, replay_cons]
  refine knowsFile_replay ?_ fun hcleared => hkept (by simp [hcleared])
  simp [apply, Sources.define]

theorem knowsFile_of_loaded (hkept : .cleared ∉ events) (h : path ∈ loads sources events) :
    (replay sources events).catalog.knowsFile path = true := by
  induction events generalizing sources with
  | nil => contradiction
  | cons event events ih =>
      obtain ⟨-, hevents⟩ := List.ne_and_not_mem_of_not_mem_cons hkept
      rcases List.mem_append.mp h with hfirst | hlater
      · rw [replay_cons]
        exact knowsFile_replay (loaded?_knows (Option.mem_toList.mp hfirst)).2 hevents
      · exact ih hevents hlater

theorem reads_replay (sources : Sources) (events : List Event) :
    (replay sources events).workspace.reads =
      sources.workspace.reads + events.count .opened + (loads sources events).length := by
  induction events generalizing sources with
  | nil => rfl
  | cons event events ih =>
      rw [replay_cons, ih, loads, List.length_append]
      cases event with
      | lookedUp name file imports =>
          rw [apply, Sources.reads_lookup, List.count_cons_of_ne (by simp)]
          simp only [loaded?]
          omega
      | opened =>
          rw [List.count_cons_self]
          simp only [apply, Sources.afterRead, Workspace.countRead, loaded?, Option.toList_none,
            List.length_nil]
          omega
      | inserted | defined | cleared =>
          rw [List.count_cons_of_ne (by simp)]
          simp only [apply, Sources.define, Workspace.insert, loaded?, Option.toList_none,
            List.length_nil, Nat.zero_add]

end Event

/-! ## What is reported -/

/-- Whether a failure is about what a module says, and not about an import. -/
def Failure.isAbout (path : Text) (failure : Failure) : Bool :=
  failure.file = path && (failure.kind = .parsing || failure.kind = .typing)

namespace Types

theorem Worklist.failures_iterate (start : Text) (imports : List Import) (turns : Nat)
    (work : Worklist) :
    ((step start imports)^[turns] work).search.failures =
      work.search.failures ++
        (work.queries start imports turns).flatMap fun query => query.lookup.failures := by
  induction turns generalizing work with
  | zero => simp [queries]
  | succ turns ih =>
      obtain ⟨queue, search⟩ := work
      cases queue with
      | nil => simp [iterate_step_nil, queries]
      | cons reference queue =>
          rw [Function.iterate_succ_apply, queries, List.isEmpty_cons, if_neg Bool.false_ne_true]
          by_cases h : reference ∈ search.visited
          · rw [query?_visited start imports h, step_visited start imports h]
            exact ih ⟨queue, search⟩
          · rw [query?_new start imports h, step_new start imports h, ih]
            simp [Search.visit_failures]

theorem Sources.collect_failures (sources : Sources) (name file : Text)
    (imports : List Import) :
    (sources.collect name file imports).failures =
      (sources.queries name file imports).flatMap fun query => query.lookup.failures := by
  rw [collect_eq_iterate]
  exact Worklist.failures_iterate file imports sources.searchBound (sources.worklist name file)

theorem Threaded.loads_eq {first last : Sources} {queries : List Query}
    (h : Threaded first queries last) :
    Event.loads first (queries.map Query.event) =
      queries.flatMap fun query => (query.event.loaded? query.sources).toList := by
  induction h with
  | nil sources => rfl
  | cons query queries last _ ih =>
      rw [List.map_cons, Event.loads, List.flatMap_cons]
      exact congrArg _ ih

theorem Sources.loaded?_of_reported
    (h : (sources.lookup name file imports).failures.any (·.isAbout path) = true) :
    sources.loaded? name file imports = some path := by
  obtain ⟨failure, hmem, habout⟩ := List.any_eq_true.mp h
  rw [Failure.isAbout, Bool.and_eq_true, decide_eq_true_iff] at habout
  obtain ⟨rfl, hkind⟩ := habout
  refine loaded?_of_mem_failures hmem fun himporting => ?_
  rw [himporting] at hkind
  contradiction

theorem Sources.mem_loads_of_collect
    (h : (sources.collect name file imports).failures.any (·.isAbout path) = true) :
    path ∈ Event.loads sources ((sources.queries name file imports).map Query.event) := by
  rw [(sources.threaded_queries name file imports).loads_eq]
  rw [Sources.collect_failures, List.any_flatMap, List.any_eq_true] at h
  obtain ⟨query, hquery, hreported⟩ := h
  exact List.mem_flatMap.mpr ⟨query, hquery, Option.mem_toList.mpr (loaded?_of_reported hreported)⟩

end Types

def collectReports (file : Text) (imports : List Import) :
    List Text → Sources → List (List Failure)
  | [], _ => []
  | name :: names, sources =>
      (sources.collect name file imports).failures ::
        collectReports file imports names (sources.collect name file imports).sources

def analysisReports (options : Options) (sources : Sources) (path : Text)
    (metadata : Component.Metadata) : List (List Failure) :=
  match sources.workspace.text? path with
  | .error _ => []
  | .ok source =>
      if options.timeoutMillis == 0 then []
      else if options.resolveTypes then
        collectReports path (Definitions.ofSource source path).imports
          (referencedTypes (Component.Api.ofSource options metadata source).parameters)
          (sources.afterRead.define source path).1
      else []

/-- The failures that an operation reports, one list for each time that it resolves a name. -/
def Operation.reports (sources : Sources) : Operation → List (List Failure)
  | .resolve name file imports => [(sources.lookup name file imports).failures]
  | .resolveAll name file imports | .collect name file imports =>
      [(sources.collect name file imports).failures]
  | .analyze options path metadata => analysisReports options sources path metadata
  | .insertFile _ _ | .define _ _ | .read _ | .takeFailures | .clear => []

theorem collectTypes_failures (file : Text) (imports : List Import) (names : List Text)
    (resolver : Resolver) :
    (collectTypes file imports names resolver).2.2 =
      (collectReports file imports names resolver.sources).flatten := by
  suffices h : ∀ (types : List ResolvedType) (failures : List Failure),
      (names.foldl (collectType file imports) (resolver, types, failures)).2.2 =
        failures ++ (collectReports file imports names resolver.sources).flatten from
    h [] []
  induction names generalizing resolver with
  | nil =>
      intro types failures
      simp [collectReports]
  | cons name names ih =>
      intro types failures
      rw [List.foldl_cons, collectReports, List.flatten_cons, ← List.append_assoc]
      exact ih (resolver.collect name file imports).1 _ _

theorem analyze_failures {options : Options} {resolver : Resolver} {source : Text}
    {metadata : Component.Metadata} {doc : ComponentDoc}
    (hsource : resolver.sources.workspace.text? path = .ok source)
    (h : (analyze options resolver path metadata).2 = .ok doc) :
    doc.api.failures = (Component.Api.ofSource options metadata source).failures ++
      (analysisReports options resolver.sources path metadata).flatten := by
  unfold analyze at h
  unfold analysisReports
  simp only [Resolver.read, hsource] at h ⊢
  split at h
  · contradiction
  · next htimeout =>
      rw [if_neg htimeout]
      split at h
      · next hresolve =>
          cases h
          rw [if_pos hresolve]
          exact congrArg _ (collectTypes_failures _ _ _ _)
      · next hresolve =>
          cases h
          rw [if_neg hresolve, List.flatten_nil, List.append_nil]

/-! ## Sessions -/

def Operation.isRead : Operation → Bool
  | .analyze _ _ _ | .read _ => true
  | _ => false

theorem isLookup_of_mem_collectEvents {names : List Text}
    (h : event ∈ collectEvents file imports names sources) :
    ∃ name place visible, event = .lookedUp name place visible := by
  induction names generalizing sources with
  | nil => contradiction
  | cons name names ih =>
      rcases List.mem_append.mp h with hfirst | hlater
      · obtain ⟨query, -, rfl⟩ := List.mem_map.mp hfirst
        exact ⟨_, _, _, rfl⟩
      · exact ih hlater

theorem countP_collectReports_le (file : Text) (imports : List Import) (names : List Text)
    (sources : Sources) (path : Text) :
    (collectReports file imports names sources).countP (·.any (·.isAbout path)) ≤
      (Event.loads sources (collectEvents file imports names sources)).count path := by
  induction names generalizing sources with
  | nil => exact Nat.le_refl 0
  | cons name names ih =>
      have hlater := ih (sources.collect name file imports).sources
      rw [collectReports, collectEvents, Event.loads_append, List.count_append,
        (sources.threaded_queries name file imports).replay_eq, List.countP_cons]
      split
      · next hreported =>
          have hfirst := List.count_pos_iff.mpr (Sources.mem_loads_of_collect hreported)
          omega
      · omega

namespace Operation

theorem cleared_not_mem_events {operation : Operation} (h : operation ≠ .clear)
    (sources : Sources) : .cleared ∉ operation.events sources := by
  cases operation with
  | insertFile | define | resolve | read | takeFailures => simp [events]
  | resolveAll | collect => simp [events, Query.event]
  | analyze options path metadata =>
      simp only [events, analysisEvents]
      split
      · simp
      · split
        · simp
        · split
          · simp only [List.mem_cons, reduceCtorEq, false_or]
            intro hmem
            obtain ⟨name, place, visible, hevent⟩ := isLookup_of_mem_collectEvents hmem
            contradiction
          · simp
  | clear => contradiction

theorem count_opened_events (operation : Operation) (sources : Sources) :
    (operation.events sources).count .opened = if operation.isRead then 1 else 0 := by
  cases operation with
  | insertFile | define | resolve | read | takeFailures | clear => rfl
  | resolveAll | collect =>
      rw [List.count_eq_zero_of_not_mem (by simp [events, Query.event])]
      rfl
  | analyze options path metadata =>
      simp only [events, analysisEvents]
      split
      · rfl
      · split
        · rfl
        · split
          · rw [List.count_cons_self, List.count_cons_of_ne (by simp),
              List.count_eq_zero_of_not_mem]
            · rfl
            · intro hmem
              obtain ⟨name, place, visible, hevent⟩ := isLookup_of_mem_collectEvents hmem
              contradiction
          · rfl

theorem countP_reports_le (operation : Operation) (sources : Sources) (path : Text) :
    (operation.reports sources).countP (·.any (·.isAbout path)) ≤
      (Event.loads sources (operation.events sources)).count path := by
  cases operation with
  | insertFile | define | read | takeFailures | clear => exact Nat.zero_le _
  | resolve name file imports =>
      rw [reports, List.countP_singleton]
      split
      · next hreported =>
          refine List.count_pos_iff.mpr (List.mem_append_left _ (Option.mem_toList.mpr ?_))
          exact Sources.loaded?_of_reported hreported
      · exact Nat.zero_le _
  | resolveAll name file imports | collect name file imports =>
      rw [reports, List.countP_singleton]
      split
      · next hreported => exact List.count_pos_iff.mpr (Sources.mem_loads_of_collect hreported)
      · exact Nat.zero_le _
  | analyze options file metadata =>
      simp only [reports, analysisReports, events, analysisEvents]
      cases sources.workspace.text? file with
      | error error => exact Nat.zero_le _
      | ok source =>
          dsimp only
          split
          · exact Nat.zero_le _
          · split
            · exact countP_collectReports_le _ _ _ _ path
            · exact Nat.zero_le _

end Operation

namespace Session

def loads (workspace : Workspace) (operations : List Operation) : List Text :=
  Event.loads { workspace } (events workspace operations)

def reportsFrom (resolver : Resolver) : List Operation → List (List Failure)
  | [] => []
  | operation :: operations =>
      operation.reports resolver.sources ++ reportsFrom (operation.apply resolver) operations

/-- The failures that a session reports, one list for each time that a name is resolved. -/
def reports (workspace : Workspace) (operations : List Operation) : List (List Failure) :=
  reportsFrom (fresh workspace) operations

theorem cleared_not_mem_eventsFrom {operations : List Operation} (resolver : Resolver)
    (hkept : ∀ operation ∈ operations, operation ≠ .clear) :
    .cleared ∉ eventsFrom resolver operations := by
  induction operations generalizing resolver with
  | nil => exact List.not_mem_nil
  | cons operation operations ih =>
      rw [List.forall_mem_cons] at hkept
      rw [eventsFrom, List.mem_append, not_or]
      exact ⟨Operation.cleared_not_mem_events hkept.1 _, ih _ hkept.2⟩

theorem count_opened_eventsFrom (resolver : Resolver) (operations : List Operation) :
    (eventsFrom resolver operations).count .opened = operations.countP Operation.isRead := by
  induction operations generalizing resolver with
  | nil => rfl
  | cons operation operations ih =>
      rw [eventsFrom, List.count_append, ih, Operation.count_opened_events, List.countP_cons,
        Nat.add_comm]

theorem countP_reportsFrom_le (resolver : Resolver) (operations : List Operation) (path : Text) :
    (reportsFrom resolver operations).countP (·.any (·.isAbout path)) ≤
      (Event.loads resolver.sources (eventsFrom resolver operations)).count path := by
  induction operations generalizing resolver with
  | nil => exact Nat.le_refl 0
  | cons operation operations ih =>
      rw [reportsFrom, eventsFrom, List.countP_append, Event.loads_append, List.count_append,
        ← Operation.apply_sources]
      exact Nat.add_le_add (operation.countP_reports_le resolver.sources path) (ih _)

end Session

/--
Every module is read at most once, if the resolver is never cleared.  A lookup reads a
module if and only if it makes its file a known one, which no earlier definition or lookup
had done.  So all files together are read once for each operation that reads a file itself
and once for each file that lookups made known, and what is wrong in a module is reported
only once.
-/
theorem modules_read_once (workspace : Workspace) {operations : List Operation}
    (hkept : ∀ operation ∈ operations, operation ≠ .clear) :
    (Session.loads workspace operations).Nodup ∧
    (∀ before name file imports after,
      Session.events workspace operations = before ++ .lookedUp name file imports :: after →
        let sources := Event.replay { workspace } before
        ∀ path,
          (sources.loaded? name file imports = some path ↔
            sources.catalog.knowsFile path = false ∧
              (sources.lookup name file imports).sources.catalog.knowsFile path = true) ∧
          (sources.loaded? name file imports = some path →
            (∀ source, .defined source path ∉ before) ∧
              path ∉ Event.loads { workspace } before)) ∧
    (Session.run workspace operations).sources.workspace.reads =
      workspace.reads + operations.countP Operation.isRead +
        (Session.loads workspace operations).length ∧
    ∀ path, (Session.reports workspace operations).countP (·.any (·.isAbout path)) ≤ 1 := by
  have hevents : .cleared ∉ Session.events workspace operations :=
    Session.cleared_not_mem_eventsFrom _ hkept
  have hnodup : (Session.loads workspace operations).Nodup := Event.nodup_loads _ hevents
  refine ⟨hnodup, ?_, ?_, fun path => ?_⟩
  · intro before name file imports after hsplit sources path
    have hbefore : .cleared ∉ before := fun hcleared => hevents (by simp [hsplit, hcleared])
    refine ⟨Sources.loaded?_eq_some_iff, fun hloaded => ?_⟩
    have hunknown := (Sources.loaded?_eq_some_iff.mp hloaded).1
    constructor
    · intro source hdefined
      rw [Event.knowsFile_of_defined hbefore hdefined] at hunknown
      contradiction
    · intro hmem
      rw [Event.knowsFile_of_loaded hbefore hmem] at hunknown
      contradiction
  · rw [Session.run_sources, Event.reads_replay, Session.events,
      Session.count_opened_eventsFrom]
    rfl
  · exact (Session.countP_reportsFrom_le _ operations path).trans
      (List.nodup_iff_count_le_one.mp hnodup path)

/-- A module that does not parse is imported by two files, and read by itself. -/
def brokenModule : List Operation :=
  [.insertFile "/m.ts" (.text "interface ("),
    .resolve "A" "/a.ts" [{ source := "./m", names := ["A"], typeOnly := true }],
    .resolveAll "B" "/b.ts" [{ source := "./m", names := ["B"], typeOnly := true }],
    .read "/m.ts"]

theorem modules_read_once_broken :
    (∀ operation ∈ brokenModule, operation ≠ .clear) ∧
      Session.reports {} brokenModule = [[Failure.unparsed "/m.ts"], []] ∧
      (Session.loads {} brokenModule).Nodup ∧
      (Session.run {} brokenModule).sources.workspace.reads =
        1 + (Session.loads {} brokenModule).length ∧
      ∀ path, (Session.reports {} brokenModule).countP (·.any (·.isAbout path)) ≤ 1 := by
  have hkept : ∀ operation ∈ brokenModule, operation ≠ .clear := by simp [brokenModule]
  have hopened : brokenModule.countP Operation.isRead = 1 := rfl
  obtain ⟨hnodup, -, hreads, hreports⟩ := modules_read_once {} hkept
  simp only [hopened, Nat.zero_add] at hreads
  exact ⟨hkept, by decide +kernel, hnodup, hreads, hreports⟩

end ComponentDocs
