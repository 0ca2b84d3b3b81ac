import ComponentDocs.Proofs.Analysis
import ComponentDocs.Proofs.Types.Repetition

/-!
# Analyses that are repeated

An analysis leaves behind what it came to know.  When it is made again it finds what it
found before, and it can find more: a name that was looked up in vain may be declared in a
module that was read later.
-/

namespace ComponentDocs

open ComponentDocs.Types

def collectQueries (file : Text) (imports : List Import) : List Text → Sources → List Query
  | [], _ => []
  | name :: names, sources =>
      sources.queries name file imports ++
        collectQueries file imports names (sources.collect name file imports).sources

def searchedNames (options : Options) (metadata : Component.Metadata) (source : Text) :
    List Text :=
  if options.resolveTypes then
    referencedTypes (Component.Api.ofSource options metadata source).parameters
  else []

def analysisQueries (options : Options) (sources : Sources) (path : Text)
    (metadata : Component.Metadata) : List Query :=
  match sources.workspace.text? path with
  | .error _ => []
  | .ok source =>
      if options.timeoutMillis == 0 then []
      else
        collectQueries path (Definitions.ofSource source path).imports
          (searchedNames options metadata source) (sources.afterRead.define source path).1

/-- What an analysis looks up in vain would also be looked up in vain after it. -/
def StaysVain (options : Options) (resolver : Resolver) (path : Text)
    (metadata : Component.Metadata) : Prop :=
  ∀ query ∈ analysisQueries options resolver.sources path metadata, query.lookup.found = none →
    ((analyze options resolver path metadata).1.sources.lookup query.reference.name
      query.reference.file query.imports).found = none

instance (options : Options) (resolver : Resolver) (path : Text)
    (metadata : Component.Metadata) : Decidable (StaysVain options resolver path metadata) :=
  inferInstanceAs (Decidable (∀ query ∈ _, _ → _))

section

variable (file : Text) (imports : List Import) (names : List Text)

theorem threaded_collectQueries (sources : Sources) :
    Threaded sources (collectQueries file imports names sources)
      (Event.replay sources (collectEvents file imports names sources)) := by
  induction names generalizing sources with
  | nil => exact .nil sources
  | cons name names ih =>
      have hfirst := sources.threaded_queries name file imports
      rw [collectQueries, collectEvents, Event.replay_append, hfirst.replay_eq]
      exact hfirst.append (ih _)

theorem file_of_mem_collectQueries {sources : Sources} (h : sources.catalog.Grounded)
    {query : Query} (hquery : query ∈ collectQueries file imports names sources) :
    query.SeesImports file imports ∧ (query.reference.file = file ∨
      query.sources.catalog.knowsFile query.reference.file = true) := by
  induction names generalizing sources with
  | nil => contradiction
  | cons name names ih =>
      rcases List.mem_append.mp hquery with hfirst | hlater
      · exact Sources.file_of_mem_queries h hfirst
      · exact ih ((sources.threaded_queries name file imports).grounded h) hlater

theorem found_searches_of_settled {sources again : Sources}
    (h : ∀ query ∈ collectQueries file imports names sources,
      query.Settled file imports again) :
    (searches file imports names again).flatMap Search.found =
      (searches file imports names sources).flatMap Search.found := by
  induction names generalizing sources with
  | nil => rfl
  | cons name names ih =>
      obtain ⟨hfound, hsame⟩ := Sources.collect_of_settled fun query hquery =>
        h query (List.mem_append_left _ hquery)
      have hrest := ih fun query hquery => h query (List.mem_append_right _ hquery)
      simp only [searches, List.flatMap_cons]
      rw [hfound, hsame, hrest]

theorem isAmong_searches {sources again : Sources} (hsources : sources.catalog.Grounded)
    (hagain : again.catalog.Grounded)
    (hgrows : (Event.replay sources (collectEvents file imports names sources)).Grows again)
    {type : ResolvedType}
    (htype : type ∈ (searches file imports names sources).flatMap Search.found) :
    type.IsAmong ((searches file imports names again).flatMap Search.found) := by
  induction names generalizing sources again with
  | nil => contradiction
  | cons name names ih =>
      have hfirst := sources.threaded_queries name file imports
      have hsecond := again.threaded_queries name file imports
      rw [collectEvents, Event.replay_append, hfirst.replay_eq] at hgrows
      simp only [searches, List.flatMap_cons, List.mem_append] at htype ⊢
      rcases htype with htype | htype
      · obtain ⟨other, hother, hsame⟩ := Sources.isAmong_collect hsources.located hagain.located
          ((threaded_collectQueries file imports names _).grows.trans hgrows) htype
        exact ⟨other, List.mem_append_left _ hother, hsame⟩
      · obtain ⟨other, hother, hsame⟩ := ih (hfirst.grounded hsources) (hsecond.grounded hagain)
          (hgrows.trans hsecond.grows) htype
        exact ⟨other, List.mem_append_right _ hother, hsame⟩

end

section

variable {options : Options} {resolver : Resolver} {path source : Text}

theorem analysisSearches_eq (htext : resolver.sources.workspace.text? path = .ok source)
    (htime : options.timeoutMillis ≠ 0) (metadata : Component.Metadata) :
    analysisSearches options resolver.sources path metadata =
      searches path (Definitions.ofSource source path).imports
        (searchedNames options metadata source)
        (resolver.sources.afterRead.define source path).1 := by
  simp only [analysisSearches, htext, beq_iff_eq, htime, ↓reduceIte, searchedNames]
  split <;> rfl

theorem analysisQueries_eq (htext : resolver.sources.workspace.text? path = .ok source)
    (htime : options.timeoutMillis ≠ 0) (metadata : Component.Metadata) :
    analysisQueries options resolver.sources path metadata =
      collectQueries path (Definitions.ofSource source path).imports
        (searchedNames options metadata source)
        (resolver.sources.afterRead.define source path).1 := by
  simp only [analysisQueries, htext, beq_iff_eq, htime, ↓reduceIte]

theorem analyze_replay (htext : resolver.sources.workspace.text? path = .ok source)
    (htime : options.timeoutMillis ≠ 0) (metadata : Component.Metadata) :
    (analyze options resolver path metadata).1.sources =
      Event.replay (resolver.sources.afterRead.define source path).1
        (collectEvents path (Definitions.ofSource source path).imports
          (searchedNames options metadata source)
          (resolver.sources.afterRead.define source path).1) := by
  simp only [analyze_sources, analysisEvents, htext, beq_iff_eq, htime, ↓reduceIte,
    searchedNames]
  split <;> rfl

theorem grows_analyze (htext : resolver.sources.workspace.text? path = .ok source)
    (htime : options.timeoutMillis ≠ 0) (metadata : Component.Metadata) :
    (resolver.sources.afterRead.define source path).1.Grows
      (analyze options resolver path metadata).1.sources := by
  rw [analyze_replay htext htime]
  exact (threaded_collectQueries _ _ _ _).grows

theorem text?_analyze (htext : resolver.sources.workspace.text? path = .ok source)
    (htime : options.timeoutMillis ≠ 0) (metadata : Component.Metadata) :
    (analyze options resolver path metadata).1.sources.workspace.text? path = .ok source := by
  rw [(grows_analyze htext htime metadata).text?, ← htext]
  exact Workspace.text?_with_reads _ _ _

end

theorem exists_name_addTypes {found again : List ResolvedType}
    (h : ∀ type ∈ found, type.IsAmong again) {type : ResolvedType}
    (htype : type ∈ addTypes [] found) :
    ∃ other ∈ addTypes [] again, other.name = type.name := by
  obtain ⟨other, hother, -, hname⟩ := h type ((addTypes_sublist [] found).subset htype)
  have hsome : ((addTypes [] again).find? fun known => known.name = type.name).isSome = true := by
    rw [find?_addTypes, List.nil_append, List.find?_isSome]
    exact ⟨other, hother, by simpa using hname⟩
  obtain ⟨kept, hkept, hsame⟩ := List.find?_isSome.mp hsome
  exact ⟨kept, hkept, by simpa using hsame⟩

/--
An analysis that succeeds can be repeated at once.  It gives the same interface, but for
its failures, and a type for each name for which there was one.  If every lookup that was
made in vain would still be in vain afterwards, the types are the same, in the same order.
-/
theorem analysis_repeated (workspace : Workspace) (operations : List Operation)
    {options : Options} {path : Text} {metadata : Component.Metadata} {doc : ComponentDoc}
    (h : (analyze options (Session.run workspace operations) path metadata).2 = .ok doc) :
    let resolver := Session.run workspace operations
    let after := (analyze options resolver path metadata).1
    ∃ again, (analyze options after path metadata).2 = .ok again ∧
      { again.api with failures := doc.api.failures } = doc.api ∧
      (∀ type ∈ doc.types, ∃ other ∈ again.types, other.name = type.name) ∧
      (StaysVain options resolver path metadata → again.types = doc.types) := by
  intro resolver after
  obtain ⟨source, htext, htime, rfl⟩ := analyze_eq_ok_iff.mp h
  have hearlier := grows_analyze htext htime metadata
  have htextAfter := text?_analyze htext htime metadata
  have hafter : after.sources = _ := analyze_replay htext htime metadata
  generalize hdefined : (resolver.sources.afterRead.define source path).1 = defined at hafter
  have hthread := threaded_collectQueries path (Definitions.ofSource source path).imports
    (searchedNames options metadata source) defined
  rw [← hafter] at hthread
  have hgrounded : defined.catalog.Grounded := by
    rw [← hdefined]
    exact (grounded_run workspace operations).addFile path _
  refine ⟨_, analyze_documented htextAfter htime metadata, rfl, ?_, ?_⟩
  · intro type htype
    refine exists_name_addTypes ?_ htype
    intro found hfound
    rw [analysisSearches_eq htext htime, hdefined] at hfound
    rw [analysisSearches_eq htextAfter htime]
    refine isAmong_searches _ _ _ hgrounded ?_ ?_ hfound
    · exact (hthread.grounded hgrounded).addFile path _
    · rw [← hafter]
      exact Sources.grows_redefine hearlier
  · intro hvain
    rw [documented_types, documented_types, analysisSearches_eq htextAfter htime,
      analysisSearches_eq htext htime]
    rw [StaysVain, analysisQueries_eq htext htime, hdefined] at hvain
    congr 1
    apply found_searches_of_settled
    intro query hquery
    rw [hdefined] at hquery
    obtain ⟨hsees, hfile⟩ := file_of_mem_collectQueries _ _ _ hgrounded hquery
    exact Query.settled_define hsees hfile hearlier (hthread.grows_of_mem hquery).2
      (hvain query hquery)

def dialComponent : Text :=
  "<script>import {A} from './a';interface Props{h:H;a:A}</script>"

def besideModule (module : Text) : List Operation :=
  [.insertFile "/C.svelte" (.text dialComponent), .insertFile "/a.ts" (.text module)]

theorem analysis_repeated_undeclared :
    let resolver := Session.run {} (besideModule "interface A{x:X}")
    let metadata := Component.Metadata.ofPath "/C.svelte"
    let queries := analysisQueries {} resolver.sources "/C.svelte" metadata
    let after := (analyze {} resolver "/C.svelte" metadata).1
    (∃ query ∈ queries, query.lookup.found = none) ∧
    ∃ doc again, (analyze {} resolver "/C.svelte" metadata).2 = .ok doc ∧
      (analyze {} after "/C.svelte" metadata).2 = .ok again ∧ again.types = doc.types := by
  intro resolver metadata queries after
  have hqueries : (∃ query ∈ queries, query.lookup.found = none) ∧
      StaysVain {} resolver "/C.svelte" metadata := by
    decide +kernel
  have hdoc := analyze_documented (by rfl : resolver.sources.workspace.text? "/C.svelte" =
    .ok dialComponent) (by decide : ({} : Options).timeoutMillis ≠ 0) metadata
  obtain ⟨again, hagain, -, -, htypes⟩ :=
    analysis_repeated {} (besideModule "interface A{x:X}") hdoc
  exact ⟨hqueries.1, _, again, hdoc, hagain, htypes hqueries.2⟩

/-- The module that declares the first name is read only for the second one, and so the name
is found when the analysis is made again. -/
theorem repeated_analysis_finds_more :
    let resolver := Session.run {} (besideModule "interface A{x:X}interface H{y:Y}")
    let metadata := Component.Metadata.ofPath "/C.svelte"
    let after := (analyze {} resolver "/C.svelte" metadata).1
    ∃ doc again, (analyze {} resolver "/C.svelte" metadata).2 = .ok doc ∧
      (analyze {} after "/C.svelte" metadata).2 = .ok again ∧
      doc.types.map ResolvedType.name = ["A".toList] ∧
      again.types.map ResolvedType.name = ["H".toList, "A".toList] := by
  intro resolver metadata after
  have htypes : (addTypes [] ((analysisSearches {} resolver.sources "/C.svelte"
        metadata).flatMap Search.found)).map ResolvedType.name = ["A".toList] ∧
      (addTypes [] ((analysisSearches {} after.sources "/C.svelte"
        metadata).flatMap Search.found)).map ResolvedType.name = ["H".toList, "A".toList] := by
    decide +kernel
  have htext : resolver.sources.workspace.text? "/C.svelte" = .ok dialComponent := rfl
  have htime : ({} : Options).timeoutMillis ≠ 0 := by decide
  refine ⟨_, _, analyze_documented htext htime metadata,
    analyze_documented (text?_analyze htext htime metadata) htime metadata, ?_⟩
  rw [documented_types, documented_types]
  exact htypes

end ComponentDocs
