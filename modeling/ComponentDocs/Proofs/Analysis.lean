import ComponentDocs.Proofs.Reading
import ComponentDocs.Proofs.Types.Closure

/-!
# What an analysis documents

An analysis searches for one referenced type after the other.  Of all the types that
are found it keeps the first one of each name, wherever the others come from.
-/

namespace ComponentDocs

open ComponentDocs.Types

def searches (file : Text) (imports : List Import) : List Text → Sources → List Search
  | [], _ => []
  | name :: names, sources =>
      sources.collect name file imports ::
        searches file imports names (sources.collect name file imports).sources

def analysisSearches (options : Options) (sources : Sources) (path : Text)
    (metadata : Component.Metadata) : List Search :=
  match sources.workspace.text? path with
  | .error _ => []
  | .ok source =>
      if options.timeoutMillis == 0 then []
      else if options.resolveTypes then
        searches path (Definitions.ofSource source path).imports
          (referencedTypes (Component.Api.ofSource options metadata source).parameters)
          (sources.afterRead.define source path).1
      else []

def documented (options : Options) (metadata : Component.Metadata) (source : Text)
    (made : List Search) : ComponentDoc :=
  let api := Component.Api.ofSource options metadata source
  { api := { api with failures := api.failures ++ made.flatMap Search.failures }
    types := addTypes [] (made.flatMap Search.found) }

@[simp] theorem documented_types (options : Options) (metadata : Component.Metadata)
    (source : Text) (made : List Search) :
    (documented options metadata source made).types =
      addTypes [] (made.flatMap Search.found) := rfl

theorem collectReports_eq_map (file : Text) (imports : List Import) (names : List Text)
    (sources : Sources) :
    collectReports file imports names sources =
      (searches file imports names sources).map Search.failures := by
  induction names generalizing sources with
  | nil => rfl
  | cons name names ih => simp [collectReports, searches, ih]

theorem collectTypes_types (file : Text) (imports : List Import) (names : List Text)
    (resolver : Resolver) :
    (collectTypes file imports names resolver).2.1 =
      addTypes [] ((searches file imports names resolver.sources).flatMap Search.found) := by
  suffices h : ∀ (types : List ResolvedType) (failures : List Failure),
      (names.foldl (collectType file imports) (resolver, types, failures)).2.1 =
        addTypes types ((searches file imports names resolver.sources).flatMap Search.found) from
    h [] []
  induction names generalizing resolver with
  | nil => intro types failures; rfl
  | cons name names ih =>
      intro types failures
      rw [List.foldl_cons, searches, List.flatMap_cons, addTypes, List.foldl_append]
      exact ih (resolver.collect name file imports).1 _ _

theorem analyze_documented {options : Options} {resolver : Resolver} {path source : Text}
    (htext : resolver.sources.workspace.text? path = .ok source)
    (htime : options.timeoutMillis ≠ 0) (metadata : Component.Metadata) :
    (analyze options resolver path metadata).2 =
      .ok (documented options metadata source
        (analysisSearches options resolver.sources path metadata)) := by
  have htime : (options.timeoutMillis == 0) = false := by simpa using htime
  unfold analyze analysisSearches documented
  simp only [Resolver.read, htext, htime, Bool.false_eq_true, ↓reduceIte]
  split
  · simp only [collectTypes_types, collectTypes_failures, collectReports_eq_map,
      ← List.flatMap_def]
    rfl
  · simp only [List.flatMap_nil, List.append_nil]
    rfl

theorem analyze_eq_ok_iff {options : Options} {resolver : Resolver} {path : Text}
    {metadata : Component.Metadata} {doc : ComponentDoc} :
    (analyze options resolver path metadata).2 = .ok doc ↔
      ∃ source, resolver.sources.workspace.text? path = .ok source ∧
        options.timeoutMillis ≠ 0 ∧
        doc = documented options metadata source
          (analysisSearches options resolver.sources path metadata) := by
  constructor
  · intro h
    cases htext : resolver.sources.workspace.text? path with
    | error error => simp [analyze, Resolver.read, htext] at h
    | ok source =>
        by_cases htime : options.timeoutMillis = 0
        · simp [analyze, Resolver.read, htext, htime] at h
        · rw [analyze_documented htext htime] at h
          exact ⟨source, rfl, htime, (Except.ok.inj h).symm⟩
  · rintro ⟨source, htext, htime, rfl⟩
    exact analyze_documented htext htime metadata

theorem addTypes_cons (types : List ResolvedType) (type : ResolvedType)
    (more : List ResolvedType) :
    addTypes types (type :: more) =
      addTypes (if types.any fun known => known.name == type.name then types
        else types ++ [type]) more := rfl

theorem addTypes_sublist (types more : List ResolvedType) :
    (addTypes types more).Sublist (types ++ more) := by
  induction more generalizing types with
  | nil => simp [addTypes]
  | cons type more ih =>
      rw [addTypes_cons]
      apply (ih _).trans
      split
      · simp
      · simp

theorem nodup_names_addTypes (types more : List ResolvedType)
    (h : (types.map ResolvedType.name).Nodup) :
    ((addTypes types more).map ResolvedType.name).Nodup := by
  induction more generalizing types with
  | nil => exact h
  | cons type more ih =>
      rw [addTypes_cons]
      apply ih
      split
      · exact h
      · next hnew =>
          simp only [List.any_eq_true, beq_iff_eq, not_exists, not_and] at hnew
          rw [List.map_append, List.map_singleton, List.nodup_append_comm]
          simpa using ⟨hnew, h⟩

theorem find?_addTypes (types more : List ResolvedType) (name : Text) :
    (addTypes types more).find? (fun type => type.name = name) =
      (types ++ more).find? fun type => type.name = name := by
  induction more generalizing types with
  | nil => simp [addTypes]
  | cons type more ih =>
      rw [addTypes_cons, ih]
      split
      · next hold =>
          -- The name of the new type is taken, so that it is not the first one of its name.
          obtain ⟨known, hknown, hname⟩ := List.any_eq_true.mp hold
          simp only [List.find?_append, List.find?_cons]
          by_cases hsame : type.name = name
          · have hsome : (types.find? fun type => type.name = name).isSome = true := by
              rw [List.find?_isSome]
              exact ⟨known, hknown, by simpa [hsame] using hname⟩
            obtain ⟨first, hfirst⟩ := Option.isSome_iff_exists.mp hsome
            simp [hfirst]
          · simp [hsame]
      · simp

theorem isAmong_addTypes_iff (found : List ResolvedType) :
    (∀ type ∈ found, type.IsAmong (addTypes [] found)) ↔
      ∀ type ∈ found, ∀ other ∈ found, type.name = other.name →
        type.sourceFile = other.sourceFile := by
  have hnodup := nodup_names_addTypes [] found List.nodup_nil
  constructor
  · intro h type htype other hother hname
    obtain ⟨kept, hkept, hfile, hkeptName⟩ := h type htype
    obtain ⟨keptOther, hkeptOther, hfileOther, hkeptOtherName⟩ := h other hother
    have hsame : kept = keptOther := by
      apply List.inj_on_of_nodup_map hnodup hkept hkeptOther
      rw [hkeptName, hkeptOtherName, hname]
    rw [← hfile, ← hfileOther, hsame]
  · intro h type htype
    have hsome : (found.find? fun other => other.name = type.name).isSome = true := by
      rw [List.find?_isSome]
      exact ⟨type, htype, by simp⟩
    obtain ⟨first, hfirst⟩ := Option.isSome_iff_exists.mp hsome
    have hname : first.name = type.name := by simpa using List.find?_some hfirst
    have hmem := List.mem_of_find?_eq_some hfirst
    have hkept : first ∈ addTypes [] found := by
      apply List.mem_of_find?_eq_some
      rw [find?_addTypes, List.nil_append]
      exact hfirst
    exact ⟨first, hkept, h first hmem type htype hname, hname⟩

/--
The types of a component are the first ones of their names among all that its searches
found.  So no name occurs twice; and every type that was found is among them, with its
name and its file, if and only if no two types of one name and different files were found.
-/
theorem types_first_named {options : Options} {resolver : Resolver} {path : Text}
    {metadata : Component.Metadata} {doc : ComponentDoc}
    (h : (analyze options resolver path metadata).2 = .ok doc) :
    let found := (analysisSearches options resolver.sources path metadata).flatMap Search.found
    doc.types.Sublist found ∧
    (doc.types.map ResolvedType.name).Nodup ∧
    (∀ name, doc.types.find? (fun type => type.name = name) =
      found.find? fun type => type.name = name) ∧
    ((∀ type ∈ found, ∃ kept ∈ doc.types,
        kept.sourceFile = type.sourceFile ∧ kept.name = type.name) ↔
      ∀ type ∈ found, ∀ other ∈ found, type.name = other.name →
        type.sourceFile = other.sourceFile) := by
  intro found
  obtain ⟨source, -, -, rfl⟩ := analyze_eq_ok_iff.mp h
  refine ⟨?_, nodup_names_addTypes [] found List.nodup_nil, ?_, isAmong_addTypes_iff found⟩
  · exact addTypes_sublist [] found
  · exact find?_addTypes [] found

def pairComponent : Text :=
  "<script>import {A} from './a';import {B} from './b';interface Props{a:A;b:B}</script>"

/-- Each of the two modules has a type of its own which has the same name in both. -/
def helperNamesakes : List Operation :=
  [.insertFile "/C.svelte" (.text pairComponent),
    .insertFile "/a.ts" (.text "interface A{h:H}interface H{x:X}"),
    .insertFile "/b.ts" (.text "interface B{h:H}interface H{y:Y}")]

theorem searches_helperNamesakes :
    (analysisSearches {} (Session.run {} helperNamesakes).sources "/C.svelte"
      (Component.Metadata.ofPath "/C.svelte")).map Search.found =
        [[⟨"A", "interface A{h:H}", ["H"], some "/a.ts".toList⟩,
            ⟨"H", "interface H{x:X}", ["X"], some "/a.ts".toList⟩],
          [⟨"B", "interface B{h:H}", ["H"], some "/b.ts".toList⟩,
            ⟨"H", "interface H{y:Y}", ["Y"], some "/b.ts".toList⟩]] := by
  decide +kernel

theorem types_first_named_helpers :
    let resolver := Session.run {} helperNamesakes
    let metadata := Component.Metadata.ofPath "/C.svelte"
    let found := (analysisSearches {} resolver.sources "/C.svelte" metadata).flatMap Search.found
    ∃ doc, (analyze {} resolver "/C.svelte" metadata).2 = .ok doc ∧
      doc.types.Sublist found ∧ (doc.types.map ResolvedType.name).Nodup ∧
      doc.types.find? (fun type => type.name = "H".toList) =
        some ⟨"H", "interface H{x:X}", ["X"], some "/a.ts".toList⟩ := by
  intro resolver metadata found
  have hdoc := analyze_documented (by rfl : resolver.sources.workspace.text? "/C.svelte" =
    .ok pairComponent) (by decide : ({} : Options).timeoutMillis ≠ 0) metadata
  obtain ⟨hsublist, hnodup, hfind, -⟩ := types_first_named hdoc
  refine ⟨_, hdoc, hsublist, hnodup, (hfind "H").trans ?_⟩
  rw [List.flatMap_def, searches_helperNamesakes]
  decide

/-- A type that a search found, and no type of its name and file is among the types of the
component. -/
theorem found_type_lost :
    let resolver := Session.run {} helperNamesakes
    let metadata := Component.Metadata.ofPath "/C.svelte"
    let lost : ResolvedType := ⟨"H", "interface H{y:Y}", ["Y"], some "/b.ts".toList⟩
    (∃ search ∈ analysisSearches {} resolver.sources "/C.svelte" metadata,
      lost ∈ search.found) ∧
    ∃ doc, (analyze {} resolver "/C.svelte" metadata).2 = .ok doc ∧
      ¬∃ kept ∈ doc.types, kept.sourceFile = lost.sourceFile ∧ kept.name = lost.name := by
  intro resolver metadata lost
  constructor
  · have hfound : ∃ found ∈ (analysisSearches {} resolver.sources "/C.svelte" metadata).map
        Search.found, lost ∈ found := by
      rw [searches_helperNamesakes]
      decide
    obtain ⟨found, hmem, hlost⟩ := hfound
    obtain ⟨search, hsearch, rfl⟩ := List.mem_map.mp hmem
    exact ⟨search, hsearch, hlost⟩
  · refine ⟨_, analyze_documented (by rfl : resolver.sources.workspace.text? "/C.svelte" =
      .ok pairComponent) (by decide) metadata, ?_⟩
    rw [documented_types, List.flatMap_def, searches_helperNamesakes]
    decide

end ComponentDocs
