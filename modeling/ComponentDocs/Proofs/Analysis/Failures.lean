import ComponentDocs.Proofs.Analysis
import ComponentDocs.Proofs.Types.Statements

/-!
# Scripts that do not parse

A component has two scripts.  Its definitions tell of each one that does not parse; its
documentation tells of the instance script only.
-/

namespace ComponentDocs

open ComponentDocs.Types

def isBroken (script : Text) : Bool :=
  !Text.isBlank script && (Script.parse? Script.Language.ofComponents script).isNone

def brokenFailures (path script : Text) : List Failure :=
  if isBroken script then [Failure.unparsed path] else []

namespace Failure

def isParsing (path : Text) (failure : Failure) : Bool :=
  failure.file = path && failure.kind = .parsing

theorem isAbout_of_isParsing {path : Text} {failure : Failure}
    (h : failure.isParsing path = true) : failure.isAbout path = true := by
  simp only [isParsing, Bool.and_eq_true, decide_eq_true_eq] at h
  simp [isAbout, h]

@[simp] theorem isParsing_unparsed (path : Text) : (unparsed path).isParsing path = true := by
  simp [isParsing, unparsed, ofDiagnostics]

end Failure

@[simp] theorem filter_brokenFailures (path script : Text) :
    (brokenFailures path script).filter (·.isParsing path) = brokenFailures path script := by
  unfold brokenFailures
  split <;> simp

namespace Types

theorem filter_failuresOf (path file source : Text) (statements : List Script.Statement) :
    (statements.flatMap (failuresOf file source)).filter (·.isParsing path) = [] := by
  rw [List.filter_eq_nil_iff]
  intro failure hfailure
  obtain ⟨statement, -, hmem⟩ := List.mem_flatMap.mp hfailure
  simp [Failure.isParsing, (of_mem_failuresOf hmem).2]

theorem Definitions.filter_addScript (path script : Text) (definitions : Definitions)
    (hscript : Text.isBlank script = false) :
    (definitions.addScript Script.Language.ofComponents path script).failures.filter
        (·.isParsing path) =
      definitions.failures.filter (·.isParsing path) ++ brokenFailures path script := by
  unfold addScript brokenFailures isBroken
  cases hparse : Script.parse? Script.Language.ofComponents script with
  | some program => simp [failures_foldl_addStatement, filter_failuresOf]
  | none => simp [addFailures, hscript]

theorem brokenFailures_of_isBlank {script : Text} (h : Text.isBlank script = true)
    (path : Text) : brokenFailures path script = [] := by
  simp [brokenFailures, isBroken, h]

theorem Definitions.filter_ofSource (source : Text) {path : Text}
    (hpath : isComponentPath path = true) :
    (ofSource source path).failures.filter (·.isParsing path) =
      brokenFailures path (Sections.ofSource source).moduleScript ++
        brokenFailures path (Sections.ofSource source).script := by
  rw [ofSource, if_pos hpath]
  dsimp only
  cases hmodule : Text.isBlank (Sections.ofSource source).moduleScript <;>
    cases hinstance : Text.isBlank (Sections.ofSource source).script <;>
      simp [hmodule, hinstance, filter_addScript, brokenFailures_of_isBlank]

end Types

theorem Component.Api.failures_ofSource (options : Options) (metadata : Component.Metadata)
    (source : Text) :
    (ofSource options metadata source).failures =
      brokenFailures metadata.path (Sections.ofSource source).script := by
  rw [ofSource]
  dsimp only
  cases hblank : Text.isBlank (Sections.ofSource source).script with
  | true => simp [Sections.hasScript, brokenFailures, isBroken, hblank]
  | false =>
      cases hparse : Script.parse? .ofComponents (Sections.ofSource source).script <;>
        simp [Sections.hasScript, readScript, brokenFailures, isBroken, hblank, hparse]

theorem cleared_not_mem_collectEvents (file : Text) (imports : List Import) (names : List Text)
    (sources : Sources) : .cleared ∉ collectEvents file imports names sources := by
  intro hmem
  obtain ⟨name, place, visible, hevent⟩ := isLookup_of_mem_collectEvents hmem
  contradiction

theorem not_isAbout_of_mem_collectReports {file : Text} {imports : List Import}
    {names : List Text} {sources : Sources} {path : Text}
    (hknown : sources.catalog.knowsFile path = true) {failures : List Failure}
    (h : failures ∈ collectReports file imports names sources) :
    failures.any (·.isAbout path) = false := by
  have hloads : path ∉ Event.loads sources (collectEvents file imports names sources) := by
    intro hmem
    have hunknown := Event.knowsFile_of_mem_loads
      (cleared_not_mem_collectEvents file imports names sources) hmem
    rw [hknown] at hunknown
    contradiction
  have hcount := countP_collectReports_le file imports names sources path
  rw [List.count_eq_zero_of_not_mem hloads, Nat.le_zero, List.countP_eq_zero] at hcount
  simpa using hcount failures h

theorem not_isAbout_of_mem_analysisReports {options : Options} {sources : Sources} {path : Text}
    {metadata : Component.Metadata} {failures : List Failure}
    (h : failures ∈ analysisReports options sources path metadata) :
    failures.any (·.isAbout path) = false := by
  unfold analysisReports at h
  split at h
  · contradiction
  · split at h
    · contradiction
    · split at h
      · exact not_isAbout_of_mem_collectReports (by simp [Sources.define]) h
      · contradiction

/--
The documentation of a component tells that its instance script does not parse, and nothing
about its module script, whereas its definitions tell of both.  So every failure to parse
that the definitions record is in the documentation if and only if the module script parses
or the instance script does not.
-/
theorem parse_failures_documented {options : Options} {resolver : Resolver}
    {path source : Text} {metadata : Component.Metadata} {doc : ComponentDoc}
    (htext : resolver.sources.workspace.text? path = .ok source)
    (hcomponent : isComponentPath path = true) (hpath : metadata.path = path)
    (h : (analyze options resolver path metadata).2 = .ok doc) :
    let sections := Sections.ofSource source
    let recorded := (Definitions.ofSource source path).failures.filter (·.isParsing path)
    let reported := doc.api.failures.filter (·.isParsing path)
    reported = brokenFailures path sections.script ∧
    recorded = brokenFailures path sections.moduleScript ++ brokenFailures path sections.script ∧
    ((∀ failure ∈ recorded, failure ∈ reported) ↔
      (isBroken sections.moduleScript = true → isBroken sections.script = true)) := by
  intro sections recorded reported
  have hreports : (analysisReports options resolver.sources path metadata).flatten.filter
      (·.isParsing path) = [] := by
    rw [List.filter_eq_nil_iff]
    intro failure hfailure hparsing
    obtain ⟨failures, hfailures, hmem⟩ := List.mem_flatten.mp hfailure
    have hnone := List.any_eq_false.mp (not_isAbout_of_mem_analysisReports hfailures) failure hmem
    exact hnone (Failure.isAbout_of_isParsing hparsing)
  have hreported : reported = brokenFailures path sections.script := by
    simp only [reported, sections]
    rw [analyze_failures htext h, List.filter_append, Component.Api.failures_ofSource, hpath,
      filter_brokenFailures, hreports, List.append_nil]
  have hrecorded := Definitions.filter_ofSource source hcomponent
  refine ⟨hreported, hrecorded, ?_⟩
  rw [hreported, show recorded = _ from hrecorded]
  cases hmodule : isBroken sections.moduleScript <;>
    cases hinstance : isBroken sections.script <;>
      simp [brokenFailures, sections, hmodule, hinstance]

def brokenComponent : Text :=
  "<script module>let a = ;</script><script>let b = ;</script>"

theorem parse_failures_documented_broken :
    let path : Text := "/C.svelte"
    let resolver := Session.run {} [.insertFile path (.text brokenComponent)]
    ∃ doc, (analyze {} resolver path (Component.Metadata.ofPath path)).2 = .ok doc ∧
      doc.api.failures.filter (·.isParsing path) = [Failure.unparsed path] ∧
      (Definitions.ofSource brokenComponent path).failures.filter (·.isParsing path) =
        [Failure.unparsed path, Failure.unparsed path] := by
  intro path resolver
  have htext : resolver.sources.workspace.text? path = .ok brokenComponent := rfl
  have hscripts : isBroken (Sections.ofSource brokenComponent).moduleScript = true ∧
      isBroken (Sections.ofSource brokenComponent).script = true := by
    decide
  obtain ⟨hreported, hrecorded, -⟩ := parse_failures_documented htext (by decide)
    (by rfl : (Component.Metadata.ofPath path).path = path)
    (analyze_documented htext (by decide : ({} : Options).timeoutMillis ≠ 0)
      (Component.Metadata.ofPath path))
  refine ⟨_, analyze_documented htext (by decide) _, ?_, ?_⟩
  · rw [hreported]
    simp [brokenFailures, hscripts]
  · rw [hrecorded]
    simp [brokenFailures, hscripts]

/-- A module script that does not parse, and documentation without any failure. -/
theorem module_failure_lost :
    let path : Text := "/C.svelte"
    let source : Text := "<script module>let a = ;</script>"
    let resolver := Session.run {} [.insertFile path (.text source)]
    (Failure.unparsed path ∈ (Definitions.ofSource source path).failures ∧
      (Failure.unparsed path).isParsing path = true) ∧
    ∃ doc, (analyze {} resolver path (Component.Metadata.ofPath path)).2 = .ok doc ∧
      doc.api.failures = [] := by
  intro path source resolver
  have htext : resolver.sources.workspace.text? path = .ok source := rfl
  refine ⟨⟨?_, Failure.isParsing_unparsed path⟩,
    _, analyze_documented htext (by decide) (Component.Metadata.ofPath path), ?_⟩
  · decide
  · decide

end ComponentDocs
