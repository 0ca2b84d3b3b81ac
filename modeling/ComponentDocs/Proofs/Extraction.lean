import ComponentDocs.Proofs.Session
import ComponentDocs.Proofs.Types.Definitions

/-!
# The history of extractions

A session takes in the texts of files, some of them because a lookup needs a module.
What is known about declarations is told by the history of those texts since the
resolver was cleared: under each key stands what the newest of them put there.
-/

namespace ComponentDocs

open ComponentDocs.Types

variable {name : Text} {sources : Sources}

theorem Types.fileKey_inj {file other otherName : Text} (hname : ':' ∉ name)
    (hother : ':' ∉ otherName) (h : fileKey file name = fileKey other otherName) :
    file = other ∧ name = otherName := by
  rcases List.append_eq_append_iff.mp h with ⟨middle, hfile, hrest⟩ | ⟨middle, hfile, hrest⟩
  · cases middle with
    | nil =>
        cases hrest
        exact ⟨by simpa using hfile.symm, rfl⟩
    | cons c middle =>
        rw [List.cons_append, List.cons.injEq] at hrest
        exact absurd (by simp [hrest.2]) hname
  · cases middle with
    | nil =>
        cases hrest
        exact ⟨by simpa using hfile, rfl⟩
    | cons c middle =>
        rw [List.cons_append, List.cons.injEq] at hrest
        exact absurd (by simp [hrest.2]) hother

structure Extraction where
  file : Text
  source : Text
  deriving DecidableEq

namespace Extraction

def declarations (extraction : Extraction) : List Declaration :=
  (Definitions.ofSource extraction.source extraction.file).declarations

def declaration? (extraction : Extraction) (name : Text) : Option Declaration :=
  extraction.declarations.reverse.find? fun declaration => declaration.name = name

def known? (extraction : Extraction) (key : Text) : Option Known :=
  (Catalog.lastDeclaration? extraction.file extraction.declarations key).map
    fun declaration => ⟨declaration, extraction.file⟩

variable {declaration : Declaration} {extraction : Extraction}

theorem colon_not_mem_of_mem (h : declaration ∈ extraction.declarations) : ':' ∉ declaration.name :=
  (Definitions.standsIn_of_mem_ofSource h).colon_not_mem

theorem name_of_declaration? (h : extraction.declaration? name = some declaration) :
    declaration.name = name := by
  simpa using List.find?_some h

theorem colon_not_mem_of_declaration? (h : extraction.declaration? name = some declaration) :
    ':' ∉ name := by
  rw [← name_of_declaration? h]
  exact colon_not_mem_of_mem (List.mem_reverse.mp (List.mem_of_find?_eq_some h))

theorem known?_eq_none {key : Text} (h : ∀ declaration ∈ extraction.declarations,
      key ≠ declaration.name ∧ key ≠ fileKey extraction.file declaration.name) :
    extraction.known? key = none := by
  rw [known?, Option.map_eq_none_iff, Catalog.lastDeclaration?, List.find?_eq_none]
  intro declaration hdeclaration
  simpa using h declaration (List.mem_reverse.mp hdeclaration)

private theorem find?_congr_mem {p q : Declaration → Bool} {declarations : List Declaration}
    (h : ∀ declaration ∈ declarations, p declaration = q declaration) :
    declarations.find? p = declarations.find? q := by
  rw [← List.head?_filter, ← List.head?_filter, List.filter_congr h]

theorem known?_name (extraction : Extraction) (hname : ':' ∉ name) :
    extraction.known? name =
      (extraction.declaration? name).map fun declaration => ⟨declaration, extraction.file⟩ := by
  rw [known?, declaration?, Catalog.lastDeclaration?]
  congr 1
  apply find?_congr_mem
  intro declaration _
  have hkey : name ≠ fileKey extraction.file declaration.name := by
    rintro rfl
    simp [fileKey] at hname
  simp [hkey, eq_comm]

theorem known?_fileKey (extraction : Extraction) (file : Text) (hname : ':' ∉ name) :
    extraction.known? (fileKey file name) =
      if extraction.file = file then
        (extraction.declaration? name).map fun declaration => ⟨declaration, file⟩
      else none := by
  have hkey : ∀ declaration ∈ extraction.declarations.reverse,
      decide (fileKey file name = declaration.name ∨
        fileKey file name = fileKey extraction.file declaration.name) =
          decide (extraction.file = file ∧ declaration.name = name) := by
    intro declaration hmem
    have hcolon := colon_not_mem_of_mem (List.mem_reverse.mp hmem)
    have hbare : fileKey file name ≠ declaration.name := by
      intro heq
      rw [← heq] at hcolon
      simp [fileKey] at hcolon
    have hiff : fileKey file name = fileKey extraction.file declaration.name ↔
        extraction.file = file ∧ declaration.name = name := by
      constructor
      · intro heq
        obtain ⟨hfile, hsame⟩ := fileKey_inj hname hcolon heq
        exact ⟨hfile.symm, hsame.symm⟩
      · rintro ⟨rfl, rfl⟩
        rfl
    simp [hbare, hiff]
  rw [known?, Catalog.lastDeclaration?, find?_congr_mem hkey, declaration?]
  split
  · next hfile => simp [hfile]
  · next hfile => simp [hfile]

end Extraction

namespace Types

/-- A catalog that holds what the extractions put there, the newest ones last. -/
structure Catalog.Reflects (catalog : Catalog) (extractions : List Extraction) : Prop where
  declared : ∀ key, catalog.declaration? key =
    extractions.reverse.findSome? fun extraction => extraction.known? key
  known : ∀ extraction ∈ extractions, catalog.knowsFile extraction.file = true

namespace Catalog

@[simp] theorem knowsFile_addFile (catalog : Catalog) (file : Text) (definitions : Definitions)
    (other : Text) :
    (catalog.addFile file definitions).knowsFile other =
      (decide (other = file) || catalog.knowsFile other) := by
  simp only [knowsFile, addFile, Table.contains, Table.find?_insert]
  by_cases h : other = file <;> simp [h]

@[simp] theorem knowsFile_markFile (catalog : Catalog) (file other : Text) :
    (catalog.markFile file).knowsFile other =
      (decide (other = file) || catalog.knowsFile other) := by
  simp only [knowsFile, markFile, Table.contains, Table.find?_insert]
  by_cases h : other = file <;> simp [h]

theorem reflects_empty : Reflects {} [] :=
  ⟨fun _ => rfl, fun _ h => absurd h List.not_mem_nil⟩

variable {catalog : Catalog}

theorem Reflects.addFile {extractions : List Extraction} (h : catalog.Reflects extractions)
    (source file : Text) :
    (catalog.addFile file (Definitions.ofSource source file)).Reflects
      (extractions ++ [⟨file, source⟩]) := by
  constructor
  case declared =>
    intro key
    have hknown : (Extraction.mk file source).known? key =
        (lastDeclaration? file (Definitions.ofSource source file).declarations key).map
          fun declaration => ⟨declaration, file⟩ := rfl
    rw [declaration?_addFile, h.declared, List.reverse_concat, List.findSome?_cons, hknown]
    cases lastDeclaration? file (Definitions.ofSource source file).declarations key with
    | none => rfl
    | some declaration => rfl
  case known =>
    intro extraction hextraction
    rw [knowsFile_addFile]
    rcases List.mem_append.mp hextraction with hold | hnew
    · simp [h.known extraction hold]
    · simp [List.mem_singleton.mp hnew]

theorem Reflects.markFile {extractions : List Extraction} (h : catalog.Reflects extractions)
    (file : Text) :
    (catalog.markFile file).Reflects extractions :=
  ⟨h.declared, fun extraction hextraction => by simp [h.known extraction hextraction]⟩

theorem Reflects.addResolved {extractions : List Extraction} (h : catalog.Reflects extractions)
    (file : Text) (type : ResolvedType) :
    (catalog.addResolved file type).Reflects extractions :=
  ⟨h.declared, h.known⟩

end Catalog

namespace Sources

def moduleExtraction? (sources : Sources) (target : Text) : Option Extraction :=
  if sources.catalog.knowsFile target then none
  else (sources.workspace.text? target).toOption.map fun source => ⟨target, source⟩

def extraction? (sources : Sources) (name file : Text) (imports : List Import) :
    Option Extraction :=
  (sources.module? name file imports).bind sources.moduleExtraction?

theorem reflects_load {extractions : List Extraction} (h : sources.catalog.Reflects extractions)
    (target : Text) :
    (sources.load target).1.catalog.Reflects
      (extractions ++ (sources.moduleExtraction? target).toList) := by
  cases hknown : sources.catalog.knowsFile target with
  | true =>
      rw [load_known hknown]
      simpa [moduleExtraction?, hknown] using h
  | false =>
      cases htext : sources.workspace.text? target with
      | ok source =>
          have hextraction : sources.moduleExtraction? target = some ⟨target, source⟩ := by
            simp [moduleExtraction?, hknown, htext, Except.toOption]
          rw [load_read hknown htext, hextraction]
          exact h.addFile source target
      | error error =>
          have hextraction : sources.moduleExtraction? target = none := by
            simp [moduleExtraction?, hknown, htext, Except.toOption]
          rw [load_unreadable hknown htext, hextraction, Option.toList_none, List.append_nil]
          exact h.markFile target

theorem reflects_lookup {extractions : List Extraction} (h : sources.catalog.Reflects extractions)
    (name file : Text) (imports : List Import) :
    (sources.lookup name file imports).sources.catalog.Reflects
      (extractions ++ (sources.extraction? name file imports).toList) := by
  have houtcome := sources.lookup_outcome name file imports
  generalize (sources.lookup name file imports).found = found at houtcome
  generalize (sources.lookup name file imports).sources = after at houtcome ⊢
  cases houtcome with
  | hit type hresolved => simpa [extraction?, module?, hresolved] using h
  | declared known _ hdeclared =>
      simpa [extraction?, module?, hdeclared, remember] using h.addResolved _ _
  | imported target key known _ hmodule _ =>
      simpa [extraction?, hmodule, remember] using (reflects_load h target).addResolved _ _
  | undeclared target hmodule => simpa [extraction?, hmodule] using reflects_load h target
  | unfound hmodule => simpa [extraction?, hmodule] using h

end Sources

end Types

def Event.extractions (sources : Sources) (earlier : List Extraction) : Event → List Extraction
  | .defined source path => earlier ++ [⟨path, source⟩]
  | .lookedUp name file imports => earlier ++ (sources.extraction? name file imports).toList
  | .cleared => []
  | .inserted _ _ | .opened => earlier

theorem Event.reflects_apply {earlier : List Extraction} (h : sources.catalog.Reflects earlier)
    (event : Event) :
    (event.apply sources).catalog.Reflects (event.extractions sources earlier) := by
  cases event with
  | inserted | opened => exact h
  | defined source path => exact h.addFile source path
  | lookedUp name file imports => exact Sources.reflects_lookup h name file imports
  | cleared => exact Catalog.reflects_empty

namespace Session

def extractionsFrom (sources : Sources) (earlier : List Extraction) :
    List Event → List Extraction
  | [] => earlier
  | event :: events =>
      extractionsFrom (event.apply sources) (event.extractions sources earlier) events

def extractions (workspace : Workspace) (operations : List Operation) : List Extraction :=
  extractionsFrom { workspace } [] (events workspace operations)

theorem reflects_extractions (workspace : Workspace) (operations : List Operation) :
    (run workspace operations).sources.catalog.Reflects (extractions workspace operations) := by
  rw [run_sources, extractions]
  suffices h : ∀ (happened : List Event) (sources : Sources) (earlier : List Extraction),
      sources.catalog.Reflects earlier →
        (Event.replay sources happened).catalog.Reflects
          (extractionsFrom sources earlier happened) from
    h _ _ _ Catalog.reflects_empty
  intro happened
  induction happened with
  | nil =>
      intro sources earlier h
      exact h
  | cons event happened ih =>
      intro sources earlier h
      exact ih _ _ (Event.reflects_apply h event)

end Session

end ComponentDocs
