import ComponentDocs.Proofs.Folds
import ComponentDocs.Proofs.Types.Definitions

/-!
# What a statement adds to the definitions of a file

The structures and the failures of a file are those of its statements, one behind the
other.
-/

namespace ComponentDocs.Types

open Script

def structDeclaration (source : Text) (script : Program) (statement : Statement) (name : Text)
    (members : List Member) : Declaration :=
  { name, text := statement.declarationSpan.text source
    description := script.summaryAt statement.span.start
    exported := statement.exported
    shape := .struct (members.filterMap (property? source script)) }

def structsOf (source : Text) (script : Program) (statement : Statement) : List Declaration :=
  match statement.form with
  | .struct name _ members => [structDeclaration source script statement name members]
  | _ => []

def failuresOf (file source : Text) (statement : Statement) : List Failure :=
  match statement.form with
  | .struct name _ members => memberFailures file source name members
  | .enumeration name members => enumFailures file source name members
  | _ => []

theorem of_mem_failuresOf {file source : Text} {statement : Statement} {failure : Failure}
    (h : failure ∈ failuresOf file source statement) :
    failure.file = file ∧ failure.kind = .typing := by
  unfold failuresOf at h
  split at h
  · obtain ⟨member, -, rfl⟩ := List.mem_map.mp h
    exact ⟨rfl, rfl⟩
  · obtain ⟨member, -, rfl⟩ := List.mem_map.mp h
    exact ⟨rfl, rfl⟩
  · contradiction

namespace Definitions

@[simp] theorem structs_addExported (definitions : Definitions) (statement : Statement)
    (name : Option Text) (kind : ExportKind) :
    (definitions.addExported statement name kind).structs = definitions.structs := by
  unfold addExported
  split <;> rfl

theorem structs_addStatement (file source : Text) (script : Program) (definitions : Definitions)
    (statement : Statement) :
    (definitions.addStatement file source script statement).structs =
      definitions.structs ++ structsOf source script statement := by
  cases hform : statement.form with
  | struct | typeAlias | enumeration | function | classDefinition =>
      simp [addStatement, structsOf, hform, structDeclaration, addDeclaration, addFailures]
  | bindings isLet declarators =>
      simp only [addStatement, structsOf, hform, List.append_nil]
      split
      · rw [foldl_addExport fun name => { name, kind := .binding }]
      · rfl
  | exportList origin names =>
      simp only [addStatement, structsOf, hform, List.append_nil]
      rw [foldl_addExport fun name =>
        { name, kind := if origin.isSome then .reExport else .other }]
  | imports | exportAll | defaultExpression | unsupported =>
      simp [addStatement, structsOf, hform, addImport, addExport]

theorem failures_addStatement (file source : Text) (script : Program) (definitions : Definitions)
    (statement : Statement) :
    (definitions.addStatement file source script statement).failures =
      definitions.failures ++ failuresOf file source statement := by
  cases hform : statement.form with
  | struct | typeAlias | enumeration | function | classDefinition =>
      simp [addStatement, failuresOf, hform, addFailures]
  | bindings isLet declarators =>
      simp only [addStatement, failuresOf, hform, List.append_nil]
      split
      · exact failures_foldl_addExport (fun name => { name, kind := .binding }) _ _
      · rfl
  | exportList origin names =>
      simp only [addStatement, failuresOf, hform, List.append_nil]
      exact failures_foldl_addExport
        (fun name => { name, kind := if origin.isSome then .reExport else .other }) _ _
  | imports | exportAll | defaultExpression | unsupported =>
      simp [addStatement, failuresOf, hform, addImport, addExport]

theorem structs_foldl_addStatement (file source : Text) (script : Program)
    (statements : List Statement) (definitions : Definitions) :
    (statements.foldl (addStatement file source script) definitions).structs =
      definitions.structs ++ statements.flatMap (structsOf source script) :=
  view_foldl_append structs (structs_addStatement file source script) statements definitions

theorem failures_foldl_addStatement (file source : Text) (script : Program)
    (statements : List Statement) (definitions : Definitions) :
    (statements.foldl (addStatement file source script) definitions).failures =
      definitions.failures ++ statements.flatMap (failuresOf file source) :=
  view_foldl_append failures (failures_addStatement file source script) statements definitions

theorem exists_addScript {source path : Text} (hpath : isComponentPath path = true)
    (hscript : (Sections.ofSource source).hasScript = true) :
    ∃ definitions : Definitions, ofSource source path =
      definitions.addScript Language.ofComponents path (Sections.ofSource source).script := by
  have hblank : Text.isBlank (Sections.ofSource source).script = false := by
    simpa [Sections.hasScript] using hscript
  rw [ofSource, if_pos hpath]
  dsimp only
  cases hmodule : Text.isBlank (Sections.ofSource source).moduleScript with
  | true => exact ⟨{}, by simp [hmodule, hblank]⟩
  | false =>
      exact ⟨addScript Language.ofComponents path {} (Sections.ofSource source).moduleScript,
        by simp [hmodule, hblank]⟩

theorem isInfix_ofSource {source path : Text} {script : Program} {statement : Statement}
    (hpath : isComponentPath path = true) (hscript : (Sections.ofSource source).hasScript = true)
    (hparse : parse? Language.ofComponents (Sections.ofSource source).script = some script)
    (hstatement : statement ∈ script.statements) :
    structsOf (Sections.ofSource source).script script statement <:+:
        (ofSource source path).structs ∧
      failuresOf path (Sections.ofSource source).script statement <:+:
        (ofSource source path).failures := by
  obtain ⟨definitions, hdefinitions⟩ := exists_addScript hpath hscript
  rw [hdefinitions, addScript, hparse]
  dsimp only
  rw [structs_foldl_addStatement, failures_foldl_addStatement, List.flatMap_def, List.flatMap_def]
  constructor
  · exact (List.infix_of_mem_flatten (List.mem_map_of_mem hstatement)).trans
      (List.suffix_append _ _).isInfix
  · exact (List.infix_of_mem_flatten (List.mem_map_of_mem hstatement)).trans
      (List.suffix_append _ _).isInfix

end Definitions

end ComponentDocs.Types
