import ComponentDocs.Proofs.Sections.Template
import ComponentDocs.Types.Definitions

/-!
# Where declarations stand

Each declaration of a file is one of a statement in a script that is a part of the
file.
-/

namespace ComponentDocs.Types

open Script

variable {declaration : Declaration} {definitions : Definitions} {α : Type} {file source : Text}

namespace Definitions

@[simp] theorem declarations_addExport (definitions : Definitions) (exported : Export) :
    (definitions.addExport exported).declarations = definitions.declarations := rfl

@[simp] theorem declarations_addExported (definitions : Definitions) (statement : Statement)
    (name : Option Text) (kind : ExportKind) :
    (definitions.addExported statement name kind).declarations = definitions.declarations := by
  unfold addExported
  split <;> rfl

theorem foldl_addExport (exported : α → Export) (values : List α) (definitions : Definitions) :
    values.foldl (fun definitions value => definitions.addExport (exported value)) definitions =
      { definitions with exports := definitions.exports ++ values.map exported } := by
  induction values generalizing definitions with
  | nil => simp
  | cons value values ih =>
      rw [List.foldl_cons, ih]
      simp [addExport]

theorem declarations_foldl_addExport (exported : α → Export) (values : List α)
    (definitions : Definitions) :
    (values.foldl (fun definitions value => definitions.addExport (exported value))
      definitions).declarations = definitions.declarations := by
  rw [foldl_addExport]
  rfl

theorem mem_declarations_addDeclaration {other : Declaration}
    (h : declaration ∈ (definitions.addDeclaration other).declarations) :
    declaration ∈ definitions.declarations ∨ declaration = other := by
  unfold addDeclaration at h
  split at h <;>
    · simp only [declarations, List.mem_append, List.mem_singleton] at h ⊢
      tauto

end Definitions

def declaredName? : Form → Option Identifier
  | .struct name _ _ | .typeAlias name _ | .enumeration name _ => some name
  | _ => none

def Declaration.IsOf (declaration : Declaration) (script : Text) (statement : Statement) : Prop :=
  (declaredName? statement.form).map Identifier.text = some declaration.name ∧
    declaration.text = statement.declarationSpan.text script

namespace Definitions

theorem mem_declarations_addStatement {script : Program} {statement : Statement}
    (h : declaration ∈ (definitions.addStatement file source script statement).declarations) :
    declaration ∈ definitions.declarations ∨ declaration.IsOf source statement := by
  cases hform : statement.form with
  | struct name isInterface members | typeAlias name aliased | enumeration name members =>
      simp only [addStatement, hform, declarations_addExported] at h
      rcases mem_declarations_addDeclaration h with h | rfl
      · exact .inl h
      · exact .inr ⟨by simp [hform, declaredName?], rfl⟩
  | bindings isLet declarators =>
      simp only [addStatement, hform] at h
      split at h
      · rw [declarations_foldl_addExport fun name => { name, kind := .binding }] at h
        exact .inl h
      · exact .inl h
  | exportList origin names =>
      simp only [addStatement, hform] at h
      rw [declarations_foldl_addExport fun name =>
        { name, kind := if origin.isSome then .reExport else .other }] at h
      exact .inl h
  | function name signature | classDefinition name =>
      simp only [addStatement, hform, declarations_addExported] at h
      exact .inl h
  | imports | exportAll | defaultExpression | unsupported =>
      simp only [addStatement, hform] at h
      exact .inl h

theorem mem_declarations_foldl_addStatement {script : Program} {statements : List Statement}
    (h : declaration ∈
      (statements.foldl (addStatement file source script) definitions).declarations) :
    declaration ∈ definitions.declarations ∨
      ∃ statement ∈ statements, declaration.IsOf source statement := by
  induction statements generalizing definitions with
  | nil => exact .inl h
  | cons statement statements ih =>
      rcases ih h with h | ⟨other, hother, hof⟩
      · rcases mem_declarations_addStatement h with h | hof
        · exact .inl h
        · exact .inr ⟨statement, by simp, hof⟩
      · exact .inr ⟨other, by simp [hother], hof⟩

end Definitions

/-- Whether a declaration stands in a source: in a statement of a script that is a part
of the source. -/
def Declaration.StandsIn (declaration : Declaration) (source : Text) : Prop :=
  ∃ language script program, script <:+: source ∧ parse? language script = some program ∧
    ∃ statement ∈ program.statements, declaration.IsOf script statement

namespace Definitions

theorem mem_declarations_addScript {language : Language} {script : Text}
    (hscript : script <:+: source)
    (h : declaration ∈ (definitions.addScript language file script).declarations) :
    declaration ∈ definitions.declarations ∨ declaration.StandsIn source := by
  unfold addScript at h
  split at h
  · next program hparse =>
      rcases mem_declarations_foldl_addStatement h with h | hof
      · exact .inl h
      · exact .inr ⟨language, script, program, hscript, hparse, hof⟩
  · exact .inl h

theorem mem_declarations_foldl_addScript {language : Language} {scripts : List Text}
    (hscripts : ∀ script ∈ scripts, script <:+: source)
    (h : declaration ∈ (scripts.foldl (addScript language file) definitions).declarations) :
    declaration ∈ definitions.declarations ∨ declaration.StandsIn source := by
  induction scripts generalizing definitions with
  | nil => exact .inl h
  | cons script scripts ih =>
      rcases ih (fun other hother => hscripts other (by simp [hother])) h with h | h
      · exact mem_declarations_addScript (hscripts script (by simp)) h
      · exact .inr h

theorem standsIn_of_mem_ofSource {path : Text}
    (h : declaration ∈ (ofSource source path).declarations) : declaration.StandsIn source := by
  have hempty : declaration ∉ ({} : Definitions).declarations := List.not_mem_nil
  unfold ofSource at h
  split at h
  · have hsections := Sections.script_isInfix source
    have hscripts : ∀ script ∈ [(Sections.ofSource source).moduleScript,
        (Sections.ofSource source).script].filter fun script => !Text.isBlank script,
        script <:+: source := by
      intro script hscript
      have hmem := (List.mem_filter.mp hscript).1
      simp only [List.mem_cons, List.not_mem_nil, or_false] at hmem
      rcases hmem with rfl | rfl
      · exact hsections.2
      · exact hsections.1
    exact (mem_declarations_foldl_addScript hscripts h).resolve_left hempty
  · exact (mem_declarations_addScript List.infix_rfl h).resolve_left hempty

end Definitions

theorem Declaration.StandsIn.text_isInfix (h : declaration.StandsIn source) :
    declaration.text <:+: source := by
  obtain ⟨language, script, program, hscript, -, statement, -, -, htext⟩ := h
  have hspan : statement.declarationSpan.text script <:+: script :=
    (List.take_prefix _ _).isInfix.trans (List.drop_suffix _ _).isInfix
  rw [htext]
  exact hspan.trans hscript

theorem Declaration.StandsIn.colon_not_mem (h : declaration.StandsIn source) :
    ':' ∉ declaration.name := by
  obtain ⟨language, script, program, -, -, statement, -, hname, -⟩ := h
  obtain ⟨identifier, -, hidentifier⟩ := Option.map_eq_some_iff.mp hname
  intro hcolon
  have hspelled := List.all_eq_true.mp identifier.spelled ':' (hidentifier ▸ hcolon)
  exact absurd hspelled (by decide)

namespace Definitions

@[simp] theorem failures_addDeclaration (definitions : Definitions) (declaration : Declaration) :
    (definitions.addDeclaration declaration).failures = definitions.failures := by
  unfold addDeclaration
  split <;> rfl

@[simp] theorem failures_addExported (definitions : Definitions) (statement : Statement)
    (name : Option Text) (kind : ExportKind) :
    (definitions.addExported statement name kind).failures = definitions.failures := by
  unfold addExported
  split <;> rfl

theorem failures_foldl_addExport (exported : α → Export) (values : List α)
    (definitions : Definitions) :
    (values.foldl (fun definitions value => definitions.addExport (exported value))
      definitions).failures = definitions.failures := by
  rw [foldl_addExport]

def FailuresIn (file : Text) (definitions : Definitions) : Prop :=
  ∀ failure ∈ definitions.failures, failure.file = file

theorem FailuresIn.addFailures (h : definitions.FailuresIn file) {failures : List Failure}
    (hfailures : ∀ failure ∈ failures, failure.file = file) :
    (definitions.addFailures failures).FailuresIn file := by
  intro failure hmem
  rcases List.mem_append.mp hmem with hold | hnew
  · exact h failure hold
  · exact hfailures failure hnew

theorem FailuresIn.addStatement (h : definitions.FailuresIn file) (source : Text) (script : Program)
    (statement : Statement) :
    (definitions.addStatement file source script statement).FailuresIn file := by
  cases hform : statement.form with
  | struct name isInterface members =>
      simp only [Definitions.addStatement, hform, FailuresIn, failures_addExported,
        failures_addDeclaration]
      refine h.addFailures ?_
      simp only [memberFailures, List.mem_map]
      rintro failure ⟨member, -, rfl⟩
      rfl
  | enumeration name members =>
      simp only [Definitions.addStatement, hform, FailuresIn, failures_addExported,
        failures_addDeclaration]
      refine h.addFailures ?_
      simp only [enumFailures, List.mem_map]
      rintro failure ⟨member, -, rfl⟩
      rfl
  | bindings isLet declarators =>
      simp only [Definitions.addStatement, hform]
      split
      · rw [FailuresIn, failures_foldl_addExport fun name => { name, kind := .binding }]
        exact h
      · exact h
  | exportList origin names =>
      simp only [Definitions.addStatement, hform]
      rw [FailuresIn, failures_foldl_addExport fun name =>
        { name, kind := if origin.isSome then .reExport else .other }]
      exact h
  | typeAlias | function | classDefinition =>
      simp only [Definitions.addStatement, hform, FailuresIn, failures_addExported,
        failures_addDeclaration]
      exact h
  | imports | exportAll | defaultExpression | unsupported =>
      simp only [Definitions.addStatement, hform]
      exact h

theorem FailuresIn.addScript (h : definitions.FailuresIn file) (language : Language)
    (script : Text) :
    (definitions.addScript language file script).FailuresIn file := by
  unfold Definitions.addScript
  split
  · next program _ =>
      generalize program.statements = statements
      induction statements generalizing definitions with
      | nil => exact h
      | cons statement statements ih => exact ih (h.addStatement script program statement)
  · refine h.addFailures ?_
    rintro failure hfailure
    rw [List.mem_singleton.mp hfailure]
    rfl

theorem failuresIn_ofSource (source path : Text) : (ofSource source path).FailuresIn path := by
  have hempty : ({} : Definitions).FailuresIn path := by
    intro failure hfailure
    contradiction
  unfold ofSource
  split
  · dsimp only
    generalize [(Sections.ofSource source).moduleScript,
      (Sections.ofSource source).script].filter (fun script => !Text.isBlank script) = scripts
    generalize ({} : Definitions) = definitions at hempty
    induction scripts generalizing definitions with
    | nil => exact hempty
    | cons script scripts ih => exact ih _ (hempty.addScript _ script)
  · exact hempty.addScript _ source

end Definitions

end ComponentDocs.Types
