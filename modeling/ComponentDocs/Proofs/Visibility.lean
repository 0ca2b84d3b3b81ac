import ComponentDocs.Proofs.Extraction

/-!
# Which declaration a name refers to

A name that some file declares refers to the newest declaration of that name, in
whatever file it stands.  Only a name that no file declares is looked for in the
module that an import names.
-/

namespace ComponentDocs

open ComponentDocs.Types

variable {declaration : Declaration} {extractions : List Extraction}

theorem Types.Catalog.Reflects.declaration?_newest {catalog : Catalog}
    {before after : List Extraction} {extraction : Extraction}
    (h : catalog.Reflects (before ++ extraction :: after)) {name : Text}
    (hdeclaration : extraction.declaration? name = some declaration)
    (hnewest : ∀ later ∈ after, later.declaration? name = none) :
    catalog.declaration? name = some ⟨declaration, extraction.file⟩ := by
  have hname := Extraction.colon_not_mem_of_declaration? hdeclaration
  have hafter : after.reverse.findSome? (fun later => later.known? name) = none := by
    rw [List.findSome?_eq_none_iff]
    intro later hlater
    rw [later.known?_name hname, hnewest later (List.mem_reverse.mp hlater), Option.map_none]
  rw [h.declared, List.reverse_append, List.reverse_cons, List.append_assoc,
    List.findSome?_append, hafter, Option.none_or, List.singleton_append, List.findSome?_cons,
    extraction.known?_name hname, hdeclaration]
  rfl

theorem Types.Catalog.Reflects.declaration?_fileKey {catalog : Catalog}
    (h : catalog.Reflects extractions) {file name : Text} {newest : Extraction}
    (hnewest : extractions.reverse.find? (fun extraction => extraction.file = file) = some newest)
    (hdeclaration : newest.declaration? name = some declaration) :
    catalog.declaration? (fileKey file name) = some ⟨declaration, file⟩ := by
  have hname := Extraction.colon_not_mem_of_declaration? hdeclaration
  obtain ⟨hfile, later, earlier, heq, hlater⟩ := List.find?_eq_some_iff_append.mp hnewest
  have hothers : later.findSome? (fun extraction => extraction.known? (fileKey file name)) =
      none := by
    rw [List.findSome?_eq_none_iff]
    intro extraction hextraction
    have hother : extraction.file ≠ file := by simpa using hlater extraction hextraction
    rw [extraction.known?_fileKey file hname, if_neg hother]
  have hsame : newest.file = file := by simpa using hfile
  rw [h.declared, heq, List.findSome?_append, hothers, Option.none_or, List.findSome?_cons,
    newest.known?_fileKey file hname, if_pos hsame, hdeclaration]
  rfl

/-- What a lookup sees of a file: the text that was taken in last, or else the text of the
file if it was not visited. -/
def Types.Sources.seen? (sources : Sources) (extractions : List Extraction) (file : Text) :
    Option Extraction :=
  (extractions.reverse.find? fun extraction => extraction.file = file).or
    (sources.moduleExtraction? file)

theorem Types.Sources.find?_loaded {sources : Sources} (h : sources.catalog.Reflects extractions)
    (target : Text) :
    (extractions ++ (sources.moduleExtraction? target).toList).reverse.find?
      (fun extraction => extraction.file = target) = sources.seen? extractions target := by
  cases hmodule : sources.moduleExtraction? target with
  | none => simp [seen?, hmodule]
  | some extraction =>
      have hnew : sources.catalog.knowsFile target = false ∧ extraction.file = target := by
        unfold moduleExtraction? at hmodule
        split at hmodule
        · contradiction
        · next hunknown =>
            obtain ⟨source, -, rfl⟩ := Option.map_eq_some_iff.mp hmodule
            exact ⟨by simpa using hunknown, rfl⟩
      have hnone : extractions.reverse.find? (fun other => other.file = target) = none := by
        rw [List.find?_eq_none]
        intro other hother hsame
        have hknown := h.known other (List.mem_reverse.mp hother)
        rw [of_decide_eq_true hsame, hnew.1] at hknown
        contradiction
      rw [seen?, hnone, hmodule, Option.toList_some, List.reverse_concat, List.find?_cons]
      simp [hnew.2]

theorem Types.Sources.lookupIn_found {sources : Sources} (h : sources.catalog.Reflects extractions)
    {target exported : Text} {seen : Extraction}
    (hseen : sources.seen? extractions target = some seen)
    (hdeclaration : seen.declaration? exported = some declaration) (file name : Text) :
    (sources.lookupIn target file name exported).found =
      some (Known.resolve ⟨declaration, target⟩ name) := by
  have hnewest := (find?_loaded h target).trans hseen
  have hkey := (reflects_load h target).declaration?_fileKey hnewest hdeclaration
  have hin : (sources.load target).1.catalog.declarationIn? target exported =
      some ⟨declaration, target⟩ := by
    rw [Catalog.declarationIn?, hkey]
    rfl
  unfold lookupIn
  dsimp only
  rw [hin]
  rfl

/--
What a name refers to that was not looked up in a file before.

* If files declare the name, it refers to the newest declaration, that is, to the one of
  the last extraction which declares it, in whatever file that is.
* If nothing is stored under the name, and the first import that binds it refers to a
  file which is seen to declare the exported name, it refers to that declaration, whatever
  other files declare.
-/
theorem resolve_visible (workspace : Workspace) (operations : List Operation) {name file : Text}
    (hnew : (Session.run workspace operations).sources.catalog.resolved? file name = none)
    (imports : List Import) :
    let resolver := Session.run workspace operations
    let extractions := Session.extractions workspace operations
    (∀ before extraction after declaration,
      extractions = before ++ extraction :: after →
      extraction.declaration? name = some declaration →
      (∀ later ∈ after, later.declaration? name = none) →
        (resolver.resolve name file imports).2 =
          some ⟨name, declaration.text, dependencyNames declaration.text name,
            some extraction.file⟩) ∧
    ∀ record target seen declaration,
      (∀ extraction ∈ extractions, ∀ declared ∈ extraction.declarations,
        name ≠ declared.name ∧ name ≠ fileKey extraction.file declared.name) →
      imports.find? (fun record => record.binds name) = some record →
      resolver.sources.workspace.resolveModule? file record.source = some target →
      resolver.sources.seen? extractions target = some seen →
      seen.declaration? (record.exportedName name) = some declaration →
        (resolver.resolve name file imports).2 =
          some ⟨name, declaration.text,
            dependencyNames declaration.text (record.exportedName name), some target⟩ := by
  intro resolver extractions
  have hreflects : resolver.sources.catalog.Reflects extractions :=
    Session.reflects_extractions workspace operations
  constructor
  · intro before extraction after declaration heq hdeclaration hnewest
    rw [heq] at hreflects
    have hknown := hreflects.declaration?_newest hdeclaration hnewest
    rw [Resolver.resolve, Sources.lookup_declared hnew hknown]
    simp [Sources.remember, Known.resolve, Extraction.name_of_declaration? hdeclaration]
  · intro record target seen declaration hnone hrecord htarget hseen hdeclaration
    have hunknown : resolver.sources.catalog.declaration? name = none := by
      rw [hreflects.declared, List.findSome?_eq_none_iff]
      intro extraction hextraction
      exact Extraction.known?_eq_none (hnone extraction (List.mem_reverse.mp hextraction))
    have hfound := Sources.lookupIn_found hreflects hseen hdeclaration file name
    rw [Resolver.resolve, Sources.lookup_imported hnew hunknown hrecord,
      Sources.lookupImported_resolved htarget, hfound]
    simp [Known.resolve, Extraction.name_of_declaration? hdeclaration]

/-- Three files declare a type of one name.  The last two of them are taken in. -/
def namesakes : List Operation :=
  [.insertFile "/t.ts" (.text "interface T{t:X}"), .define "interface T{a:Y}" "/a.ts",
    .define "interface T{b:Z}" "/b.ts"]

def renamingImport : Import :=
  { source := "./t", names := ["N"], renamed := [("N", "T")], typeOnly := true }

theorem resolve_visible_namesakes :
    ((Session.run {} namesakes).resolve "T" "/a.ts" []).2 =
        some ⟨"T", "interface T{b:Z}", ["Z"], some "/b.ts".toList⟩ ∧
      ((Session.run {} namesakes).resolve "N" "/a.ts" [renamingImport]).2 =
        some ⟨"N", "interface T{t:X}", ["X"], some "/t.ts".toList⟩ :=
  ⟨(resolve_visible {} namesakes (by decide +kernel) []).1
      [⟨"/a.ts", "interface T{a:Y}"⟩] ⟨"/b.ts", "interface T{b:Z}"⟩ []
      ⟨"T", "interface T{b:Z}", none, false, .struct [⟨"b", "Z", false, false, none⟩]⟩
      (by decide +kernel) (by decide +kernel) (by decide),
    (resolve_visible {} namesakes (by decide +kernel) [renamingImport]).2
      renamingImport "/t.ts" ⟨"/t.ts", "interface T{t:X}"⟩
      ⟨"T", "interface T{t:X}", none, false, .struct [⟨"t", "X", false, false, none⟩]⟩
      (by decide +kernel) (by decide) (by decide +kernel) (by decide +kernel) (by decide +kernel)⟩

/-- A file's own declaration, and one that it imports, give way to a newer declaration of
the same name in another file. -/
theorem resolve_namesakes_elsewhere :
    let resolver := Session.run {} namesakes
    let extractions := Session.extractions {} namesakes
    let imports : List Import := [{ source := "./t", names := ["T"], typeOnly := true }]
    (resolver.sources.catalog.resolved? "/a.ts" "T" = none ∧
      ((resolver.sources.seen? extractions "/a.ts").bind fun seen =>
        seen.declaration? "T").isSome ∧
      (resolver.resolve "T" "/a.ts" []).2.bind ResolvedType.sourceFile = some "/b.ts".toList) ∧
    resolver.sources.catalog.resolved? "/c.ts" "T" = none ∧
      resolver.sources.workspace.resolveModule? "/c.ts" "./t" = some "/t.ts".toList ∧
      ((resolver.sources.seen? extractions "/t.ts").bind fun seen =>
        seen.declaration? "T").isSome ∧
      (resolver.resolve "T" "/c.ts" imports).2.bind ResolvedType.sourceFile =
        some "/b.ts".toList := by
  decide +kernel

end ComponentDocs
