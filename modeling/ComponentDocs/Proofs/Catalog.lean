import ComponentDocs.Proofs.Extraction
import Mathlib.Data.Finset.Card

/-!
# Declarations and their keys

Every declaration stands in the catalog under two keys: its name, and its name with its
file.  Declared names have no colon, so that the two kinds of keys never meet, whatever
the paths of files look like.
-/

namespace ComponentDocs

open ComponentDocs.Types

variable {file key name : Text}

namespace Extraction

def declaredPairs (extractions : List Extraction) : List (Text × Text) :=
  extractions.flatMap fun extraction =>
    extraction.declarations.map fun declaration => (extraction.file, declaration.name)

def declaredNames (extractions : List Extraction) : List Text :=
  (declaredPairs extractions).map Prod.snd

def newest? (extractions : List Extraction) (name : Text) : Option Extraction :=
  extractions.reverse.find? fun extraction => (extraction.declaration? name).isSome

theorem mem_declaredPairs {extractions : List Extraction} :
    (file, name) ∈ declaredPairs extractions ↔
      ∃ extraction ∈ extractions, extraction.file = file ∧
        ∃ declaration ∈ extraction.declarations, declaration.name = name := by
  simp only [declaredPairs, List.mem_flatMap, List.mem_map, Prod.mk.injEq]
  constructor
  · rintro ⟨extraction, hextraction, declaration, hdeclaration, hfile, hname⟩
    exact ⟨extraction, hextraction, hfile, declaration, hdeclaration, hname⟩
  · rintro ⟨extraction, hextraction, hfile, declaration, hdeclaration, hname⟩
    exact ⟨extraction, hextraction, declaration, hdeclaration, hfile, hname⟩

theorem colon_not_mem_of_mem_declaredPairs {extractions : List Extraction} {pair : Text × Text}
    (h : pair ∈ declaredPairs extractions) : ':' ∉ pair.2 := by
  obtain ⟨extraction, -, -, declaration, hdeclaration, hname⟩ := mem_declaredPairs.mp h
  exact hname ▸ colon_not_mem_of_mem hdeclaration

theorem colon_not_mem_of_mem_declaredNames {extractions : List Extraction}
    (h : name ∈ declaredNames extractions) : ':' ∉ name := by
  obtain ⟨pair, hpair, rfl⟩ := List.mem_map.mp h
  exact colon_not_mem_of_mem_declaredPairs hpair

theorem fileKey_injective {extractions : List Extraction} {pair other : Text × Text}
    (hpair : pair ∈ declaredPairs extractions) (hother : other ∈ declaredPairs extractions)
    (h : fileKey pair.1 pair.2 = fileKey other.1 other.2) : pair = other :=
  Prod.ext_iff.mpr (fileKey_inj (colon_not_mem_of_mem_declaredPairs hpair)
    (colon_not_mem_of_mem_declaredPairs hother) h)

theorem isSome_known?_iff {extraction : Extraction} :
    (extraction.known? key).isSome = true ↔
      ∃ declaration ∈ extraction.declarations,
        key = declaration.name ∨ key = fileKey extraction.file declaration.name := by
  simp [known?, Catalog.lastDeclaration?]

end Extraction

open Extraction (declaredPairs declaredNames newest?)

theorem Types.fileKey_ne (h : ':' ∉ name) (file other : Text) :
    fileKey file other ≠ name := by
  rintro rfl
  simp [fileKey] at h

namespace Types.Catalog

/-- What holds of a catalog and of the extractions that it has taken in. -/
structure WellKeyed (catalog : Catalog) (extractions : List Extraction) : Prop where
  /-- Under the key of a file and a name that it declares stands a declaration of that name
  in that file. -/
  stored : ∀ pair ∈ declaredPairs extractions, ∃ known,
    catalog.declaration? (fileKey pair.1 pair.2) = some known ∧ known.file = pair.1 ∧
      known.declaration.name = pair.2
  distinct : ∀ pair ∈ declaredPairs extractions, ∀ other ∈ declaredPairs extractions,
    fileKey pair.1 pair.2 = fileKey other.1 other.2 → pair = other
  apart : ∀ pair ∈ declaredPairs extractions, ∀ name ∈ declaredNames extractions,
    fileKey pair.1 pair.2 ≠ name
  /-- What stands under a name stands under the name with its file too, which is the file
  whose extraction declared the name last. -/
  bare : ∀ name known, ':' ∉ name → catalog.declaration? name = some known →
    catalog.declaration? (fileKey known.file name) = some known ∧
      (newest? extractions name).map Extraction.file = some known.file
  size_eq : catalog.declarations.size =
    (declaredPairs extractions).toFinset.card + (declaredNames extractions).toFinset.card
  known : ∀ key known, catalog.declaration? key = some known →
    catalog.knowsFile known.file = true

namespace Reflects

variable {catalog : Catalog} {extractions : List Extraction}

theorem isSome_declaration?_iff (h : catalog.Reflects extractions) :
    (catalog.declaration? key).isSome = true ↔
      ∃ extraction ∈ extractions, (extraction.known? key).isSome = true := by
  rw [h.declared, List.findSome?_isSome_iff]
  simp

variable {known : Known}

theorem exists_of_fileKey (h : catalog.Reflects extractions) (hname : ':' ∉ name)
    (hknown : catalog.declaration? (fileKey file name) = some known) :
    ∃ extraction ∈ extractions, extraction.file = file ∧
      ∃ declaration, extraction.declaration? name = some declaration ∧
        known = ⟨declaration, file⟩ := by
  rw [h.declared] at hknown
  obtain ⟨extraction, hextraction, hfound⟩ := List.exists_of_findSome?_eq_some hknown
  rw [extraction.known?_fileKey file hname] at hfound
  split at hfound
  · next hfile =>
      obtain ⟨declaration, hdeclaration, rfl⟩ := Option.map_eq_some_iff.mp hfound
      exact ⟨extraction, List.mem_reverse.mp hextraction, hfile, declaration, hdeclaration, rfl⟩
  · contradiction

theorem exists_stored (h : catalog.Reflects extractions)
    (hpair : (file, name) ∈ declaredPairs extractions) :
    ∃ known, catalog.declaration? (fileKey file name) = some known ∧ known.file = file ∧
      known.declaration.name = name := by
  have hname := Extraction.colon_not_mem_of_mem_declaredPairs hpair
  obtain ⟨extraction, hextraction, rfl, declaration, hdeclaration, rfl⟩ :=
    Extraction.mem_declaredPairs.mp hpair
  have hsome := h.isSome_declaration?_iff.mpr ⟨extraction, hextraction,
    Extraction.isSome_known?_iff.mpr ⟨declaration, hdeclaration, .inr rfl⟩⟩
  obtain ⟨known, hknown⟩ := Option.isSome_iff_exists.mp hsome
  obtain ⟨_, -, -, found, hfound, rfl⟩ := h.exists_of_fileKey hname hknown
  exact ⟨_, hknown, rfl, Extraction.name_of_declaration? hfound⟩

theorem bare_entry (h : catalog.Reflects extractions) (hname : ':' ∉ name)
    (hknown : catalog.declaration? name = some known) :
    catalog.declaration? (fileKey known.file name) = some known ∧
      (newest? extractions name).map Extraction.file = some known.file := by
  rw [h.declared] at hknown
  obtain ⟨later, newest, earlier, hsplit, hnewest, hlater⟩ :=
    List.findSome?_eq_some_iff.mp hknown
  rw [newest.known?_name hname] at hnewest
  obtain ⟨declaration, hdeclaration, rfl⟩ := Option.map_eq_some_iff.mp hnewest
  have hnone : ∀ extraction ∈ later, extraction.declaration? name = none := by
    intro extraction hextraction
    have hunknown := hlater extraction hextraction
    rwa [extraction.known?_name hname, Option.map_eq_none_iff] at hunknown
  constructor
  · have hothers : later.findSome?
        (fun extraction => extraction.known? (fileKey newest.file name)) = none := by
      rw [List.findSome?_eq_none_iff]
      intro extraction hextraction
      simp [extraction.known?_fileKey newest.file hname, hnone extraction hextraction]
    rw [h.declared, hsplit, List.findSome?_append, hothers, Option.none_or, List.findSome?_cons,
      newest.known?_fileKey newest.file hname, if_pos rfl, hdeclaration]
    rfl
  · have hothers :
        later.find? (fun extraction => (extraction.declaration? name).isSome) = none := by
      rw [List.find?_eq_none]
      intro extraction hextraction
      simp [hnone extraction hextraction]
    rw [newest?, hsplit, List.find?_append, hothers, Option.none_or,
      List.find?_cons_of_pos (by simp [hdeclaration])]
    rfl

theorem knowsFile_of_declaration? (h : catalog.Reflects extractions)
    (hknown : catalog.declaration? key = some known) : catalog.knowsFile known.file = true := by
  rw [h.declared] at hknown
  obtain ⟨extraction, hextraction, hfound⟩ := List.exists_of_findSome?_eq_some hknown
  obtain ⟨declaration, -, rfl⟩ := Option.map_eq_some_iff.mp hfound
  exact h.known extraction (List.mem_reverse.mp hextraction)

theorem mem_keys_iff (h : catalog.Reflects extractions) :
    key ∈ catalog.declarations.keys ↔
      (∃ pair ∈ declaredPairs extractions, fileKey pair.1 pair.2 = key) ∨
        key ∈ declaredNames extractions := by
  rw [Table.mem_keys_iff, ← declaration?, h.isSome_declaration?_iff]
  simp only [Extraction.isSome_known?_iff, declaredNames, List.mem_map, Prod.exists,
    Extraction.mem_declaredPairs]
  constructor
  · rintro ⟨extraction, hextraction, declaration, hdeclaration, rfl | rfl⟩
    · exact .inr ⟨_, _, ⟨extraction, hextraction, rfl, declaration, hdeclaration, rfl⟩, rfl⟩
    · exact .inl ⟨_, _, ⟨extraction, hextraction, rfl, declaration, hdeclaration, rfl⟩, rfl⟩
  · rintro (⟨_, _, ⟨extraction, hextraction, rfl, declaration, hdeclaration, rfl⟩, rfl⟩ |
      ⟨_, _, ⟨extraction, hextraction, rfl, declaration, hdeclaration, rfl⟩, rfl⟩)
    · exact ⟨extraction, hextraction, declaration, hdeclaration, .inr rfl⟩
    · exact ⟨extraction, hextraction, declaration, hdeclaration, .inl rfl⟩

theorem size_declarations (h : catalog.Reflects extractions)
    (hnodup : catalog.declarations.keys.Nodup) :
    catalog.declarations.size =
      (declaredPairs extractions).toFinset.card + (declaredNames extractions).toFinset.card := by
  let fileKeys := (declaredPairs extractions).toFinset.image fun pair => fileKey pair.1 pair.2
  have hkeys : catalog.declarations.keys.toFinset =
      fileKeys ∪ (declaredNames extractions).toFinset := by
    ext key
    simp only [fileKeys, Finset.mem_union, Finset.mem_image, List.mem_toFinset, h.mem_keys_iff]
  have hdisjoint : Disjoint fileKeys (declaredNames extractions).toFinset := by
    rw [Finset.disjoint_left]
    intro key hkey hname
    obtain ⟨pair, -, rfl⟩ := Finset.mem_image.mp hkey
    have hcolon := Extraction.colon_not_mem_of_mem_declaredNames (List.mem_toFinset.mp hname)
    exact fileKey_ne hcolon pair.1 pair.2 rfl
  have hinjective : Set.InjOn (fun pair : Text × Text => fileKey pair.1 pair.2)
      ((declaredPairs extractions).toFinset : Set (Text × Text)) := by
    intro pair hpair other hother heq
    rw [Finset.mem_coe, List.mem_toFinset] at hpair hother
    exact Extraction.fileKey_injective hpair hother heq
  calc catalog.declarations.size
      = catalog.declarations.keys.length := (List.length_map Prod.fst).symm
    _ = catalog.declarations.keys.toFinset.card := (List.toFinset_card_of_nodup hnodup).symm
    _ = fileKeys.card + (declaredNames extractions).toFinset.card := by
        rw [hkeys, Finset.card_union_of_disjoint hdisjoint]
    _ = _ := by rw [Finset.card_image_of_injOn hinjective]

theorem wellKeyed (h : catalog.Reflects extractions)
    (hnodup : catalog.declarations.keys.Nodup) : catalog.WellKeyed extractions where
  stored _ hpair := h.exists_stored hpair
  distinct _ hpair _ hother heq := Extraction.fileKey_injective hpair hother heq
  apart pair _ _ hname :=
    fileKey_ne (Extraction.colon_not_mem_of_mem_declaredNames hname) pair.1 pair.2
  bare _ _ hname hknown := h.bare_entry hname hknown
  size_eq := h.size_declarations hnodup
  known _ _ hknown := h.knowsFile_of_declaration? hknown

end Reflects

theorem nodup_keys_addFile {catalog : Catalog} (h : catalog.declarations.keys.Nodup)
    (file : Text) (definitions : Definitions) :
    (catalog.addFile file definitions).declarations.keys.Nodup := by
  simp only [addFile]
  generalize catalog.declarations = table at h
  induction definitions.declarations generalizing table with
  | nil => exact h
  | cons declaration declarations ih =>
      exact ih _ (Table.nodup_keys_insert (Table.nodup_keys_insert h _ _) _ _)

end Types.Catalog

theorem Session.nodup_keys (workspace : Workspace) (operations : List Operation) :
    (run workspace operations).sources.catalog.declarations.keys.Nodup := by
  apply run_induction (P := fun sources => sources.catalog.declarations.keys.Nodup)
  · exact List.nodup_nil
  · intro sources event h
    cases event with
    | inserted | opened => exact h
    | cleared => exact List.nodup_nil
    | defined source path => exact Catalog.nodup_keys_addFile h path _
    | lookedUp name file imports =>
        apply Sources.lookup_induction
          (P := fun sources => sources.catalog.declarations.keys.Nodup) name file imports h
        · intro current specifier target source hcurrent _ _
          exact Catalog.nodup_keys_addFile hcurrent target _
        · intro current target hcurrent
          exact hcurrent
        · intro current key known hcurrent _
          exact hcurrent

/--
The declarations of a catalog are well keyed after every session.  Each declared name has an
entry with its file, which is one of that name in that file; no two keys of files and names
are equal, and none is a name; what stands under a name is the entry of the file that
declared it last; the size is the number of declared files and names together with the
number of declared names; and the file of every entry is known.
-/
theorem declarations_wellKeyed (workspace : Workspace) (operations : List Operation) :
    (Session.run workspace operations).sources.catalog.WellKeyed
      (Session.extractions workspace operations) :=
  (Session.reflects_extractions workspace operations).wellKeyed
    (Session.nodup_keys workspace operations)

theorem Types.Catalog.Reflects.declaration?_fileKey_eq_none_iff {catalog : Catalog}
    {extractions : List Extraction} (h : catalog.Reflects extractions) (hname : ':' ∉ name) :
    catalog.declaration? (fileKey file name) = none ↔
      (file, name) ∉ declaredPairs extractions := by
  constructor
  · intro hnone hpair
    obtain ⟨known, hknown, -⟩ := h.exists_stored hpair
    rw [hnone] at hknown
    contradiction
  · intro hpair
    rw [Option.eq_none_iff_forall_ne_some]
    intro known hknown
    obtain ⟨extraction, hextraction, hfile, declaration, hdeclaration, -⟩ :=
      h.exists_of_fileKey hname hknown
    refine hpair (Extraction.mem_declaredPairs.mpr ⟨extraction, hextraction, hfile, declaration,
      ?_, Extraction.name_of_declaration? hdeclaration⟩)
    exact List.mem_reverse.mp (List.mem_of_find?_eq_some hdeclaration)

theorem Types.Sources.declaration?_define (sources : Sources) (source path : Text)
    (hname : ':' ∉ name) :
    (sources.define source path).1.catalog.declaration? (fileKey path name) =
      (((Extraction.mk path source).declaration? name).map fun declaration =>
        ⟨declaration, path⟩).or (sources.catalog.declaration? (fileKey path name)) := by
  have hknown := (Extraction.mk path source).known?_fileKey path hname
  rw [if_pos rfl] at hknown
  rw [← hknown]
  exact sources.catalog.declaration?_addFile path (Definitions.ofSource source path) _

/--
What stands under a file and a name after a text of the file was taken in.  If the text
declares the name, that is its last declaration of the name, and hence the first one if they
do not differ.  If it does not, the entry stays as it was, and there is none just if no
earlier text of the file has declared the name since the resolver was cleared.
-/
theorem entry_after_define (workspace : Workspace) (operations : List Operation)
    (source path : Text) {name : Text} (hname : ':' ∉ name) :
    let before := (Session.run workspace operations).sources.catalog
    let defined := (Session.run workspace operations).define source path
    let after := defined.1.sources.catalog
    let declarations := defined.2.declarations
    (∀ first, defined.2.get? name = some first →
      (∃ earlier last later, declarations = earlier ++ last :: later ∧ last.name = name ∧
        (∀ declaration ∈ later, declaration.name ≠ name) ∧
        after.declaration? (fileKey path name) = some ⟨last, path⟩) ∧
      ((∀ declaration ∈ declarations, declaration.name = name → declaration = first) →
        after.declaration? (fileKey path name) = some ⟨first, path⟩)) ∧
    (defined.2.get? name = none →
      after.declaration? (fileKey path name) = before.declaration? (fileKey path name) ∧
      (after.declaration? (fileKey path name) = none ↔
        (path, name) ∉ declaredPairs (Session.extractions workspace operations))) := by
  intro before defined after declarations
  have hentry : after.declaration? (fileKey path name) = _ :=
    (Session.run workspace operations).sources.declaration?_define source path hname
  have hdeclaration : (Extraction.mk path source).declaration? name =
      declarations.reverse.find? fun declaration => declaration.name = name := rfl
  rw [hdeclaration] at hentry
  constructor
  · intro first hfirst
    have hmem : first ∈ declarations := List.mem_of_find?_eq_some hfirst
    have hsame : first.name = name := by simpa using List.find?_some hfirst
    have hsome : (declarations.reverse.find? fun declaration =>
        declaration.name = name).isSome = true := by
      rw [List.find?_isSome]
      exact ⟨first, List.mem_reverse.mpr hmem, by simpa using hsame⟩
    obtain ⟨last, hlast⟩ := Option.isSome_iff_exists.mp hsome
    rw [hlast, Option.map_some, Option.some_or] at hentry
    obtain ⟨hname, later, earlier, hsplit, hlater⟩ := List.find?_eq_some_iff_append.mp hlast
    have hlastName : last.name = name := by simpa using hname
    constructor
    · refine ⟨earlier.reverse, last, later.reverse, ?_, hlastName, ?_, hentry⟩
      · rw [← List.reverse_reverse declarations, hsplit]
        simp
      · intro declaration hdeclaration
        simpa using hlater declaration (List.mem_reverse.mp hdeclaration)
    · intro hunique
      have hlastMem := List.mem_reverse.mp (List.mem_of_find?_eq_some hlast)
      rw [← hunique last hlastMem hlastName]
      exact hentry
  · intro hnone
    have hundeclared : declarations.reverse.find? (fun declaration => declaration.name = name) =
        none := by
      rw [Definitions.get?, List.find?_eq_none] at hnone
      rw [List.find?_eq_none]
      intro declaration hmem
      simpa using hnone declaration (List.mem_reverse.mp hmem)
    rw [hundeclared, Option.map_none, Option.none_or] at hentry
    rw [hentry]
    exact ⟨rfl, (Session.reflects_extractions workspace operations).declaration?_fileKey_eq_none_iff
      hname⟩

theorem entry_after_define_removed :
    let session := Session.run {} [.define "interface A{}" "/a.ts"]
    let defined := session.define "interface B{}" "/a.ts"
    defined.2.get? "A" = none ∧
      defined.1.sources.catalog.declaration? (fileKey "/a.ts" "A") =
        session.sources.catalog.declaration? (fileKey "/a.ts" "A") := by
  have hnone : ((Session.run {} [.define "interface A{}" "/a.ts"]).define "interface B{}"
      "/a.ts").2.get? "A" = none := by decide
  exact ⟨hnone, ((entry_after_define {} [.define "interface A{}" "/a.ts"] "interface B{}" "/a.ts"
    (by decide)).2 hnone).1⟩

/-- The entry of a file and a name is not always the first declaration, and there may be one
where there is no declaration. -/
theorem entry_after_define_ne_get? :
    let merged := (Session.run {} []).define "interface A{x:X}interface A{y:Y}" "/a.ts"
    let removed :=
      (Session.run {} [.define "interface A{}" "/a.ts"]).define "interface B{}" "/a.ts"
    (merged.1.sources.catalog.declaration? (fileKey "/a.ts" "A")).map Known.declaration ≠
        merged.2.get? "A" ∧
      removed.2.get? "A" = none ∧
      (removed.1.sources.catalog.declaration? (fileKey "/a.ts" "A")).isSome = true := by
  decide +kernel

end ComponentDocs
