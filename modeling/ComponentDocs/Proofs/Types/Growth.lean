import ComponentDocs.Proofs.Reading

/-!
# Sources that grow

A lookup adds to what is known and takes nothing back: what was resolved stays as it is,
what was declared stays declared, and a file that is known keeps its imports.
-/

namespace ComponentDocs

namespace Workspace

variable (workspace : Workspace) (reads : Nat)

@[simp] theorem follow_with_reads (place : Place) (pieces : List Text) :
    follow { workspace with reads } place pieces = follow workspace place pieces := by
  induction pieces generalizing place with
  | nil => rfl
  | cons piece pieces ih =>
      simp only [follow, ih]
      rfl

@[simp] theorem entry_with_reads (path : Text) :
    entry { workspace with reads } path = entry workspace path := by
  simp only [entry, follow_with_reads]
  rfl

@[simp] theorem text?_with_reads (path : Text) :
    text? { workspace with reads } path = text? workspace path := by
  simp only [text?, entry_with_reads]

@[simp] theorem resolveModule?_with_reads (importer specifier : Text) :
    resolveModule? { workspace with reads } importer specifier =
      resolveModule? workspace importer specifier := by
  have hfile : isFile { workspace with reads } = isFile workspace := by
    funext path
    simp only [isFile, entry_with_reads]
  simp only [resolveModule?, hfile]

end Workspace

namespace Types

theorem Catalog.importsOf_addFile (catalog : Catalog) (file : Text) (definitions : Definitions)
    (other : Text) :
    (catalog.addFile file definitions).importsOf other =
      if other = file then definitions.imports else catalog.importsOf other := by
  simp only [importsOf, addFile, Table.find?_insert]
  split <;> rfl

variable {sources first last : Sources} {queries : List Query}

namespace Sources

structure Grows (before after : Sources) : Prop where
  workspace : ∃ reads, after.workspace = { before.workspace with reads }
  resolved : ∀ file name type, before.catalog.resolved? file name = some type →
    after.catalog.resolved? file name = some type
  declared : ∀ key, after.catalog.declaration? key = none → before.catalog.declaration? key = none
  known : ∀ file, before.catalog.knowsFile file = true → after.catalog.knowsFile file = true
  imports : ∀ file, before.catalog.knowsFile file = true →
    after.catalog.importsOf file = before.catalog.importsOf file

namespace Grows

variable {before middle after : Sources}

theorem refl (sources : Sources) : Grows sources sources where
  workspace := ⟨sources.workspace.reads, rfl⟩
  resolved _ _ _ htype := htype
  declared _ hkey := hkey
  known _ hfile := hfile
  imports _ _ := rfl

theorem trans (h : Grows before middle) (hafter : Grows middle after) : Grows before after where
  workspace := by
    obtain ⟨first, hfirst⟩ := h.workspace
    obtain ⟨last, hlast⟩ := hafter.workspace
    exact ⟨last, by rw [hlast, hfirst]⟩
  resolved file name type htype := hafter.resolved _ _ _ (h.resolved file name type htype)
  declared key hkey := h.declared key (hafter.declared key hkey)
  known file hfile := hafter.known file (h.known file hfile)
  imports file hfile := (hafter.imports file (h.known file hfile)).trans (h.imports file hfile)

theorem text? (h : Grows before after) (path : Text) :
    after.workspace.text? path = before.workspace.text? path := by
  obtain ⟨reads, hreads⟩ := h.workspace
  rw [hreads, Workspace.text?_with_reads]

theorem resolveModule? (h : Grows before after) (importer specifier : Text) :
    after.workspace.resolveModule? importer specifier =
      before.workspace.resolveModule? importer specifier := by
  obtain ⟨reads, hreads⟩ := h.workspace
  rw [hreads, Workspace.resolveModule?_with_reads]

end Grows

/-- The definitions of a file may be taken in if the file is new, or if its imports are
the same as before. -/
theorem grows_define {source path : Text} (h : sources.catalog.knowsFile path = true →
      sources.catalog.importsOf path = (Definitions.ofSource source path).imports) :
    Grows sources (sources.afterRead.define source path).1 where
  workspace := ⟨_, rfl⟩
  resolved _ _ _ htype := htype
  declared key hkey := by
    simp only [define, Catalog.declaration?_addFile, Option.or_eq_none_iff] at hkey
    exact hkey.2
  known file hfile := by
    simp [define, afterRead, hfile]
  imports file hfile := by
    simp only [define, afterRead, Catalog.importsOf_addFile]
    split
    · next heq =>
        subst heq
        exact (h hfile).symm
    · rfl

theorem grows_redefine {earlier : Sources} {source path : Text}
    (h : (earlier.define source path).1.Grows sources) :
    Grows sources (sources.afterRead.define source path).1 := by
  apply grows_define
  intro _
  have hknown : (earlier.define source path).1.catalog.knowsFile path = true := by
    simp [define]
  rw [h.imports path hknown, define, Catalog.importsOf_addFile, if_pos rfl]

theorem grows_afterFailedRead (sources : Sources) (path : Text) :
    Grows sources (sources.afterFailedRead path) where
  workspace := ⟨_, rfl⟩
  resolved _ _ _ htype := htype
  declared _ hkey := hkey
  known file hfile := by simp [afterFailedRead, hfile]
  imports _ _ := rfl

theorem grows_load (sources : Sources) (path : Text) : Grows sources (sources.load path).1 := by
  cases hknown : sources.catalog.knowsFile path with
  | true =>
      rw [load_known hknown]
      exact .refl sources
  | false =>
      cases htext : sources.workspace.text? path with
      | ok source =>
          rw [load_read hknown htext]
          exact grows_define (by simp [hknown])
      | error error =>
          rw [load_unreadable hknown htext]
          exact grows_afterFailedRead sources path

theorem grows_remember (sources : Sources) (file name : Text) (known : Known) :
    Grows sources (sources.remember file name known).sources where
  workspace := ⟨_, rfl⟩
  resolved _ _ _ htype :=
    sources.catalog.resolved?_addResolved_of_some htype file (known.resolve name)
  declared _ hkey := hkey
  known _ hfile := hfile
  imports _ _ := rfl

theorem grows_lookup (sources : Sources) (name file : Text) (imports : List Import) :
    Grows sources (sources.lookup name file imports).sources := by
  have houtcome := sources.lookup_outcome name file imports
  generalize (sources.lookup name file imports).found = found at houtcome
  generalize (sources.lookup name file imports).sources = after at houtcome ⊢
  cases houtcome with
  | hit | unfound => exact .refl sources
  | declared known => exact sources.grows_remember file name known
  | imported target key known =>
      exact (sources.grows_load target).trans (grows_remember _ file name known)
  | undeclared target => exact sources.grows_load target

end Sources

theorem Threaded.grows (h : Threaded first queries last) : first.Grows last := by
  induction h with
  | nil sources => exact .refl sources
  | cons query queries last _ ih => exact (Sources.grows_lookup _ _ _ _).trans ih

theorem Threaded.grows_of_mem (h : Threaded first queries last) {query : Query}
    (hquery : query ∈ queries) :
    first.Grows query.sources ∧ query.lookup.sources.Grows last := by
  induction h with
  | nil => contradiction
  | cons head queries last hrest ih =>
      rcases List.mem_cons.mp hquery with rfl | hquery
      · exact ⟨.refl _, hrest.grows⟩
      · obtain ⟨hbefore, hafter⟩ := ih hquery
        exact ⟨(Sources.grows_lookup _ _ _ _).trans hbefore, hafter⟩

theorem Threaded.append {middle : Sources} {more : List Query} (h : Threaded first queries middle)
    (hmore : Threaded middle more last) :
    Threaded first (queries ++ more) last := by
  induction h with
  | nil => exact hmore
  | cons query queries middle _ ih => exact .cons query _ last (ih hmore)

/-- Each type that is declared or was looked up comes from a file that is known. -/
structure Catalog.Grounded (catalog : Catalog) : Prop where
  declared : ∀ key known, catalog.declaration? key = some known →
    catalog.knowsFile known.file = true
  resolved : ∀ file name type, catalog.resolved? file name = some type →
    ∃ source, type.sourceFile = some source ∧ catalog.knowsFile source = true

namespace Catalog.Grounded

variable {catalog : Catalog}

theorem addFile (h : catalog.Grounded) (file : Text) (definitions : Definitions) :
    (catalog.addFile file definitions).Grounded where
  declared key known hknown := by
    rw [knowsFile_addFile]
    rcases declaration?_addFile_cases hknown with ⟨hfile, -⟩ | hold
    · simp [hfile]
    · simp [h.declared key known hold]
  resolved place name type htype := by
    obtain ⟨source, hsource, hknown⟩ := h.resolved place name type htype
    exact ⟨source, hsource, by simp [hknown]⟩

theorem markFile (h : catalog.Grounded) (file : Text) : (catalog.markFile file).Grounded where
  declared key known hknown := by simp [h.declared key known hknown]
  resolved place name type htype := by
    obtain ⟨source, hsource, hknown⟩ := h.resolved place name type htype
    exact ⟨source, hsource, by simp [hknown]⟩

end Catalog.Grounded

theorem Sources.grounded_lookup (h : sources.catalog.Grounded) (name file : Text)
    (imports : List Import) :
    (sources.lookup name file imports).sources.catalog.Grounded := by
  apply lookup_induction (P := fun current => current.catalog.Grounded) name file imports h
  · intro current specifier target source hcurrent _ _
    exact hcurrent.addFile target (Definitions.ofSource source target)
  · intro current target hcurrent
    exact hcurrent.markFile target
  · intro current key known hcurrent hknown
    refine ⟨hcurrent.declared, fun place other type htype => ?_⟩
    rcases resolved?_remember_cases htype with rfl | hold
    · exact ⟨known.file, rfl, hcurrent.declared key known hknown⟩
    · exact hcurrent.resolved place other type hold

theorem Threaded.grounded (h : Threaded first queries last) (hfirst : first.catalog.Grounded) :
    last.catalog.Grounded := by
  induction h with
  | nil => exact hfirst
  | cons query queries last _ ih => exact ih (Sources.grounded_lookup hfirst _ _ _)

end Types

open ComponentDocs.Types

theorem grounded_run (workspace : Workspace) (operations : List Operation) :
    (Session.run workspace operations).sources.catalog.Grounded := by
  have hempty : ({} : Catalog).Grounded := by
    constructor
    · intro key known hknown
      contradiction
    · intro file name type htype
      contradiction
  apply Session.run_induction (P := fun sources => sources.catalog.Grounded) hempty
  intro sources event h
  cases event with
  | inserted | opened => exact h
  | defined source path => exact h.addFile path (Definitions.ofSource source path)
  | lookedUp name file imports => exact Sources.grounded_lookup h name file imports
  | cleared => exact hempty

end ComponentDocs
