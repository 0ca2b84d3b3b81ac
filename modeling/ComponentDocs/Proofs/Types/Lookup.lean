import ComponentDocs.Proofs.Table
import ComponentDocs.Types.Lookup

/-!
# What a lookup does to the sources

A lookup changes the sources in few ways: it may read one module, take note of
one that cannot be read, and remember what the name refers to.  Everything that
these changes keep is kept by every lookup.
-/

namespace ComponentDocs.Types

variable {known : Known} {file name : Text}

namespace Catalog

variable (catalog : Catalog)

theorem find?_addDeclaration (file : Text) (declarations : Table Text Known)
    (declaration : Declaration) (key : Text) :
    (addDeclaration file declarations declaration).find? key =
      if key = declaration.name ∨ key = fileKey file declaration.name then some ⟨declaration, file⟩
      else declarations.find? key := by
  simp only [addDeclaration, Table.find?_insert]
  by_cases hname : key = declaration.name <;> simp [hname]

def lastDeclaration? (file : Text) (declarations : List Declaration) (key : Text) :
    Option Declaration :=
  declarations.reverse.find? fun declaration =>
    key = declaration.name ∨ key = fileKey file declaration.name

theorem find?_foldl_addDeclaration (file : Text) (declarations : List Declaration)
    (table : Table Text Known) (key : Text) :
    (declarations.foldl (addDeclaration file) table).find? key =
      ((lastDeclaration? file declarations key).map fun declaration => ⟨declaration, file⟩).or
        (table.find? key) := by
  induction declarations generalizing table with
  | nil => rfl
  | cons declaration declarations ih =>
      rw [List.foldl_cons, ih, find?_addDeclaration]
      simp only [lastDeclaration?, List.reverse_cons, List.find?_append, List.find?_singleton]
      cases declarations.reverse.find? fun declaration =>
        key = declaration.name ∨ key = fileKey file declaration.name with
      | some last => rfl
      | none =>
          by_cases h : key = declaration.name ∨ key = fileKey file declaration.name <;> simp [h]

theorem declaration?_addFile (file : Text) (definitions : Definitions) (key : Text) :
    (catalog.addFile file definitions).declaration? key =
      ((lastDeclaration? file definitions.declarations key).map
        fun declaration => ⟨declaration, file⟩).or (catalog.declaration? key) :=
  find?_foldl_addDeclaration file definitions.declarations catalog.declarations key

theorem declaration?_addFile_cases {catalog : Catalog} {key : Text} {definitions : Definitions}
    (h : (catalog.addFile file definitions).declaration? key = some known) :
    (known.file = file ∧ known.declaration ∈ definitions.declarations) ∨
      catalog.declaration? key = some known := by
  rw [declaration?_addFile] at h
  cases hlast : lastDeclaration? file definitions.declarations key with
  | none =>
      rw [hlast] at h
      exact .inr h
  | some declaration =>
      rw [hlast] at h
      cases h
      exact .inl ⟨rfl, List.mem_reverse.mp (List.mem_of_find?_eq_some hlast)⟩

theorem resolved?_addResolved (file : Text) (type : ResolvedType) (other name : Text) :
    (catalog.addResolved file type).resolved? other name =
      if (other, name) = (file, type.name) then some ((catalog.resolved? file type.name).getD type)
      else catalog.resolved? other name :=
  Table.find?_insertNew catalog.resolved (file, type.name) (other, name) type

theorem resolved?_addResolved_of_some {known : ResolvedType}
    (h : catalog.resolved? file name = some known) (other : Text) (type : ResolvedType) :
    (catalog.addResolved other type).resolved? file name = some known := by
  rw [resolved?_addResolved]
  split
  · next heq =>
      cases heq
      simp [h]
  · exact h

theorem declarationIn?_eq_some {catalog : Catalog}
    (h : catalog.declarationIn? file name = some known) :
    ∃ key, catalog.declaration? key = some known := by
  unfold declarationIn? at h
  cases hkey : catalog.declaration? (fileKey file name) with
  | some stored =>
      rw [hkey] at h
      exact ⟨_, hkey.trans h⟩
  | none =>
      rw [hkey] at h
      exact ⟨_, h⟩

end Catalog

namespace Sources

def afterRead (sources : Sources) : Sources :=
  { sources with workspace := sources.workspace.countRead }

def afterFailedRead (sources : Sources) (path : Text) : Sources :=
  { sources.afterRead with catalog := sources.catalog.markFile path }

variable {sources : Sources} {path : Text} {type : ResolvedType} {record : Import}
  {imports : List Import}

theorem load_known (h : sources.catalog.knowsFile path = true) :
    sources.load path = (sources, []) := by
  simp [load, h]

theorem load_read {source : Text} (hnew : sources.catalog.knowsFile path = false)
    (htext : sources.workspace.text? path = .ok source) :
    sources.load path = ((sources.afterRead.define source path).1,
      (Definitions.ofSource source path).failures) := by
  simp [load, hnew, htext, afterRead, define]

theorem load_unreadable {error : ReadError} (hnew : sources.catalog.knowsFile path = false)
    (htext : sources.workspace.text? path = .error error) :
    sources.load path = (sources.afterFailedRead path,
      [importFailure path ("cannot read module: " ++ error.describe)]) := by
  simp [load, hnew, htext, afterRead, afterFailedRead]

theorem load_cases (sources : Sources) (path : Text) :
    (sources.load path).1 = sources ∨
      (∃ source, sources.workspace.text? path = .ok source ∧
        (sources.load path).1 = (sources.afterRead.define source path).1) ∨
      (sources.load path).1 = sources.afterFailedRead path := by
  cases hnew : sources.catalog.knowsFile path with
  | true => exact .inl (by rw [load_known hnew])
  | false =>
      cases htext : sources.workspace.text? path with
      | ok source => exact .inr (.inl ⟨source, rfl, by rw [load_read hnew htext]⟩)
      | error error => exact .inr (.inr (by rw [load_unreadable hnew htext]))

@[simp] theorem resolved?_load (sources : Sources) (path file name : Text) :
    (sources.load path).1.catalog.resolved? file name = sources.catalog.resolved? file name := by
  rcases load_cases sources path with h | ⟨source, -, h⟩ | h <;> rw [h] <;> rfl

theorem resolved?_remember_cases {other otherName : Text}
    (h : (sources.remember file name known).sources.catalog.resolved? other otherName =
      some type) :
    type = known.resolve name ∨ sources.catalog.resolved? other otherName = some type := by
  simp only [remember, Catalog.resolved?_addResolved] at h
  split at h
  · next heq =>
      cases heq
      cases hresolved : sources.catalog.resolved? file (known.resolve name).name with
      | none =>
          rw [hresolved] at h
          cases h
          exact .inl rfl
      | some old =>
          rw [hresolved] at h
          exact .inr h
  · exact .inr h

theorem lookup_hit (h : sources.catalog.resolved? file name = some type) (imports : List Import) :
    sources.lookup name file imports = { sources, found := some type } := by
  simp [lookup, h]

theorem lookup_declared (hnew : sources.catalog.resolved? file name = none)
    (h : sources.catalog.declaration? name = some known) (imports : List Import) :
    sources.lookup name file imports = sources.remember file name known := by
  simp [lookup, hnew, h]

theorem lookup_imported (hnew : sources.catalog.resolved? file name = none)
    (hunknown : sources.catalog.declaration? name = none)
    (h : imports.find? (fun record => record.binds name) = some record) :
    sources.lookup name file imports = sources.lookupImported file name record := by
  simp [lookup, hnew, hunknown, h]

theorem lookup_unbound (hnew : sources.catalog.resolved? file name = none)
    (hunknown : sources.catalog.declaration? name = none)
    (h : imports.find? (fun record => record.binds name) = none) :
    sources.lookup name file imports = { sources } := by
  simp [lookup, hnew, hunknown, h]

theorem lookupImported_resolved {target : Text}
    (h : sources.workspace.resolveModule? file record.source = some target) (name : Text) :
    sources.lookupImported file name record =
      sources.lookupIn target file name (record.exportedName name) := by
  have hrelative : record.isRelative = true := by
    unfold Workspace.resolveModule? at h
    split at h
    · next hrelative => exact hrelative
    · contradiction
  simp [lookupImported, hrelative, h]

theorem lookupImported_unresolved (h : sources.workspace.resolveModule? file record.source = none)
    (name : Text) :
    (sources.lookupImported file name record).sources = sources ∧
      (sources.lookupImported file name record).found = none := by
  unfold lookupImported
  split
  · simp [h]
  · simp

/-- The module that a lookup goes to, if neither earlier lookups nor declarations tell
what the name refers to. -/
def module? (sources : Sources) (name file : Text) (imports : List Import) : Option Text :=
  if (sources.catalog.resolved? file name).isSome || (sources.catalog.declaration? name).isSome then
    none
  else
    (imports.find? fun record => record.binds name).bind fun record =>
      sources.workspace.resolveModule? file record.source

theorem exists_specifier_of_module? {target : Text}
    (h : sources.module? name file imports = some target) :
    ∃ specifier, sources.workspace.resolveModule? file specifier = some target := by
  unfold module? at h
  split at h
  · contradiction
  · obtain ⟨record, -, htarget⟩ := Option.bind_eq_some_iff.mp h
    exact ⟨record.source, htarget⟩

/--
What a lookup of a name in a file can find, and how it leaves the sources.  It
gives back a type that was looked up before; or it remembers a declaration, which
may stand in a module that it loads first; or it loads a module in vain; or it
leaves everything as it was.
-/
inductive Outcome (sources : Sources) (name file : Text) (imports : List Import) :
    Option ResolvedType → Sources → Prop
  | hit (type : ResolvedType) :
      sources.catalog.resolved? file name = some type →
        Outcome sources name file imports (some type) sources
  | declared (known : Known) :
      sources.catalog.resolved? file name = none →
      sources.catalog.declaration? name = some known →
        Outcome sources name file imports (some (known.resolve name))
          (sources.remember file name known).sources
  | imported (target key : Text) (known : Known) :
      sources.catalog.resolved? file name = none →
      sources.module? name file imports = some target →
      (sources.load target).1.catalog.declaration? key = some known →
        Outcome sources name file imports (some (known.resolve name))
          ((sources.load target).1.remember file name known).sources
  | undeclared (target : Text) :
      sources.module? name file imports = some target →
        Outcome sources name file imports none (sources.load target).1
  | unfound :
      sources.module? name file imports = none → Outcome sources name file imports none sources

theorem lookup_outcome (sources : Sources) (name file : Text) (imports : List Import) :
    Outcome sources name file imports (sources.lookup name file imports).found
      (sources.lookup name file imports).sources := by
  cases hresolved : sources.catalog.resolved? file name with
  | some type =>
      rw [lookup_hit hresolved]
      exact .hit type hresolved
  | none =>
      cases hdeclared : sources.catalog.declaration? name with
      | some known =>
          rw [lookup_declared hresolved hdeclared]
          exact .declared known hresolved hdeclared
      | none =>
          have hmodule : sources.module? name file imports =
              (imports.find? fun record => record.binds name).bind fun record =>
                sources.workspace.resolveModule? file record.source := by
            simp [module?, hresolved, hdeclared]
          cases hrecord : imports.find? (fun record => record.binds name) with
          | none =>
              rw [lookup_unbound hresolved hdeclared hrecord]
              rw [hrecord] at hmodule
              exact .unfound hmodule
          | some record =>
              rw [lookup_imported hresolved hdeclared hrecord]
              rw [hrecord, Option.bind_some] at hmodule
              cases htarget : sources.workspace.resolveModule? file record.source with
              | none =>
                  obtain ⟨hsources, hfound⟩ := lookupImported_unresolved htarget name
                  rw [hsources, hfound]
                  exact .unfound (hmodule.trans htarget)
              | some target =>
                  rw [lookupImported_resolved htarget]
                  rw [htarget] at hmodule
                  unfold lookupIn
                  dsimp only
                  split
                  · next known hknown =>
                      obtain ⟨key, hkey⟩ := Catalog.declarationIn?_eq_some hknown
                      exact .imported target key known hresolved hmodule hkey
                  · exact .undeclared target hmodule

theorem resolved?_of_lookup_found (h : (sources.lookup name file imports).found = some type) :
    (sources.lookup name file imports).sources.catalog.resolved? file name = some type := by
  have houtcome := sources.lookup_outcome name file imports
  rw [h] at houtcome
  generalize (sources.lookup name file imports).sources = after at houtcome ⊢
  cases houtcome with
  | hit type hresolved => exact hresolved
  | declared known hnew _ =>
      simp [remember, Catalog.resolved?_addResolved, Known.resolve, hnew]
  | imported target key known hnew _ _ =>
      simp [remember, Catalog.resolved?_addResolved, Known.resolve, hnew]

/--
Induction over what a lookup does: a property of sources that is kept when a
module is read, when one turns out to be unreadable and when a declaration is
remembered holds after a lookup if it holds before.
-/
theorem lookup_induction {P : Sources → Prop} (name file : Text) (imports : List Import)
    (hstart : P sources) (hread : ∀ current specifier target source, P current →
      current.workspace.resolveModule? file specifier = some target →
      current.workspace.text? target = .ok source →
        P (current.afterRead.define source target).1)
    (hfailed : ∀ current target, P current → P (current.afterFailedRead target))
    (hremember : ∀ current key known, P current →
      current.catalog.declaration? key = some known →
        P (current.remember file name known).sources) :
    P (sources.lookup name file imports).sources := by
  have hload : ∀ specifier target,
      sources.workspace.resolveModule? file specifier = some target →
        P (sources.load target).1 := by
    intro specifier target htarget
    rcases load_cases sources target with h | ⟨source, htext, h⟩ | h <;> rw [h]
    · exact hstart
    · exact hread sources specifier target source hstart htarget htext
    · exact hfailed sources target hstart
  have houtcome := sources.lookup_outcome name file imports
  generalize (sources.lookup name file imports).found = found at houtcome
  generalize (sources.lookup name file imports).sources = after at houtcome ⊢
  cases houtcome with
  | hit | unfound => exact hstart
  | declared known _ hknown => exact hremember sources name known hstart hknown
  | imported target key known _ hmodule hknown =>
      obtain ⟨specifier, htarget⟩ := exists_specifier_of_module? hmodule
      exact hremember _ key known (hload specifier target htarget) hknown
  | undeclared target hmodule =>
      obtain ⟨specifier, htarget⟩ := exists_specifier_of_module? hmodule
      exact hload specifier target htarget

end Sources

end ComponentDocs.Types
