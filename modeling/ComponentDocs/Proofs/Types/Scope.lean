import ComponentDocs.Proofs.Types.Definitions
import ComponentDocs.Proofs.Types.Dependencies
import ComponentDocs.Proofs.Types.Lookup
import ComponentDocs.Proofs.Workspace
import ComponentDocs.Types.Closure
import Mathlib.Algebra.Order.BigOperators.Group.List
import Mathlib.Algebra.Order.Group.Nat
import Mathlib.Data.List.Flatten

/-!
# The scope of a search

A search can meet only names that are parts of texts at hand, and only files that
some text or import can name.  The scope lists them.  Lookups stay in it, though
they read further modules on the way.
-/

namespace ComponentDocs.Types

def parts (text : Text) : List Text :=
  text.tails.flatMap List.inits

theorem mem_parts {part text : Text} : part ∈ parts text ↔ part <:+: text := by
  rw [List.infix_iff_prefix_suffix]
  simp only [parts, List.mem_flatMap, List.mem_tails, List.mem_inits]
  tauto

theorem length_parts_le (text : Text) : (parts text).length ≤ Sources.partBound text := by
  have hinits : ∀ count ∈ text.tails.map (fun tail => tail.inits.length),
      count ≤ text.length + 1 := by
    intro count hcount
    obtain ⟨tail, htail, rfl⟩ := List.mem_map.mp hcount
    have hlength := ((List.mem_tails _ _).mp htail).length_le
    simp only [List.length_inits]
    omega
  have hsum := List.sum_le_card_nsmul _ _ hinits
  simpa [parts, List.length_flatMap, Sources.partBound] using hsum

def contentParts : Content → List Text
  | .text text => parts text
  | .binary => []

theorem length_contentParts_le (content : Content) :
    (contentParts content).length ≤ Sources.contentBound content := by
  cases content with
  | text text => exact length_parts_le text
  | binary => exact Nat.zero_le _

structure Scope where
  names : List Text
  files : List Text

namespace Scope

def references (scope : Scope) : List Reference :=
  scope.files.flatMap fun file => scope.names.map fun name => ⟨name, file⟩

theorem mem_references {scope : Scope} {reference : Reference} :
    reference ∈ scope.references ↔
      reference.name ∈ scope.names ∧ reference.file ∈ scope.files := by
  obtain ⟨name, file⟩ := reference
  simp [references, and_comm]

theorem length_references (scope : Scope) :
    scope.references.length = scope.files.length * scope.names.length := by
  simp [references, List.length_flatMap]

structure HoldsKnown (scope : Scope) (known : Known) : Prop where
  file : known.file ∈ scope.files
  parts : ∀ part, part <:+: known.declaration.text → part ∈ scope.names

structure HoldsType (scope : Scope) (type : ResolvedType) : Prop where
  sourceFile : ∀ file, type.sourceFile = some file → file ∈ scope.files
  names : ∀ name ∈ type.dependencies, name ∈ scope.names
  few : type.dependencies.length ≤ scope.names.length

theorem HoldsType.mem_references {scope : Scope} {type : ResolvedType}
    (h : scope.HoldsType type) {file : Text} (hfile : file ∈ scope.files) {reference : Reference}
    (hreference : reference ∈ type.references file) : reference ∈ scope.references := by
  obtain ⟨name, hname, rfl⟩ := List.mem_map.mp hreference
  rw [Scope.mem_references]
  refine ⟨h.names name hname, ?_⟩
  cases hsource : type.sourceFile with
  | none => exact hfile
  | some source => exact h.sourceFile source hsource

theorem HoldsKnown.resolve {scope : Scope} {known : Known} (h : scope.HoldsKnown known)
    (name : Text) : scope.HoldsType (known.resolve name) := by
  have hnames : dependencyNames known.declaration.text known.declaration.name ⊆ scope.names :=
    fun dependency hdependency => h.parts dependency (isInfix_of_mem_dependencyNames hdependency)
  refine ⟨fun file hfile => ?_, fun dependency hdependency => hnames hdependency, ?_⟩
  · cases hfile
    exact h.file
  · exact (List.subperm_of_subset (nodup_dependencyNames _ _) hnames).length_le

structure Covers (scope : Scope) (sources : Sources) : Prop where
  paths : ∀ place content, (place, content) ∈ sources.workspace.files →
    ∀ path ∈ Workspace.pathsTo place, path ∈ scope.files
  parts : ∀ place content, (place, content) ∈ sources.workspace.files →
    ∀ part ∈ contentParts content, part ∈ scope.names
  declared : ∀ key known, sources.catalog.declaration? key = some known → scope.HoldsKnown known
  resolved : ∀ file name type, sources.catalog.resolved? file name = some type →
    scope.HoldsType type

variable {sources : Sources}

theorem Covers.read {scope : Scope} (h : scope.Covers sources)
    {importer specifier target source : Text}
    (htarget : sources.workspace.resolveModule? importer specifier = some target)
    (htext : sources.workspace.text? target = .ok source) :
    scope.Covers (sources.afterRead.define source target).1 := by
  obtain ⟨place, content, hfile, hpath, hentry⟩ := Workspace.mem_pathsTo_of_resolveModule? htarget
  have hcontent : content = .text source := by
    cases content with
    | text text =>
        simp only [Workspace.text?, hentry, Except.ok.injEq] at htext
        rw [htext]
    | binary => simp [Workspace.text?, hentry] at htext
  refine ⟨h.paths, h.parts, fun key known hknown => ?_, h.resolved⟩
  rcases Catalog.declaration?_addFile_cases hknown with ⟨hsource, hdeclaration⟩ | hold
  · refine ⟨hsource ▸ h.paths place content hfile target hpath, fun part hpart => ?_⟩
    have hinfix := (Definitions.standsIn_of_mem_ofSource hdeclaration).text_isInfix
    apply h.parts place content hfile
    rw [hcontent]
    exact mem_parts.mpr (hpart.trans hinfix)
  · exact h.declared key known hold

theorem Covers.remember {scope : Scope} (h : scope.Covers sources) {key : Text} {known : Known}
    (hknown : sources.catalog.declaration? key = some known)
    (file name : Text) : scope.Covers (sources.remember file name known).sources := by
  refine ⟨h.paths, h.parts, h.declared, fun other otherName type htype => ?_⟩
  rcases Sources.resolved?_remember_cases htype with rfl | hold
  · exact (h.declared key known hknown).resolve name
  · exact h.resolved _ _ _ hold

theorem Covers.lookup {scope : Scope} (h : scope.Covers sources) (name file : Text)
    (imports : List Import) :
    scope.Covers (sources.lookup name file imports).sources := by
  apply Sources.lookup_induction name file imports h
  · intro current specifier target source hcurrent htarget htext
    exact hcurrent.read htarget htext
  · intro current target hcurrent
    exact ⟨hcurrent.paths, hcurrent.parts, hcurrent.declared, hcurrent.resolved⟩
  · intro current key known hcurrent hknown
    exact hcurrent.remember hknown file name

theorem Covers.found {scope : Scope} (h : scope.Covers sources) {name file : Text}
    {imports : List Import} {type : ResolvedType}
    (hfound : (sources.lookup name file imports).found = some type) : scope.HoldsType type :=
  (h.lookup name file imports).resolved file name type (Sources.resolved?_of_lookup_found hfound)

end Scope

namespace Sources

def scope (sources : Sources) (name file : Text) : Scope :=
  { names :=
      name :: (sources.workspace.files.flatMap (fun (_, content) => contentParts content) ++
        sources.catalog.declarations.entries.flatMap
          (fun (_, known) => parts known.declaration.text) ++
        sources.catalog.resolved.entries.flatMap fun (_, type) => type.dependencies)
    files :=
      file :: (sources.workspace.files.flatMap (fun (place, _) => Workspace.pathsTo place) ++
        sources.catalog.declarations.entries.map (fun (_, known) => known.file) ++
        sources.catalog.resolved.entries.filterMap fun (_, type) => type.sourceFile) }

theorem length_flatMap_le_total {α β : Type} {list : α → List β} {bound : α → Nat}
    (h : ∀ item, (list item).length ≤ bound item) (items : List α) :
    (items.flatMap list).length ≤ total bound items := by
  induction items with
  | nil => exact Nat.le_refl 0
  | cons item items ih =>
      have hitem := h item
      simp only [List.flatMap_cons, List.length_append, total]
      omega

theorem length_names_scope_le (sources : Sources) (name file : Text) :
    (sources.scope name file).names.length ≤ sources.nameBound := by
  have hfiles := length_flatMap_le_total
    (fun entry : Place × Content => length_contentParts_le entry.2) sources.workspace.files
  have hdeclarations := length_flatMap_le_total
    (fun entry : Text × Known => length_parts_le entry.2.declaration.text)
    sources.catalog.declarations.entries
  have hresolved := length_flatMap_le_total
    (fun entry : (Text × Text) × ResolvedType => Nat.le_refl entry.2.dependencies.length)
    sources.catalog.resolved.entries
  simp only [scope, nameBound, List.length_cons, List.length_append]
  omega

theorem length_files_scope_le (sources : Sources) (name file : Text) :
    (sources.scope name file).files.length ≤ sources.fileBound := by
  have hpaths : (sources.workspace.files.map
      fun entry => (Workspace.pathsTo entry.1).length).sum =
        2 * sources.workspace.files.length := by
    simp [Workspace.pathsTo, mul_comm]
  have hresolved := List.length_filterMap_le (fun entry : (Text × Text) × ResolvedType =>
    entry.2.sourceFile) sources.catalog.resolved.entries
  simp only [scope, fileBound, Table.size, List.length_cons, List.length_append,
    List.length_flatMap, List.length_map]
  omega

theorem covers_scope (sources : Sources) (name file : Text) :
    (sources.scope name file).Covers sources := by
  constructor
  case paths =>
    intro place content hfile path hpath
    simp only [scope, List.mem_cons, List.mem_append, List.mem_flatMap]
    exact .inr (.inl (.inl ⟨(place, content), hfile, hpath⟩))
  case parts =>
    intro place content hfile part hpart
    simp only [scope, List.mem_cons, List.mem_append, List.mem_flatMap]
    exact .inr (.inl (.inl ⟨(place, content), hfile, hpart⟩))
  case declared =>
    intro key known hknown
    have hentry := Table.mem_entries_of_find? hknown
    refine ⟨?_, fun part hpart => ?_⟩
    · simp only [scope, List.mem_cons, List.mem_append, List.mem_map]
      exact .inr (.inl (.inr ⟨(key, known), hentry, rfl⟩))
    · simp only [scope, List.mem_cons, List.mem_append, List.mem_flatMap]
      exact .inr (.inl (.inr ⟨(key, known), hentry, mem_parts.mpr hpart⟩))
  case resolved =>
    intro other otherName type htype
    have hentry := Table.mem_entries_of_find? htype
    refine ⟨fun source hsource => ?_, fun dependency hdependency => ?_, ?_⟩
    · simp only [scope, List.mem_cons, List.mem_append, List.mem_filterMap]
      exact .inr (.inr ⟨((other, otherName), type), hentry, hsource⟩)
    · simp only [scope, List.mem_cons, List.mem_append, List.mem_flatMap]
      exact .inr (.inr ⟨((other, otherName), type), hentry, hdependency⟩)
    · -- Dependencies of a cached type may repeat, so they are counted where they are listed.
      have hlisted : type.dependencies.Sublist (sources.catalog.resolved.entries.flatMap
          fun entry => entry.2.dependencies) := by
        simpa using (List.singleton_sublist.mpr hentry).flatMap fun entry => entry.2.dependencies
      have hcount := hlisted.length_le
      simp only [scope, List.length_cons, List.length_append]
      omega

end Sources

end ComponentDocs.Types
