import ComponentDocs.Proofs.Workspace

/-!
# One path for each module

The path that an import refers to is clean, so that it is the same for all imports of one
module.  The exception are index files of the current directory: their paths keep the step to
that directory.
-/

namespace ComponentDocs

open scoped List

namespace Path

def cleaned (path : Text) : Text :=
  ofComponents (clean (components path))

theorem components_eq (path : Text) :
    ∃ lead moves, components path = lead ++ moves ∧ (lead = [] ∨ lead = [.root]) ∧
      ∀ step ∈ moves, step.IsMove := by
  cases habsolute : isAbsolute path with
  | false =>
      exact ⟨[], components path, rfl, .inl rfl, fun _ => isMove_of_mem_components habsolute⟩
  | true =>
      refine ⟨[.root], (pieces path).filterMap Component.ofPiece?, ?_, .inr rfl, ?_⟩
      · simp [components, habsolute]
      · exact fun _ hstep => .inr (isStep_of_mem_pieces hstep)

theorem isClean_cleaned (path : Text) : IsClean (cleaned path) := by
  obtain ⟨lead, moves, hcomponents, hlead, hmoves⟩ := components_eq path
  rw [cleaned, hcomponents]
  exact isClean_clean hlead hmoves

theorem foldl_cleanStep_names (names : List Text) (cleaned : List Component) :
    (names.map Component.normal).foldl cleanStep cleaned =
      (names.map Component.normal).reverse ++ cleaned := by
  induction names generalizing cleaned with
  | nil => rfl
  | cons name names ih => simp [ih, cleanStep]

theorem foldl_cleanStep_parents (count more : Nat) :
    (List.replicate count Component.parent).foldl cleanStep (List.replicate more .parent) =
      List.replicate (count + more) .parent := by
  induction count generalizing more with
  | zero => simp
  | succ count ih =>
      have hstep : cleanStep (List.replicate more .parent) .parent =
          List.replicate (more + 1) .parent := by
        cases more <;> rfl
      rw [List.replicate_succ, List.foldl_cons, hstep, ih, Nat.add_right_comm, Nat.add_assoc]

theorem clean_canonical {start : Start} (hstart : start ≠ .current) (names : List Text) :
    clean (canonical start names) = canonical start names := by
  have hlead : start.steps.foldl cleanStep [] = start.steps.reverse := by
    cases start with
    | root => rfl
    | current => contradiction
    | parents count => simpa [Start.steps] using foldl_cleanStep_parents count 0
  rw [clean, canonical, List.foldl_append, hlead, foldl_cleanStep_names]
  simp

theorem cleaned_eq_self_iff {path : Text} : cleaned path = path ↔ IsClean path := by
  constructor
  · intro h
    rw [← h]
    exact isClean_cleaned path
  · rintro (rfl | ⟨start, names, hstart, hnames, hne, rfl⟩)
    · rfl
    · rw [cleaned, components_canonical hnames hne, clean_canonical hstart]

def here : Text :=
  "./"

theorem current_not_mem_canonical {start : Start} (hstart : start ≠ .current) (names : List Text) :
    Component.current ∉ canonical start names := by
  rw [canonical, List.mem_append, not_or]
  refine ⟨?_, by simp⟩
  cases start with
  | root => simp [Start.steps]
  | current => contradiction
  | parents count => simp [Start.steps]

theorem IsCanonical.isClean_iff {path : Text} (h : IsCanonical path) :
    IsClean path ↔ ¬here <+: path := by
  constructor
  · rintro (rfl | ⟨start, names, hstart, hnames, hne, rfl⟩) ⟨rest, hbegins⟩
    · cases hbegins
    · have hcurrent : (components (here ++ rest)).head? = some .current := rfl
      rw [hbegins, components_canonical hnames hne] at hcurrent
      exact current_not_mem_canonical hstart names (List.mem_of_head? hcurrent)
  · intro hbegins
    obtain ⟨start, names, hnames, hne, rfl⟩ := h
    cases start with
    | root | parents => exact .inr ⟨_, names, by simp, hnames, hne, rfl⟩
    | current =>
        cases names with
        | nil => exact .inl rfl
        | cons name names => exact absurd ⟨_, rfl⟩ hbegins

theorem here_isPrefix_append {path more : Text} (hne : path ≠ []) (h : here <+: path ++ more) :
    here <+: path ∨ path = "." ∧ more.head? = some '/' := by
  obtain ⟨rest, hrest⟩ := h
  match path with
  | [] => contradiction
  | [c] =>
      cases hrest
      exact .inr ⟨rfl, rfl⟩
  | c :: d :: path =>
      cases hrest
      exact .inl ⟨path, rfl⟩

theorem IsCanonical.ne_nil {path : Text} (h : IsCanonical path) : path ≠ [] := by
  rintro rfl
  have hcomponents := h.ofComponents_components
  contradiction

end Path

namespace Workspace

open ComponentDocs.Path

theorem exists_of_sourceOf? {path source : Text} (h : IsCanonical path)
    (hsource : sourceOf? path = some source) :
    ∃ front, front ≠ [] ∧ path = front ++ ['j', 's'] ∧ source = front ++ ['t', 's'] := by
  rw [sourceOf?, Option.ite_none_right_eq_some, Option.some.injEq] at hsource
  obtain ⟨hextension, rfl⟩ := hsource
  obtain ⟨name, hname, hcut⟩ := Option.bind_eq_some_iff.mp (beq_iff_eq.mp hextension)
  obtain ⟨stem, -, rfl⟩ := cutExtension_eq hcut
  obtain ⟨front, rfl, -, -⟩ := h.exists_front_of_fileName? hname
  exact ⟨front ++ stem ++ ['.'], by simp, by simp, by simp⟩

/-- Of all candidates for a module, only the index files of the current directory step to that
directory. -/
theorem here_isPrefix_candidate {path candidate : Text} (h : IsClean path)
    (hcandidate : candidate ∈ moduleCandidates path) (hhere : here <+: candidate) :
    path = "." ∧ ∃ extension ∈ moduleExtensions, candidate = indexFile "." extension := by
  have hcanonical := h.isCanonical
  have hpath : ¬here <+: path := hcanonical.isClean_iff.mp h
  simp only [moduleCandidates, List.cons_append, List.mem_cons, List.mem_append, List.mem_map,
    Option.mem_toList] at hcandidate
  rcases hcandidate with rfl | (⟨extension, -, rfl⟩ | hsource) | ⟨extension, hmem, rfl⟩
  · contradiction
  · rcases here_isPrefix_append hcanonical.ne_nil hhere with hhere | ⟨-, hslash⟩
    · contradiction
    · cases hslash
  · obtain ⟨front, hne, rfl, rfl⟩ := exists_of_sourceOf? hcanonical hsource
    rcases here_isPrefix_append hne hhere with hhere | ⟨-, hslash⟩
    · exact absurd (hhere.trans (List.prefix_append _ _)) hpath
    · contradiction
  · rw [indexFile, inDirectory] at hhere
    split at hhere <;>
      rcases here_isPrefix_append hcanonical.ne_nil hhere with hhere | ⟨rfl, hslash⟩
    · contradiction
    · cases hslash
    · contradiction
    · exact ⟨rfl, extension, hmem, rfl⟩

theorem isClean_candidate_iff {path candidate : Text} (h : IsClean path)
    (hcandidate : candidate ∈ moduleCandidates path) :
    IsClean candidate ↔
      ¬(path = "." ∧ ∃ extension ∈ moduleExtensions, candidate = indexFile "." extension) := by
  rw [(isCanonical_of_mem_moduleCandidates h.isCanonical hcandidate).isClean_iff, not_iff_not]
  constructor
  · exact here_isPrefix_candidate h hcandidate
  · rintro ⟨-, extension, -, rfl⟩
    exact ⟨_, rfl⟩

def IsIndexHere (importer specifier path : Text) : Prop :=
  modulePath importer specifier = "." ∧
    ∃ extension ∈ moduleExtensions, path = indexFile "." extension

theorem cleaned_indexFile {extension : String} (h : extension ∈ moduleExtensions) :
    cleaned (indexFile "." extension) = withExtension "index" extension := by
  have hall : ∀ extension ∈ moduleExtensions,
      cleaned (indexFile "." extension) = withExtension "index" extension := by
    decide
  exact hall extension h

theorem isClean_of_resolveModule? {workspace : Workspace} {importer specifier path : Text}
    (h : workspace.resolveModule? importer specifier = some path) :
    workspace.isFile path = true ∧ (IsClean path ↔ ¬IsIndexHere importer specifier path) := by
  rw [resolveModule?, Option.ite_none_right_eq_some] at h
  obtain ⟨hrelative, hfind⟩ := h
  exact ⟨List.find?_some hfind,
    isClean_candidate_iff (isClean_modulePath hrelative) (List.mem_of_find?_eq_some hfind)⟩

/-- The path of a module is that of an existing file.  It is clean, unless the module is an
index file of the current directory, and then it is not.  So two imports of one module have the
same path exactly if both of their paths are clean or none is. -/
theorem module_path_clean_iff {workspace : Workspace} {importer specifier path : Text}
    (h : workspace.resolveModule? importer specifier = some path) :
    workspace.isFile path = true ∧
    (cleaned path = path ↔ IsClean path) ∧
    (IsClean path ↔ ¬IsIndexHere importer specifier path) ∧
    ∀ otherImporter otherSpecifier other,
      workspace.resolveModule? otherImporter otherSpecifier = some other →
      cleaned path = cleaned other → (path = other ↔ (IsClean path ↔ IsClean other)) := by
  obtain ⟨hfile, hclean⟩ := isClean_of_resolveModule? h
  refine ⟨hfile, cleaned_eq_self_iff, hclean, ?_⟩
  intro otherImporter otherSpecifier other hother hsame
  have hotherClean := (isClean_of_resolveModule? hother).2
  constructor
  · rintro rfl
    rfl
  · intro hboth
    by_cases hpath : IsClean path
    · rw [← cleaned_eq_self_iff.mpr hpath, hsame, cleaned_eq_self_iff.mpr (hboth.mp hpath)]
    · obtain ⟨-, extension, hmem, rfl⟩ := not_not.mp (mt hclean.mpr hpath)
      obtain ⟨-, otherExtension, hotherMem, rfl⟩ :=
        not_not.mp (mt hotherClean.mpr (mt hboth.mpr hpath))
      rw [cleaned_indexFile hmem, cleaned_indexFile hotherMem] at hsame
      exact congrArg (here ++ ·) hsame

theorem module_path_clean_iff_theme :
    ∃ workspace : Workspace,
      workspace.resolveModule? "/app/src/Button.svelte" "../shared/./theme.js" =
        some "/app/shared/theme.ts".toList ∧
      workspace.resolveModule? "/app/Page.svelte" "./lib/../shared/theme" =
        some "/app/shared/theme.ts".toList ∧
      IsClean "/app/shared/theme.ts" ∧
      cleaned "/app/shared/theme.ts" = "/app/shared/theme.ts".toList := by
  let workspace : Workspace := { files := [(components "/app/shared/theme.ts", .text [])] }
  have hbutton : workspace.resolveModule? "/app/src/Button.svelte" "../shared/./theme.js" =
      some "/app/shared/theme.ts".toList := by decide
  obtain ⟨-, hcleaned, hclean, -⟩ := module_path_clean_iff hbutton
  have hplace : ¬IsIndexHere "/app/src/Button.svelte" "../shared/./theme.js"
      "/app/shared/theme.ts" := by
    rintro ⟨hpath, -⟩
    exact absurd hpath (by decide)
  exact ⟨workspace, hbutton, by decide, hclean.mpr hplace, hcleaned.mpr (hclean.mpr hplace)⟩

/-- The index file of the current directory has two paths. -/
theorem index_file_paths_differ :
    ∃ workspace : Workspace,
      workspace.resolveModule? "Card.svelte" "./" = some "./index.ts".toList ∧
      workspace.resolveModule? "Card.svelte" "./index" = some "index.ts".toList ∧
      workspace.resolveModule? "lib/Card.svelte" "../" = some "./index.ts".toList ∧
      cleaned "./index.ts" = "index.ts".toList :=
  ⟨{ layout := .nested, files := [([.normal "index.ts"], .text [])] }, by decide⟩

end Workspace

end ComponentDocs
