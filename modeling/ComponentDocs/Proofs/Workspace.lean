import ComponentDocs.Proofs.Path
import ComponentDocs.Workspace.Modules

/-!
# Paths of modules

Every path that an import can stand for is canonical, and a file has at most two
canonical paths.  So imports refer to few paths, whatever they are written like.
-/

namespace ComponentDocs.Workspace

open ComponentDocs.Path

theorem isClean_modulePath {importer specifier : Text}
    (hrelative : Types.isRelativeSpecifier specifier = true) :
    IsClean (modulePath importer specifier) := by
  obtain ⟨lead, moves, hdirectory, hlead, hmoves⟩ := directory_eq importer
  have habsolute : isAbsolute specifier = false := by
    cases specifier with
    | nil => rfl
    | cons c rest =>
        unfold isAbsolute
        split
        · next heq =>
            cases heq
            simp [Types.isRelativeSpecifier] at hrelative
        · rfl
  rw [modulePath, hdirectory, List.append_assoc]
  apply isClean_clean hlead
  intro step hstep
  rcases List.mem_append.mp hstep with hstep | hstep
  · exact hmoves step hstep
  · exact isMove_of_mem_components habsolute hstep

variable {path : Text} {content : Content} {workspace : Workspace}

theorem isCanonical_of_sourceOf? {source : Text} (h : IsCanonical path)
    (hsource : sourceOf? path = some source) : IsCanonical source := by
  unfold sourceOf? at hsource
  split at hsource
  · next hextension =>
      cases hsource
      obtain ⟨name, hname, hcut⟩ := Option.bind_eq_some_iff.mp (beq_iff_eq.mp hextension)
      obtain ⟨stem, -, rfl⟩ := cutExtension_eq hcut
      obtain ⟨front, rfl, hstem, hfront⟩ := h.exists_front_of_fileName? hname
      have hslash : '/' ∉ stem := fun hmem => hstem.2.1 (by simp [hmem])
      have hsource := hfront (stem ++ ['.', 't', 's'])
        (isName_of_length (by simp) (by simp [hslash]))
      simpa [List.dropLast_append] using hsource
  · contradiction

theorem isCanonical_of_mem_moduleCandidates {candidate : Text} (h : IsCanonical path)
    (hcandidate : candidate ∈ moduleCandidates path) : IsCanonical candidate := by
  have hextension : ∀ extension ∈ moduleExtensions, 2 ≤ extension.toList.length ∧
      '/' ∉ extension.toList := by
    decide
  simp only [moduleCandidates, List.cons_append, List.mem_cons, List.mem_append, List.mem_map,
    Option.mem_toList] at hcandidate
  rcases hcandidate with rfl | (⟨extension, hmem, rfl⟩ | hsource) | ⟨extension, hmem, rfl⟩
  · exact h
  · obtain ⟨hlength, hslash⟩ := hextension extension hmem
    exact h.append (by simp [hslash]) (by simpa using hlength)
  · exact isCanonical_of_sourceOf? h hsource
  · obtain ⟨hlength, hslash⟩ := hextension extension hmem
    apply h.inDirectory
    exact isName_of_length (by simp [withExtension]) (by simp [withExtension, hslash])

def pathsTo (place : Place) : List Text :=
  [ofComponents place, ofComponents (.current :: place)]

theorem mem_files_of_fileAt? {place : Place}
    (h : workspace.fileAt? place = some content) : (place, content) ∈ workspace.files := by
  obtain ⟨⟨other, found⟩, hfind, hcontent⟩ := Option.map_eq_some_iff.mp h
  have hplace : other = place := by simpa using List.find?_some hfind
  cases hcontent
  rw [← hplace]
  exact List.mem_of_find?_eq_some hfind

theorem fileAt?_of_follow {names : List Text} (hnames : ∀ name ∈ names, IsName name) {place : Place}
    (h : workspace.follow place names = .file content) :
    workspace.fileAt? (place ++ names.map .normal) = some content := by
  induction names generalizing place with
  | nil => contradiction
  | cons name names ih =>
      have hname : Component.IsStep (.normal name) := hnames name (by simp)
      have hstep : Component.ofPiece? name = some (.normal name) := Component.ofPiece?_text hname
      simp only [follow, hstep] at h
      split at h
      · next found hfile =>
          split at h
          · next hlast =>
              cases h
              simpa [List.isEmpty_iff.mp hlast] using hfile
          · contradiction
      · split at h
        · simpa using ih (fun other hother => hnames other (by simp [hother])) h
        · contradiction

theorem mem_pathsTo_of_entry (hpath : IsCanonical path) (h : workspace.entry path = .file content) :
    ∃ place, (place, content) ∈ workspace.files ∧ path ∈ pathsTo place := by
  unfold entry at h
  split at h
  · split at h
    · next found hfile =>
        cases h
        refine ⟨components path, mem_files_of_fileAt? hfile, ?_⟩
        simp [pathsTo, hpath.ofComponents_components]
    · contradiction
  · split at h
    · contradiction
    · next hstart =>
        obtain ⟨start, names, hnames, hne, rfl⟩ := hpath
        have htexts : (names.map Component.normal).map Component.text = names := by
          simp [Function.comp_def, Component.text]
        cases start with
        | root => simp [canonical, Start.steps, ofComponents, isAbsolute] at hstart
        | current =>
            have hpieces := pieces_current (isStep_of_mem_map_normal hnames)
            rw [htexts] at hpieces
            rw [canonical, Start.steps, List.singleton_append, hpieces] at h
            have hfollow : workspace.follow [] names = .file content := h
            refine ⟨names.map .normal, mem_files_of_fileAt? ?_, ?_⟩
            · simpa using fileAt?_of_follow hnames hfollow
            · simp [pathsTo, canonical, Start.steps]
        | parents count =>
            rw [pieces_steps hne (isStep_of_mem_canonical_parents hnames)] at h
            cases count with
            | zero =>
                have hfollow : workspace.follow [] names = .file content := by
                  rw [← htexts]
                  exact h
                refine ⟨names.map .normal, mem_files_of_fileAt? ?_, ?_⟩
                · simpa using fileAt?_of_follow hnames hfollow
                · simp [pathsTo, canonical, Start.steps]
            | succ count => contradiction

theorem mem_pathsTo_of_resolveModule? {importer specifier target : Text}
    (h : workspace.resolveModule? importer specifier = some target) :
    ∃ place content, (place, content) ∈ workspace.files ∧ target ∈ pathsTo place ∧
      workspace.entry target = .file content := by
  unfold resolveModule? at h
  split at h
  · next hrelative =>
      have hcanonical := isCanonical_of_mem_moduleCandidates
        (isClean_modulePath hrelative).isCanonical (List.mem_of_find?_eq_some h)
      have hfile := List.find?_some h
      unfold isFile at hfile
      split at hfile
      · next content hentry =>
          obtain ⟨place, hmem, htarget⟩ := mem_pathsTo_of_entry hcanonical hentry
          exact ⟨place, content, hmem, htarget, hentry⟩
      · contradiction
  · contradiction

end ComponentDocs.Workspace
