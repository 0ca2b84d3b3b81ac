import ComponentDocs.Path.Clean
import ComponentDocs.Proofs.Text.Pieces

/-!
# Canonical paths

A canonical path has a start, which is the root, the current directory or a number
of steps upwards, and then names.  It can be read back from its text, and cleaning
a path gives a canonical one.
-/

namespace ComponentDocs

namespace Path

theorem pieces_join {texts : List Text} (hne : texts ≠ []) (h : ∀ text ∈ texts, '/' ∉ text) :
    pieces (Text.join "/" texts) = texts := by
  rw [pieces, Text.pieces_eq_splitOn, Text.join_eq_intercalate]
  exact List.splitOn_intercalate '/' h hne

def IsName (name : Text) : Prop :=
  name ≠ [] ∧ '/' ∉ name ∧ name ≠ ['.'] ∧ name ≠ ['.', '.']

variable {name path : Text} {step : Component} {names : List Text} {cleaned : List Component}

theorem isName_of_length (hlength : 3 ≤ name.length) (h : '/' ∉ name) :
    IsName name := by
  refine ⟨?_, h, ?_, ?_⟩ <;>
    · rintro rfl
      simp at hlength

def Component.IsStep : Component → Prop
  | .parent => True
  | .normal name => IsName name
  | .root | .current => False

namespace Component

theorem ofPiece?_text (h : step.IsStep) :
    ofPiece? step.text = some step := by
  cases step with
  | root | current => contradiction
  | parent => rfl
  | normal name =>
      obtain ⟨hne, -, hcurrent, hparent⟩ := h
      simp [ofPiece?, Component.text, hne, hcurrent, hparent]

theorem isStep_of_ofPiece? {piece : Text} (h : ofPiece? piece = some step)
    (hslash : '/' ∉ piece) : step.IsStep := by
  unfold ofPiece? at h
  split at h
  · contradiction
  · next hsome =>
      simp only [Bool.or_eq_true, List.isEmpty_iff, beq_iff_eq, not_or] at hsome
      split at h
      · cases h
        trivial
      · next hparent =>
          cases h
          exact ⟨hsome.1, hslash, hsome.2, by simpa using hparent⟩

theorem slash_not_mem_text (h : step.IsStep) : '/' ∉ step.text := by
  cases step with
  | root | current => contradiction
  | parent => decide
  | normal name => exact h.2.1

theorem text_ne_nil (h : step.IsStep) : step.text ≠ [] := by
  cases step with
  | root | current => contradiction
  | parent => decide
  | normal name => exact h.1

end Component

theorem isStep_of_mem_map_normal (hnames : ∀ name ∈ names, IsName name) :
    ∀ step ∈ names.map Component.normal, step.IsStep := by
  intro step hstep
  obtain ⟨name, hname, rfl⟩ := List.mem_map.mp hstep
  exact hnames name hname

theorem filterMap_ofPiece?_text {steps : List Component} (h : ∀ step ∈ steps, step.IsStep) :
    (steps.map Component.text).filterMap Component.ofPiece? = steps := by
  induction steps with
  | nil => rfl
  | cons step steps ih =>
      rw [List.map_cons, List.filterMap_cons_some (Component.ofPiece?_text (h step (by simp))),
        ih fun other hother => h other (by simp [hother])]

theorem pieces_join_text {steps : List Component} (hne : steps ≠ [])
    (h : ∀ step ∈ steps, step.IsStep) :
    pieces (Text.join "/" (steps.map Component.text)) = steps.map Component.text := by
  apply pieces_join
  · simpa using hne
  · intro text htext
    obtain ⟨step, hstep, rfl⟩ := List.mem_map.mp htext
    exact Component.slash_not_mem_text (h step hstep)

theorem isAbsolute_eq_false {first : Text} {rest : List Text}
    (hpieces : pieces path = first :: rest) (hfirst : first ≠ []) : isAbsolute path = false := by
  unfold isAbsolute
  split
  · next tail =>
      simp only [pieces, Text.pieces, beq_self_eq_true, ↓reduceIte, List.cons.injEq] at hpieces
      exact absurd hpieces.1.symm hfirst
  · rfl

theorem components_root {steps : List Component} (h : ∀ step ∈ steps, step.IsStep) :
    components (ofComponents (.root :: steps)) = .root :: steps := by
  have hpieces : (pieces (Text.join "/" (steps.map Component.text))).filterMap
      Component.ofPiece? = steps := by
    cases steps with
    | nil => rfl
    | cons step steps => rw [pieces_join_text (by simp) h, filterMap_ofPiece?_text h]
  have hall : (pieces ('/' :: Text.join "/" (steps.map Component.text))).filterMap
      Component.ofPiece? = steps := by
    exact hpieces
  simp only [components, ofComponents, hall]
  rfl

theorem pieces_current {steps : List Component} (h : ∀ step ∈ steps, step.IsStep) :
    pieces (ofComponents (.current :: steps)) = ['.'] :: steps.map Component.text := by
  refine pieces_join (by simp) fun text htext => ?_
  rcases List.mem_cons.mp htext with rfl | htext
  · decide
  · obtain ⟨step, hstep, rfl⟩ := List.mem_map.mp htext
    exact Component.slash_not_mem_text (h step hstep)

theorem components_current {steps : List Component} (h : ∀ step ∈ steps, step.IsStep) :
    components (ofComponents (.current :: steps)) = .current :: steps := by
  have hpieces := pieces_current h
  have hfilter : (['.'] :: steps.map Component.text).filterMap Component.ofPiece? = steps := by
    rw [List.filterMap_cons_none (by decide), filterMap_ofPiece?_text h]
  simp [components, hpieces, hfilter, isAbsolute_eq_false hpieces (by simp)]

theorem pieces_steps {steps : List Component} (hne : steps ≠ [])
    (h : ∀ step ∈ steps, step.IsStep) :
    pieces (ofComponents steps) = steps.map Component.text := by
  obtain ⟨first, rest, rfl⟩ := List.exists_cons_of_ne_nil hne
  have hfirst : first.IsStep := h first (by simp)
  cases first with
  | root | current => contradiction
  | parent | normal => exact pieces_join_text hne h

theorem components_steps {steps : List Component} (hne : steps ≠ [])
    (h : ∀ step ∈ steps, step.IsStep) : components (ofComponents steps) = steps := by
  have hpieces := pieces_steps hne h
  obtain ⟨first, rest, rfl⟩ := List.exists_cons_of_ne_nil hne
  have hfirst : first.IsStep := h first (by simp)
  have hnone : first.text ≠ ['.'] := by
    cases first with
    | root | current => contradiction
    | parent => decide
    | normal name => exact hfirst.2.2.1
  simp only [components, hpieces, filterMap_ofPiece?_text h,
    isAbsolute_eq_false hpieces (Component.text_ne_nil hfirst)]
  simp [hnone]

inductive Start where
  | root
  | current
  | parents (count : Nat)

def Start.steps : Start → List Component
  | .root => [.root]
  | .current => [.current]
  | .parents count => List.replicate count .parent

def canonical (start : Start) (names : List Text) : List Component :=
  start.steps ++ names.map .normal

def IsCanonical (path : Text) : Prop :=
  ∃ start names, (∀ name ∈ names, IsName name) ∧ canonical start names ≠ [] ∧
    path = ofComponents (canonical start names)

/-- A path without detours: the current directory, or names behind the root or behind steps
upwards. -/
def IsClean (path : Text) : Prop :=
  path = "." ∨ ∃ start names, start ≠ .current ∧ (∀ name ∈ names, IsName name) ∧
    canonical start names ≠ [] ∧ path = ofComponents (canonical start names)

theorem IsClean.isCanonical (h : IsClean path) : IsCanonical path := by
  rcases h with rfl | ⟨start, names, -, hnames, hne, rfl⟩
  · exact ⟨.current, [], List.forall_mem_nil _, List.cons_ne_nil _ _, rfl⟩
  · exact ⟨start, names, hnames, hne, rfl⟩

theorem isStep_of_mem_canonical_parents {count : Nat} (hnames : ∀ name ∈ names, IsName name) :
    ∀ step ∈ canonical (.parents count) names, step.IsStep := by
  intro step hstep
  rcases List.mem_append.mp hstep with hparent | hname
  · rw [List.eq_of_mem_replicate hparent]
    trivial
  · exact isStep_of_mem_map_normal hnames step hname

variable {start : Start}

theorem components_canonical (hnames : ∀ name ∈ names, IsName name)
    (hne : canonical start names ≠ []) :
    components (ofComponents (canonical start names)) = canonical start names := by
  cases start with
  | root => exact components_root (isStep_of_mem_map_normal hnames)
  | current => exact components_current (isStep_of_mem_map_normal hnames)
  | parents count => exact components_steps hne (isStep_of_mem_canonical_parents hnames)

theorem IsCanonical.ofComponents_components (h : IsCanonical path) :
    ofComponents (components path) = path := by
  obtain ⟨start, names, hnames, hne, rfl⟩ := h
  rw [components_canonical hnames hne]

/-! ## Cleaning -/

def Component.IsMove (step : Component) : Prop :=
  step = .current ∨ step.IsStep

theorem isStep_of_mem_pieces (h : step ∈ (pieces path).filterMap Component.ofPiece?) :
    step.IsStep := by
  obtain ⟨piece, hpiece, hstep⟩ := List.mem_filterMap.mp h
  exact Component.isStep_of_ofPiece? hstep (Text.mark_not_mem_of_mem_pieces hpiece)

theorem isMove_of_mem_components (h : isAbsolute path = false)
    (hstep : step ∈ components path) : step.IsMove := by
  simp only [components, h, Bool.false_eq_true, ↓reduceIte] at hstep
  split at hstep
  · rcases List.mem_cons.mp hstep with rfl | hstep
    · exact .inl rfl
    · exact .inr (isStep_of_mem_pieces hstep)
  · exact .inr (isStep_of_mem_pieces hstep)

theorem directory_eq (path : Text) :
    ∃ lead moves, directory path = lead ++ moves ∧ (lead = [] ∨ lead = [.root]) ∧
      ∀ step ∈ moves, step.IsMove := by
  cases habsolute : isAbsolute path with
  | false =>
      refine ⟨[], directory path, rfl, .inl rfl, fun step hstep => ?_⟩
      dsimp only [directory] at hstep
      split at hstep
      · contradiction
      · exact isMove_of_mem_components habsolute (List.mem_of_mem_dropLast hstep)
  | true =>
      simp only [directory, components, habsolute, ↓reduceIte]
      generalize hsteps : (pieces path).filterMap Component.ofPiece? = steps
      cases steps with
      | nil => exact ⟨[], [], rfl, .inl rfl, by simp⟩
      | cons first rest =>
          have hlast : (first :: rest).getLast? ≠ some .root := by
            intro hroot
            have hmem := List.mem_of_getLast? hroot
            rw [← hsteps] at hmem
            exact isStep_of_mem_pieces hmem
          refine ⟨[.root], (first :: rest).dropLast, by simp [hlast], .inr rfl, ?_⟩
          intro step hstep
          have hmem := List.mem_of_mem_dropLast hstep
          rw [← hsteps] at hmem
          exact .inr (isStep_of_mem_pieces hmem)

inductive IsCleaned : List Component → Prop
  | root : IsCleaned [.root]
  | parents (count : Nat) : IsCleaned (List.replicate count .parent)
  | normal {cleaned : List Component} {name : Text} (hname : IsName name)
      (h : IsCleaned cleaned) : IsCleaned (.normal name :: cleaned)

theorem IsCleaned.cleanStep (h : IsCleaned cleaned)
    (hstep : step.IsMove) : IsCleaned (cleanStep cleaned step) := by
  rcases hstep with rfl | hstep
  · simpa [Path.cleanStep] using h
  · cases step with
    | root | current => contradiction
    | normal name => simpa [Path.cleanStep] using IsCleaned.normal hstep h
    | parent =>
        cases h with
        | root => exact .root
        | normal hname h => exact h
        | parents count =>
            cases count with
            | zero => exact .parents 1
            | succ count => exact .parents (count + 2)

theorem IsCleaned.foldl_cleanStep {moves : List Component} (hmoves : ∀ step ∈ moves, step.IsMove)
    (h : IsCleaned cleaned) :
    IsCleaned (moves.foldl Path.cleanStep cleaned) := by
  induction moves generalizing cleaned with
  | nil => exact h
  | cons step moves ih =>
      exact ih (fun other hother => hmoves other (by simp [hother]))
        (h.cleanStep (hmoves step (by simp)))

theorem IsCleaned.reverse_eq_canonical (h : IsCleaned cleaned) :
    ∃ start names, start ≠ Start.current ∧ (∀ name ∈ names, IsName name) ∧
      cleaned.reverse = canonical start names := by
  induction h with
  | root => exact ⟨.root, [], by simp, by simp, rfl⟩
  | parents count =>
      exact ⟨.parents count, [], by simp, by simp, by simp [canonical, Start.steps]⟩
  | @normal cleaned name hname h ih =>
      obtain ⟨start, names, hstart, hnames, heq⟩ := ih
      refine ⟨start, names ++ [name], hstart, ?_, by simp [heq, canonical]⟩
      intro other hother
      rcases List.mem_append.mp hother with hother | hother
      · exact hnames other hother
      · rwa [List.mem_singleton.mp hother]

theorem isClean_clean {lead moves : List Component} (hlead : lead = [] ∨ lead = [.root])
    (hmoves : ∀ step ∈ moves, step.IsMove) :
    IsClean (ofComponents (clean (lead ++ moves))) := by
  have hcleaned : IsCleaned ((lead ++ moves).foldl cleanStep []) := by
    rw [List.foldl_append]
    apply IsCleaned.foldl_cleanStep hmoves
    rcases hlead with rfl | rfl
    · exact .parents 0
    · exact .root
  obtain ⟨start, names, hstart, hnames, heq⟩ := hcleaned.reverse_eq_canonical
  rw [clean, heq]
  by_cases hne : canonical start names = []
  · -- The text of no steps is that of the current directory.
    rw [hne]
    exact .inl rfl
  · exact .inr ⟨start, names, hstart, hnames, hne, rfl⟩

theorem ofComponents_concat {steps : List Component} (hne : steps ≠ []) (hroot : steps ≠ [.root])
    (step : Component) :
    ofComponents (steps ++ [step]) = ofComponents steps ++ '/' :: step.text := by
  obtain ⟨first, rest, rfl⟩ := List.exists_cons_of_ne_nil hne
  have hconcat : ∀ texts : List Text, texts ≠ [] →
      Text.join "/" (texts ++ [step.text]) = Text.join "/" texts ++ '/' :: step.text := by
    intro texts htexts
    rw [Text.join_concat htexts]
    simp
  cases first with
  | root =>
      have htexts : rest.map Component.text ≠ [] := by
        simpa using hroot
      simpa [ofComponents] using hconcat _ htexts
  | current | parent | normal =>
      simpa [ofComponents] using hconcat _ (List.cons_ne_nil _ (rest.map Component.text))

theorem exists_front (steps : List Component) :
    ∃ front : Text, ∀ step : Component, step.IsStep →
      ofComponents (steps ++ [step]) = front ++ step.text := by
  by_cases hne : steps = []
  · refine ⟨[], fun step hstep => ?_⟩
    subst hne
    cases step with
    | root | current => contradiction
    | parent | normal => rfl
  · by_cases hroot : steps = [.root]
    · subst hroot
      exact ⟨"/", fun step _ => rfl⟩
    · refine ⟨ofComponents steps ++ ['/'], fun step _ => ?_⟩
      simp [ofComponents_concat hne hroot]

theorem canonical_concat (start : Start) (names : List Text) (name : Text) :
    canonical start (names ++ [name]) = canonical start names ++ [.normal name] := by
  simp [canonical]

theorem isCanonical_concat (start : Start) (hnames : ∀ name ∈ names, IsName name)
    (hname : IsName name) :
    IsCanonical (ofComponents (canonical start names ++ [.normal name])) := by
  refine ⟨start, names ++ [name], ?_, by simp [canonical], by rw [canonical_concat]⟩
  intro other hother
  rcases List.mem_append.mp hother with hother | hother
  · exact hnames other hother
  · rwa [List.mem_singleton.mp hother]

theorem canonical_eq_concat (hnames : ∀ name ∈ names, IsName name)
    (hne : canonical start names ≠ []) :
    canonical start names = [.root] ∨ canonical start names = [.current] ∨
      ∃ before others step, canonical start names = canonical before others ++ [step] ∧
        step.IsStep ∧ ∀ name ∈ others, IsName name := by
  rcases List.eq_nil_or_concat' names with rfl | ⟨others, last, rfl⟩
  · cases start with
    | root => exact .inl rfl
    | current => exact .inr (.inl rfl)
    | parents count =>
        cases count with
        | zero => exact absurd rfl hne
        | succ count =>
            refine .inr (.inr ⟨.parents count, [], .parent, ?_, trivial, by simp⟩)
            simp [canonical, Start.steps, List.replicate_succ']
  · have hothers : ∀ name ∈ others, IsName name := fun name h => hnames name (by simp [h])
    exact .inr (.inr
      ⟨start, others, .normal last, canonical_concat start others last, hnames last (by simp),
        hothers⟩)

theorem IsCanonical.append {suffix : Text} (h : IsCanonical path) (hslash : '/' ∉ suffix)
    (hlength : 3 ≤ suffix.length) : IsCanonical (path ++ suffix) := by
  obtain ⟨start, names, hnames, hne, rfl⟩ := h
  have hlong : ∀ text : Text, '/' ∉ text → IsName (text ++ suffix) := by
    intro text htext
    exact isName_of_length (by simp only [List.length_append]; omega) (by simp [htext, hslash])
  rcases canonical_eq_concat hnames hne with hroot | hcurrent |
    ⟨before, others, step, hconcat, hstep, hothers⟩
  · rw [hroot]
    exact isCanonical_concat .root (List.forall_mem_nil _) (hlong [] (by simp))
  · rw [hcurrent]
    exact isCanonical_concat (.parents 0) (List.forall_mem_nil _) (hlong ['.'] (by decide))
  · obtain ⟨front, hfront⟩ := exists_front (canonical before others)
    have hname := hlong step.text (Component.slash_not_mem_text hstep)
    have htext : ofComponents (canonical before others ++ [step]) ++ suffix =
        ofComponents (canonical before others ++ [.normal (step.text ++ suffix)]) := by
      rw [hfront step hstep, hfront (.normal (step.text ++ suffix)) hname, List.append_assoc]
      rfl
    rw [hconcat, htext]
    exact isCanonical_concat before hothers hname

theorem getLast?_ofComponents_ne (hnames : ∀ name ∈ names, IsName name)
    (hne : canonical start names ≠ []) (hroot : canonical start names ≠ [.root]) :
    (ofComponents (canonical start names)).getLast? ≠ some '/' := by
  rcases canonical_eq_concat hnames hne with h | hcurrent |
    ⟨before, others, step, hconcat, hstep, -⟩
  · contradiction
  · rw [hcurrent]
    decide
  · obtain ⟨front, hfront⟩ := exists_front (canonical before others)
    rw [hconcat, hfront step hstep, List.getLast?_append_of_ne_nil _ (Component.text_ne_nil hstep)]
    intro hlast
    exact Component.slash_not_mem_text hstep (List.mem_of_getLast? hlast)

theorem IsCanonical.inDirectory (h : IsCanonical path) (hname : IsName name) :
    IsCanonical (inDirectory path name) := by
  obtain ⟨start, names, hnames, hne, rfl⟩ := h
  have hconcat := isCanonical_concat start hnames hname
  by_cases hroot : canonical start names = [.root]
  · rw [hroot] at hconcat ⊢
    exact hconcat
  · rw [ofComponents_concat hne hroot] at hconcat
    unfold Path.inDirectory
    rw [if_neg (by simpa using getLast?_ofComponents_ne hnames hne hroot)]
    exact hconcat

/-! ## Extensions -/

theorem cutExtension_eq {extension : Text} (h : (cutExtension name).2 = some extension) :
    ∃ stem, stem ≠ [] ∧ name = stem ++ '.' :: extension := by
  unfold cutExtension at h
  split at h
  · next reversed stem hcut =>
      split at h
      · contradiction
      · next hstem =>
          cases h
          obtain ⟨mark, hmark, hname⟩ := Text.eq_append_of_cutAt? hcut
          refine ⟨stem.reverse, by simpa using hstem, ?_⟩
          rw [← List.reverse_reverse name, hname, beq_iff_eq.mp hmark]
          simp
  · contradiction

theorem IsCanonical.exists_front_of_fileName? (h : IsCanonical path)
    (hname : fileName? path = some name) :
    ∃ front : Text, path = front ++ name ∧ IsName name ∧
      ∀ other, IsName other → IsCanonical (front ++ other) := by
  obtain ⟨start, names, hnames, hne, rfl⟩ := h
  rw [fileName?, components_canonical hnames hne] at hname
  rcases canonical_eq_concat hnames hne with hroot | hcurrent |
    ⟨before, others, step, hconcat, hstep, hothers⟩
  · rw [hroot] at hname
    contradiction
  · rw [hcurrent] at hname
    contradiction
  · obtain ⟨front, hfront⟩ := exists_front (canonical before others)
    rw [hconcat, List.getLast?_concat] at hname
    cases step with
    | root | current | parent => contradiction
    | normal last =>
        cases hname
        refine ⟨front, by rw [hconcat, hfront _ hstep]; rfl, hstep, fun other hother => ?_⟩
        have hcanonical := isCanonical_concat before hothers hother
        rwa [hfront (.normal other) hother] at hcanonical

end Path

end ComponentDocs
