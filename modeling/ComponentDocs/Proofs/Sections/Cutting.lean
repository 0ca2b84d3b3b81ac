import ComponentDocs.Proofs.Sections.Rounds
import Mathlib.Logic.Function.Iterate

/-!
# Cutting a source at byte offsets

The sections of a source, found by a machine that sees it as bytes and goes from one offset to
another: it looks for the scripts, then for the style, and then puts the rest together.  The
search for the style may go back, from behind a style to the end of the script that it begins in.
The machine comes to an end, at the sections of the source, and never cuts where the source cannot
be cut.
-/

namespace ComponentDocs

open Text (IsBoundary byteCount byteCount_append bytes findBytes? slice?)

namespace Cut

def findChar? (p : Char → Bool) (text : Text) : Option Nat :=
  (Text.cutAt? p text).map fun cut => byteCount cut.1

def value? : Text → Option Text
  | [] => some []
  | c :: rest =>
      if c == '"' || c == '\'' then do
        let inside ← slice? (c :: rest) 1 (byteCount (c :: rest))
        match findChar? (· == c) inside with
        | none => return []
        | some length => slice? (c :: rest) 1 (length + 1)
      else
        let length? := findChar? (fun d => Text.isSpace d || d == '>') (c :: rest)
        slice? (c :: rest) 0 (length?.getD (byteCount (c :: rest)))

def language? (attributes : Text) : Option Text :=
  match findBytes? (bytes "lang=") (bytes attributes) with
  | none => some Block.defaultLanguage
  | some length => do
      let behind ← slice? attributes (length + byteCount "lang=") (byteCount attributes)
      let value ← value? (Text.trimStart behind)
      return if value.isEmpty then Block.defaultLanguage else value

theorem getD_findChar? (p : Char → Bool) (text : Text) :
    (findChar? p text).getD (byteCount text) = byteCount (text.takeWhile fun c => !p c) := by
  induction text with
  | nil => rfl
  | cons c rest ih =>
      rw [findChar?] at ih ⊢
      cases hc : p c with
      | true => simp [Text.cutAt?, hc, byteCount]
      | false =>
          rw [Text.cutAt?, List.takeWhile_cons, hc, Bool.not_false, if_pos rfl,
            if_neg Bool.false_ne_true, byteCount, byteCount, ← ih]
          cases Text.cutAt? p rest <;> rfl

theorem slice?_findChar? (p : Char → Bool) (text : Text) :
    slice? text 0 ((findChar? p text).getD (byteCount text)) =
      some (text.takeWhile fun c => !p c) := by
  have hslice := Text.slice?_append [] (text.takeWhile fun c => !p c)
    (text.dropWhile fun c => !p c)
  rwa [List.nil_append, List.takeWhile_append_dropWhile, byteCount, Nat.zero_add,
    ← getD_findChar?] at hslice

theorem value?_eq (text : Text) : value? text = some (Block.attributeValue text) := by
  cases text with
  | nil => rfl
  | cons c rest =>
      rw [value?, Block.attributeValue]
      split
      · next hquote =>
          have hsize : byteCount [c] = 1 := by
            rw [Bool.or_eq_true, beq_iff_eq, beq_iff_eq] at hquote
            rcases hquote with rfl | rfl <;> rfl
          have hinside : slice? (c :: rest) 1 (byteCount (c :: rest)) = some rest := by
            have hslice := Text.slice?_append [c] rest []
            rwa [List.append_nil, ← byteCount_append, hsize] at hslice
          simp only [Option.bind_eq_bind, hinside, Option.bind_some, findChar?]
          cases hcut : Text.cutAt? (· == c) rest with
          | none => rfl
          | some parts =>
              obtain ⟨value, behind⟩ := parts
              obtain ⟨d, -, rfl⟩ := Text.eq_append_of_cutAt? hcut
              have hslice := Text.slice?_append [c] value (d :: behind)
              rw [hsize, Nat.add_comm] at hslice
              exact hslice
      · exact slice?_findChar? (fun d => Text.isSpace d || d == '>') (c :: rest)

theorem language?_eq (block : Block) : language? block.attributes = some block.language := by
  have hne : ("lang=" : Text) ≠ [] := by decide
  rw [language?, Text.findBytes?_bytes hne (by decide), Block.language]
  cases hcut : Text.cut? "lang=" block.attributes with
  | none => rfl
  | some parts =>
      obtain ⟨before, behind⟩ := parts
      have hslice := Text.slice?_append (before ++ "lang=") behind []
      rw [List.append_nil, ← (Text.eq_append_of_cut? hcut hne).1, ← byteCount_append,
        ← (Text.eq_append_of_cut? hcut hne).1, byteCount_append] at hslice
      simp only [Option.map_some, Option.bind_eq_bind, hslice, Option.bind_some, value?_eq]
      rfl

end Cut

/-! ## The machine -/

def Cut.block (cut : Cut) : Block :=
  ⟨cut.start, cut.stop, cut.attributes, cut.content⟩

/-- What has been found in a source so far. -/
structure Progress where
  instanceScript : Option Text
  moduleScript : Option Text
  language : Text
  style : Text
  removed : List (Nat × Nat)
  deriving DecidableEq, Repr

namespace Progress

def nothing : Progress :=
  ⟨none, none, Block.defaultLanguage, [], []⟩

def script? (found : Progress) (cut : Cut) : Option Progress :=
  if cut.block.isModule then
    if found.moduleScript.isSome then some found
    else some { found with
      moduleScript := some cut.content
      removed := found.removed ++ [(cut.start, cut.stop)] }
  else if found.instanceScript.isSome then some found
  else (Cut.language? cut.attributes).map fun language =>
    { found with
      instanceScript := some cut.content
      language := language
      removed := found.removed ++ [(cut.start, cut.stop)] }

def withStyle (found : Progress) (cut : Cut) : Progress :=
  { found with style := cut.content, removed := found.removed ++ [(cut.start, cut.stop)] }

def around? (found : Progress) (offset : Nat) : Option (Nat × Nat) :=
  found.removed.find? fun range => range.1 ≤ offset && offset < range.2

def sections (found : Progress) (template : Text) : Sections :=
  { script := found.instanceScript.getD []
    language := found.language
    moduleScript := found.moduleScript.getD []
    template := template
    style := found.style }

end Progress

/-- What the machine is about to do. -/
inductive CutState where
  | seekScript (pointer : Nat) (found : Progress)
  | script (cut : Cut) (found : Progress)
  | seekStyle (pointer : Nat) (found : Progress)
  | style (cut : Cut) (found : Progress)
  | merge (cursor : Nat) (removed : List (Nat × Nat)) (template : Text) (found : Progress)
  | done (sections : Sections)
  /-- The source had to be cut where it cannot be cut. -/
  | failed
  deriving DecidableEq, Repr

namespace CutState

def start : CutState :=
  .seekScript 0 .nothing

def startMerge (found : Progress) : CutState :=
  .merge 0 (found.removed.insertionSort (Prod.Lex (· < ·) (· ≤ ·))) [] found

def step (source : Text) : CutState → CutState
  | .seekScript pointer found =>
      match Round.seek "script" source pointer with
      | none => .failed
      | some .nothing => .seekStyle 0 found
      | some (.onward later) => .seekScript later found
      | some (.found cut) => .script cut found
  | .script cut found =>
      match found.script? cut with
      | none => .failed
      | some found => .seekScript cut.stop found
  | .seekStyle pointer found =>
      match Round.seek "style" source pointer with
      | none => .failed
      | some .nothing => startMerge found
      | some (.onward later) => .seekStyle later found
      | some (.found cut) => .style cut found
  | .style cut found =>
      -- a style that begins in a script is content of the script
      match found.around? cut.start with
      | some (_, stop) => .seekStyle stop found
      | none => startMerge (found.withStyle cut)
  | .merge cursor [] template found =>
      match slice? source cursor (byteCount source) with
      | none => .failed
      | some last => .done (found.sections (template ++ last))
  | .merge cursor ((start, stop) :: removed) template found =>
      if start < cursor then .merge cursor removed template found
      else
        match slice? source cursor start with
        | none => .failed
        | some part => .merge stop removed (template ++ part) found
  | .done sections => .done sections
  | .failed => .failed

end CutState

theorem isTagName_script : IsTagName "script" :=
  ⟨by decide, by decide, by decide⟩

theorem isTagName_style : IsTagName "style" :=
  ⟨by decide, by decide, by decide⟩

def IsStretch (source : Text) (range : Nat × Nat) : Prop :=
  IsBoundary source range.1 ∧ IsBoundary source range.2

/-- What was found are parts of the source, and it can be cut where something was removed. -/
structure Progress.Sound (source : Text) (found : Progress) : Prop where
  instanceScript : ∀ content ∈ found.instanceScript, content <:+: source
  moduleScript : ∀ content ∈ found.moduleScript, content <:+: source
  style : found.style <:+: source
  removed : ∀ range ∈ found.removed, IsStretch source range

/-- Whether the source can be cut at all offsets that the machine holds, and what it has cut out
are parts of the source. -/
def CutState.Sound (source : Text) : CutState → Prop
  | .seekScript pointer found => IsBoundary source pointer ∧ found.Sound source
  | .script cut found => cut.Sound source ∧ found.Sound source
  | .seekStyle pointer found => IsBoundary source pointer ∧ found.Sound source
  | .style cut found => cut.Sound source ∧ found.Sound source
  | .merge cursor removed _ found =>
      IsBoundary source cursor ∧ (∀ range ∈ removed, IsStretch source range) ∧ found.Sound source
  | .done sections =>
      sections.script <:+: source ∧ sections.moduleScript <:+: source ∧ sections.style <:+: source
  | .failed => False

section Sound

variable {source : Text} {cut : Cut} {found : Progress}

theorem Cut.Sound.isStretch (h : cut.Sound source) : IsStretch source (cut.start, cut.stop) :=
  ⟨h.boundaries _ (by simp [Cut.offsets]), h.boundaries _ (by simp [Cut.offsets])⟩

theorem Cut.Sound.content_isInfix (h : cut.Sound source) : cut.content <:+: source :=
  Text.isInfix_of_slice? h.content

theorem Progress.Sound.removed_append (h : found.Sound source) (hcut : cut.Sound source) :
    ∀ range ∈ found.removed ++ [(cut.start, cut.stop)], IsStretch source range := by
  rw [List.forall_mem_append]
  exact ⟨h.removed, List.forall_mem_singleton.mpr hcut.isStretch⟩

theorem Progress.Sound.script? (h : found.Sound source) (hcut : cut.Sound source) :
    ∃ next, found.script? cut = some next ∧ next.Sound source := by
  have hcontent : ∀ content ∈ some cut.content, content <:+: source := by
    rintro content ⟨⟩
    exact hcut.content_isInfix
  unfold Progress.script?
  split
  · split
    · exact ⟨found, rfl, h⟩
    · exact ⟨_, rfl, h.instanceScript, hcontent, h.style, h.removed_append hcut⟩
  · split
    · exact ⟨found, rfl, h⟩
    · have hlanguage : Cut.language? cut.attributes = some cut.block.language :=
        Cut.language?_eq cut.block
      rw [hlanguage]
      exact ⟨_, rfl, hcontent, h.moduleScript, h.style, h.removed_append hcut⟩

theorem Progress.Sound.withStyle (h : found.Sound source) (hcut : cut.Sound source) :
    (found.withStyle cut).Sound source :=
  ⟨h.instanceScript, h.moduleScript, hcut.content_isInfix, h.removed_append hcut⟩

theorem Progress.Sound.sections (h : found.Sound source) (template : Text) :
    (CutState.done (found.sections template)).Sound source := by
  have hgetD {content? : Option Text} (hcontent : ∀ content ∈ content?, content <:+: source) :
      content?.getD [] <:+: source := by
    cases content? with
    | none => exact List.nil_infix
    | some content => exact hcontent content rfl
  exact ⟨hgetD h.instanceScript, hgetD h.moduleScript, h.style⟩

theorem Progress.Sound.startMerge (h : found.Sound source) :
    (CutState.startMerge found).Sound source := by
  refine ⟨Text.isBoundary_zero source, fun range hrange => ?_, h⟩
  exact h.removed range ((List.mem_insertionSort _).mp hrange)

theorem CutState.Sound.step {state : CutState} (h : state.Sound source) :
    (state.step source).Sound source := by
  cases state with
  | seekScript pointer found =>
      obtain ⟨⟨position, hposition, rfl⟩, hfound⟩ := h
      have hspec := Round.seek_spec isTagName_script source hposition
      rw [CutState.step]
      generalize Round.seek "script" source (source.offset position) = round at hspec ⊢
      cases hspec with
      | nothing => exact ⟨Text.isBoundary_zero source, hfound⟩
      | onward _ le => exact ⟨⟨_, le, rfl⟩, hfound⟩
      | found _ _ _ _ sound => exact ⟨sound, hfound⟩
  | script cut found =>
      obtain ⟨next, hnext, hsound⟩ := h.2.script? h.1
      rw [CutState.step, hnext]
      exact ⟨h.1.isStretch.2, hsound⟩
  | seekStyle pointer found =>
      obtain ⟨⟨position, hposition, rfl⟩, hfound⟩ := h
      have hspec := Round.seek_spec isTagName_style source hposition
      rw [CutState.step]
      generalize Round.seek "style" source (source.offset position) = round at hspec ⊢
      cases hspec with
      | nothing => exact hfound.startMerge
      | onward _ le => exact ⟨⟨_, le, rfl⟩, hfound⟩
      | found _ _ _ _ sound => exact ⟨sound, hfound⟩
  | style cut found =>
      rw [CutState.step]
      split
      · next outer stop hinside =>
          exact ⟨(h.2.removed _ (List.mem_of_find?_eq_some hinside)).2, h.2⟩
      · exact (h.2.withStyle h.1).startMerge
  | merge cursor removed template found =>
      obtain ⟨hcursor, hremoved, hfound⟩ := h
      cases removed with
      | nil =>
          obtain ⟨last, hslice⟩ := Text.exists_slice? hcursor (Text.isBoundary_byteCount source)
            (Text.IsBoundary.le_byteCount hcursor)
          rw [CutState.step, hslice]
          exact hfound.sections (template ++ last)
      | cons range removed =>
          obtain ⟨hrange, hremoved⟩ := List.forall_mem_cons.mp hremoved
          rw [CutState.step]
          split
          · exact ⟨hcursor, hremoved, hfound⟩
          · next hbehind =>
              obtain ⟨part, hslice⟩ :=
                Text.exists_slice? hcursor hrange.1 (Nat.le_of_not_lt hbehind)
              rw [hslice]
              exact ⟨hrange.2, hremoved, hfound⟩
  | done sections => exact h
  | failed => exact h

theorem CutState.sound_iterate (source : Text) (n : Nat) :
    ((CutState.step source)^[n] .start).Sound source := by
  induction n with
  | zero =>
      exact ⟨Text.isBoundary_zero source, by simp [Progress.nothing], by simp [Progress.nothing],
        List.nil_infix, by simp [Progress.nothing]⟩
  | succ n ih =>
      rw [Function.iterate_succ_apply']
      exact ih.step

end Sound

namespace CutState

/-- Whether the machine comes from one state to another in no more than a number of steps. -/
def Within (source : Text) (bound : Nat) (state later : CutState) : Prop :=
  ∃ n ≤ bound, (step source)^[n] state = later

namespace Within

variable {source : Text} {bound more : Nat} {state later last : CutState}

theorem refl (source : Text) (state : CutState) : Within source 0 state state :=
  ⟨0, Nat.le_refl _, rfl⟩

theorem next (h : Within source bound (state.step source) later) :
    Within source (bound + 1) state later := by
  obtain ⟨n, hn, hrun⟩ := h
  exact ⟨n + 1, Nat.succ_le_succ hn, hrun⟩

theorem mono (h : Within source bound state later) (hle : bound ≤ more) :
    Within source more state later := by
  obtain ⟨n, hn, hrun⟩ := h
  exact ⟨n, hn.trans hle, hrun⟩

theorem trans (h : Within source bound state later) (h' : Within source more later last) :
    Within source (bound + more) state last := by
  obtain ⟨n, hn, hrun⟩ := h
  obtain ⟨m, hm, hrun'⟩ := h'
  refine ⟨m + n, by omega, ?_⟩
  rw [Function.iterate_add_apply, hrun, hrun']

end Within

end CutState

/-! ## The scripts -/

namespace Block

def range (source : Text) (block : Block) : Nat × Nat :=
  (source.offset block.start, source.offset block.stop)

def first? (inModule : Bool) (scripts : List Block) : Option Block :=
  scripts.find? fun block => block.isModule == inModule

def firstOnes (scripts : List Block) : List Block :=
  scripts.filter fun block => some block == first? block.isModule scripts

variable {scripts : List Block} {block : Block}

theorem first?_true (scripts : List Block) : first? true scripts = scripts.find? isModule := by
  simp [first?]

theorem first?_false (scripts : List Block) :
    first? false scripts = scripts.find? fun block => !block.isModule := by
  simp [first?]

theorem isModule_of_first? {inModule : Bool} (h : first? inModule scripts = some block) :
    block.isModule = inModule := by
  have hkind := List.find?_some h
  exact eq_of_beq hkind

theorem firstOnes_eq (scripts : List Block) :
    firstOnes scripts = scripts.filter fun block =>
      some block == scripts.find? (fun block => !block.isModule) ||
        some block == scripts.find? isModule := by
  rw [← first?_false, ← first?_true]
  refine List.filter_congr fun block _ => ?_
  rw [Bool.eq_iff_iff, Bool.or_eq_true, beq_iff_eq, beq_iff_eq, beq_iff_eq]
  constructor
  · intro h
    cases hkind : block.isModule with
    | true => exact .inr (hkind ▸ h)
    | false => exact .inl (hkind ▸ h)
  · rintro (h | h) <;> rwa [isModule_of_first? h.symm]

theorem mem_of_first? {inModule : Bool} (h : first? inModule scripts = some block) :
    block ∈ scripts :=
  List.mem_of_find?_eq_some h

theorem first?_concat (inModule : Bool) (scripts : List Block) (block : Block) :
    first? inModule (scripts ++ [block]) =
      (first? inModule scripts).or (if block.isModule == inModule then some block else none) := by
  rw [first?, List.find?_append, List.find?_singleton]
  rfl

theorem firstOnes_concat (h : block ∉ scripts) :
    firstOnes (scripts ++ [block]) =
      firstOnes scripts ++ if (first? block.isModule scripts).isSome then [] else [block] := by
  rw [firstOnes, List.filter_append]
  congr 1
  · refine List.filter_congr fun other hother => ?_
    have hsome : (first? other.isModule scripts).isSome :=
      List.find?_isSome.mpr ⟨other, hother, BEq.rfl⟩
    rw [first?_concat, Option.or_of_isSome hsome]
  · rw [List.filter_singleton, first?_concat, BEq.rfl, if_pos rfl]
    cases hfirst : first? block.isModule scripts with
    | none => simp
    | some other =>
        have hne : block ≠ other := by
          rintro rfl
          exact h (mem_of_first? hfirst)
        rw [Option.some_or, Option.some_beq_some, beq_false_of_ne hne]
        rfl

end Block

def Progress.ofScripts (source : Text) (scripts : List Block) : Progress :=
  { instanceScript := (Block.first? false scripts).map Block.content
    moduleScript := (Block.first? true scripts).map Block.content
    language := ((Block.first? false scripts).map Block.language).getD Block.defaultLanguage
    style := []
    removed := (Block.firstOnes scripts).map (Block.range source) }

theorem Progress.script?_ofScripts {source : Text} {scripts : List Block} {block : Block}
    {cut : Cut} (hmarks : cut.Marks source block) (hnew : block ∉ scripts) :
    (ofScripts source scripts).script? cut = some (ofScripts source (scripts ++ [block])) := by
  have hkind : cut.block.isModule = block.isModule := by
    simp only [Block.isModule, Cut.block, hmarks.attributes]
  have hlanguage : Cut.language? cut.attributes = some block.language := by
    rw [hmarks.attributes, Cut.language?_eq]
  have hrange : (cut.start, cut.stop) = block.range source := by
    rw [hmarks.start, hmarks.stop, Block.range]
  simp only [script?, ofScripts, hkind, Option.isSome_map, Block.first?_concat,
    Block.firstOnes_concat hnew, hlanguage, hrange, hmarks.content]
  cases hmodule : block.isModule with
  | true =>
      cases hfirst : Block.first? true scripts with
      | none => simp
      | some first => simp
  | false =>
      cases hfirst : Block.first? false scripts with
      | none => simp
      | some first => simp

variable {position : Nat}

theorem CutState.within_scripts {source : Text} (hposition : position ≤ source.length)
    {seen : List Block} (hseen : seen ++ Block.allFrom "script" 0 position (source.drop position) =
      Block.all "script" source) :
    Within source (2 * (source.length - position) + 1)
      (.seekScript (source.offset position) (.ofScripts source seen))
      (.seekStyle 0 (.ofScripts source (Block.all "script" source))) := by
  induction hleft : source.length - position using Nat.strongRecOn generalizing position seen with
  | ind left ih =>
      have hspec := Round.seek_spec isTagName_script source hposition
      rw [Block.allFrom_drop] at hseen
      refine .next ?_
      rw [step]
      generalize Round.seek "script" source (source.offset position) = round at hspec ⊢
      cases hspec with
      | nothing next =>
          rw [next, List.append_nil] at hseen
          rw [← hseen]
          exact (Within.refl source _).mono (Nat.zero_le _)
      | onward lt le next =>
          rw [next, ← Block.allFrom_drop] at hseen
          exact (ih _ (by omega) le hseen rfl).mono (by omega)
      | @found block cut next le stands marks sound =>
          rw [next] at hseen
          dsimp only at hseen
          have hnew : block ∉ seen := by
            have hnodup := Block.nodup_all "script" source
            rw [← hseen, List.nodup_append] at hnodup
            exact fun hbefore => hnodup.2.2 block hbefore block List.mem_cons_self rfl
          have hlt := stands.start_lt_stop
          have hle := stands.stop_le
          rw [← List.singleton_append, ← List.append_assoc] at hseen
          have hrest := ih _ (by omega) hle hseen rfl
          have hscript : Within source (2 * (source.length - block.stop) + 1 + 1)
              (.script cut (.ofScripts source seen))
              (.seekStyle 0 (.ofScripts source (Block.all "script" source))) := by
            refine .next ?_
            rw [step, Progress.script?_ofScripts marks hnew, marks.stop]
            exact hrest
          exact hscript.mono (by omega)

/-! ## The style -/

def Spans (source : Text) (blocks : List Block) : Prop :=
  ∀ block ∈ blocks, block.start < block.stop ∧ block.stop ≤ source.length

theorem Progress.around?_eq {source : Text} {found : Progress} {around : List Block}
    (hspans : Spans source around) (hremoved : found.removed = around.map (Block.range source))
    (hposition : position ≤ source.length) :
    found.around? (source.offset position) =
      (around.find? fun block => block.holds position).map (Block.range source) := by
  rw [around?, hremoved, List.find?_map, ← List.head?_filter, ← List.head?_filter]
  congr 2
  refine List.filter_congr fun block hblock => ?_
  obtain ⟨hlt, hle⟩ := hspans block hblock
  rw [Bool.eq_iff_iff, Block.holds_eq_true_iff, Function.comp_apply, Bool.and_eq_true,
    decide_eq_true_eq, decide_eq_true_eq]
  exact and_congr (Text.offset_le_iff (by omega) hposition) (Text.offset_lt_iff hposition hle)

def Progress.addStyle (source : Text) (found : Progress) : Option Block → Progress
  | none => found
  | some block =>
      { found with style := block.content, removed := found.removed ++ [block.range source] }

theorem CutState.within_style {source : Text} {found : Progress} {around : List Block}
    (hspans : Spans source around) (hremoved : found.removed = around.map (Block.range source))
    (hposition : position ≤ source.length) :
    Within source (2 * (source.length - position) + 1) (.seekStyle (source.offset position) found)
      (.startMerge (found.addStyle source
        (Block.firstOutside "style" around 0 position (source.drop position)))) := by
  induction hleft : source.length - position using Nat.strongRecOn generalizing position with
  | ind left ih =>
      have hspec := Round.seek_spec isTagName_style source hposition
      rw [Block.firstOutside_drop]
      refine .next ?_
      rw [step]
      generalize Round.seek "style" source (source.offset position) = round at hspec ⊢
      cases hspec with
      | nothing next =>
          rw [next]
          exact (Within.refl source _).mono (Nat.zero_le _)
      | onward lt le next =>
          rw [next, ← Block.firstOutside_drop]
          exact (ih _ (by omega) le rfl).mono (by omega)
      | @found block cut next le stands marks sound =>
          have hlt := stands.start_lt_stop
          have hle := stands.stop_le
          have haround := Progress.around?_eq hspans hremoved
            (show block.start ≤ source.length by omega)
          rw [← marks.start] at haround
          rw [next]
          dsimp only
          cases hfind : around.find? fun outer => outer.holds block.start with
          | none =>
              have hstyle : step source (.style cut found) =
                  .startMerge (found.addStyle source (some block)) := by
                rw [step, haround, hfind, Progress.addStyle, ← marks.content, Block.range,
                  ← marks.start, ← marks.stop]
                rfl
              exact ⟨1, by omega, hstyle⟩
          | some outer =>
              -- the search may go back to the end of the outer block, but this end lies behind
              -- the start of the style and so behind the place where the round began
              have houter := hspans outer (List.mem_of_find?_eq_some hfind)
              have hholds := List.find?_some hfind
              have hinside := Block.holds_eq_true_iff.mp hholds
              have hstyle : step source (.style cut found) =
                  .seekStyle (source.offset outer.stop) found := by
                rw [step, haround, hfind]
                rfl
              have hrest := ih _ (by omega) houter.2 rfl
              rw [← hstyle] at hrest
              exact hrest.next.mono (by omega)

theorem CutState.within_merge {source : Text} (found : Progress) {blocks : List Block}
    (hspans : Spans source blocks) (hposition : position ≤ source.length) (template : Text) :
    Within source (blocks.length + 1)
      (.merge (source.offset position) (blocks.map (Block.range source)) template found)
      (.done (found.sections (template ++ withoutBlocks source position blocks))) := by
  induction blocks generalizing position template with
  | nil =>
      have hlast : slice? source (source.offset position) (byteCount source) =
          some (source.drop position) := by
        rw [← Text.offset_length, Text.slice?_offset source hposition,
          List.take_of_length_le (by simp)]
      refine .next ?_
      rw [List.map_nil, step, hlast, withoutBlocks]
      exact (Within.refl source _)
  | cons block blocks ih =>
      obtain ⟨⟨hlt, hle⟩, hblocks⟩ := List.forall_mem_cons.mp hspans
      refine .next ?_
      rw [List.map_cons, Block.range, step, withoutBlocks]
      simp only [Text.offset_lt_iff (show block.start ≤ source.length by omega) hposition]
      split
      · exact ih hblocks hposition template
      · next hbehind =>
          rw [Text.slice?_offset source (Nat.le_of_not_lt hbehind), ← List.append_assoc]
          exact ih hblocks hle _

namespace Blocks

theorem mem_firstOnes_iff {source : Text} {block : Block} :
    block ∈ Block.firstOnes (Block.all "script" source) ↔ block ∈ (ofSource source).scripts := by
  rw [Block.firstOnes_eq, List.mem_filter, Bool.or_eq_true, beq_iff_eq, beq_iff_eq, scripts,
    List.mem_append, Option.mem_toList, Option.mem_toList]
  constructor
  · rintro ⟨-, h | h⟩
    · exact .inl h.symm
    · exact .inr h.symm
  · rintro (h | h)
    · exact ⟨List.mem_of_find?_eq_some h, .inl h.symm⟩
    · exact ⟨List.mem_of_find?_eq_some h, .inr h.symm⟩

theorem perm_firstOnes (source : Text) :
    (Block.firstOnes (Block.all "script" source)).Perm (ofSource source).scripts := by
  have hnodup : (ofSource source).scripts.Nodup := by
    have hstarts := (List.pairwise_append.mp (arranged_ofSource source).starts_ne).1
    exact hstarts.imp fun hne heq => hne (congrArg Block.start heq)
  exact (List.perm_ext_iff_of_nodup ((Block.nodup_all "script" source).filter _) hnodup).mpr
    fun block => mem_firstOnes_iff

theorem insertionSort_ranges (source : Text) {ranges : List (Nat × Nat)}
    (h : ranges.Perm ((ofSource source).toList.map (Block.range source))) :
    ranges.insertionSort (Prod.Lex (· < ·) (· ≤ ·)) =
      (ofSource source).sorted.map (Block.range source) := by
  have harranged := arranged_ofSource source
  have hperm := perm_sorted (ofSource source)
  have hsorted : ((ofSource source).sorted.map (Block.range source)).Pairwise
      (Prod.Lex (· < ·) (· ≤ ·)) := by
    rw [List.pairwise_map]
    refine harranged.starts_lt_sorted.imp_of_mem fun {block later} _ hlater hlt => ?_
    have hspan := harranged.span (hperm.mem_iff.mp hlater)
    exact .left _ _ (Text.offset_lt hlt (by omega))
  refine List.Perm.eq_of_pairwise' (List.pairwise_insertionSort _ ranges) hsorted ?_
  exact (List.perm_insertionSort _ ranges).trans (h.trans (hperm.map _).symm)

end Blocks

/-! ## The sections -/

def Progress.ofSource (source : Text) : Progress :=
  (Progress.ofScripts source (Block.all "script" source)).addStyle source
    (Blocks.ofSource source).style

theorem Progress.removed_ofSource (source : Text) :
    (ofSource source).removed.Perm
      ((Blocks.ofSource source).toList.map (Block.range source)) := by
  have hscripts := (Blocks.perm_firstOnes source).map (Block.range source)
  rw [Blocks.toList, List.map_append, ofSource]
  cases (Blocks.ofSource source).style with
  | none =>
      rw [Option.toList_none, List.map_nil, List.append_nil]
      exact hscripts
  | some style => exact hscripts.append_right _

theorem Progress.sections_ofSource (source : Text) :
    (ofSource source).sections (withoutBlocks source 0 (Blocks.ofSource source).sorted) =
      Sections.ofSource source := by
  have hinstance : (Blocks.ofSource source).instanceScript =
      Block.first? false (Block.all "script" source) := (Block.first?_false _).symm
  have hmodule : (Blocks.ofSource source).moduleScript =
      Block.first? true (Block.all "script" source) := (Block.first?_true _).symm
  rw [Sections.ofSource, hinstance, hmodule, ofSource]
  cases (Blocks.ofSource source).style <;> rfl

theorem Blocks.length_sorted_le (blocks : Blocks) : blocks.sorted.length ≤ 3 := by
  rw [(perm_sorted blocks).length_eq, toList, scripts, List.length_append, List.length_append]
  have hone (block? : Option Block) : block?.toList.length ≤ 1 := by cases block? <;> simp
  have hinstance := hone blocks.instanceScript
  have hmodule := hone blocks.moduleScript
  have hstyle := hone blocks.style
  omega

theorem CutState.within_done (source : Text) :
    Within source (4 * source.length + 6) .start (.done (Sections.ofSource source)) := by
  have harranged := Blocks.arranged_ofSource source
  have hscripts : Within source (2 * source.length + 1) .start
      (.seekStyle 0 (.ofScripts source (Block.all "script" source))) :=
    within_scripts (Nat.zero_le _) (List.nil_append _)
  have hstyle : Within source (2 * source.length + 1)
      (.seekStyle 0 (.ofScripts source (Block.all "script" source)))
      (.startMerge (.ofSource source)) := by
    have hspans : Spans source (Block.firstOnes (Block.all "script" source)) :=
      fun block hblock =>
        harranged.span (List.mem_append_left _ (Blocks.mem_firstOnes_iff.mp hblock))
    have hremoved : (Progress.ofScripts source (Block.all "script" source)).removed =
        (Block.firstOnes (Block.all "script" source)).map (Block.range source) := rfl
    have hrun := within_style hspans hremoved (Nat.zero_le _)
    rwa [Block.firstOnes_eq] at hrun
  have hmerge : Within source ((Blocks.ofSource source).sorted.length + 1)
      (.startMerge (.ofSource source)) (.done (Sections.ofSource source)) := by
    have hspans : Spans source (Blocks.ofSource source).sorted :=
      fun block hblock => harranged.span ((Blocks.perm_sorted _).mem_iff.mp hblock)
    rw [startMerge, Blocks.insertionSort_ranges source (Progress.removed_ofSource source),
      ← Progress.sections_ofSource]
    exact within_merge _ hspans (Nat.zero_le _) []
  have hlength := Blocks.length_sorted_le (Blocks.ofSource source)
  exact ((hscripts.trans hstyle).trans hmerge).mono (by omega)

/-- Cutting a source into sections comes to an end, and never cuts it where it cannot be cut.  In
every state of the machine all offsets are boundaries of the source in their order, and it never
fails; within a bound that is linear in the source it comes to the sections of the source, whose
scripts and style are parts of it. -/
theorem cutting_ends_safely (source : Text) :
    (∀ n, ((CutState.step source)^[n] .start).Sound source) ∧
      (∃ n ≤ 4 * source.length + 6,
        (CutState.step source)^[n] .start = .done (Sections.ofSource source)) ∧
      (Sections.ofSource source).script <:+: source ∧
      (Sections.ofSource source).moduleScript <:+: source ∧
      (Sections.ofSource source).style <:+: source := by
  obtain ⟨n, hn, hdone⟩ := CutState.within_done source
  have hsound := CutState.sound_iterate source
  have hsections := hsound n
  rw [hdone] at hsections
  exact ⟨hsound, ⟨n, hn, hdone⟩, hsections⟩

-- the search for the style goes back from 32 to 24
example :
    let source : Text := "<script><style></script></style>"
    let found : Progress := ⟨some "<style>", none, "js", [], [(0, 24)]⟩
    (CutState.step source)^[4] .start = .style ⟨8, 14, 14, 24, 32, [], "</script>"⟩ found ∧
      (CutState.step source)^[5] .start = .seekStyle 24 found := by
  decide

end ComponentDocs
