import ComponentDocs.Proofs.Sections.Template

/-!
# What the content of a script decides

The content of an instance script reaches the other sections in one way only.  A style tag
that opens in the script and is closed nowhere ends the search for the style, so that a
style behind the script is not found and stays in the template.
-/

namespace ComponentDocs

open Block (openingTag closingTag IsAttributes)

namespace Block

def shift (offset : Nat) (block : Block) : Block :=
  { block with start := offset + block.start, stop := offset + block.stop }

def Outcome.shift (offset : Nat) : Outcome → Outcome
  | .other => .other
  | .unclosed => .unclosed
  | .block found => .block (found.shift offset)

@[simp] theorem holds_shift (offset position : Nat) (block : Block) :
    (block.shift offset).holds (offset + position) = block.holds position := by
  simp [holds, shift]

theorem ofTag_shift (name : Text) (offset position : Nat) (text : Text) :
    ofTag name (offset + position) text = (ofTag name position text).shift offset := by
  unfold ofTag
  cases cutTag none text with
  | none => rfl
  | some tag =>
      dsimp only
      split
      · simp only [Outcome.shift, Block.shift, Nat.add_assoc]
      · cases Text.cut? (closingTag name) tag.2 with
        | none => rfl
        | some content => simp only [Outcome.shift, Block.shift, Nat.add_assoc]

theorem scan_shift (name : Text) (offset position : Nat) (text : Text) :
    scan name (offset + position) text = (scan name position text).shift offset := by
  unfold scan
  cases Text.after? (openingTag name) text with
  | none => rfl
  | some behind =>
      dsimp only
      split
      · exact ofTag_shift name offset position behind
      · rfl

theorem stop_shift_sub (offset position : Nat) (block : Block) :
    (block.shift offset).stop - (offset + position) - 1 = block.stop - position - 1 := by
  simp only [shift]
  omega

theorem allFrom_shift (name : Text) (offset skip position : Nat) (text : Text) :
    allFrom name skip (offset + position) text =
      (allFrom name skip position text).map (shift offset) := by
  induction text generalizing skip position with
  | nil => cases skip <;> rfl
  | cons c rest ih =>
      cases skip with
      | succ skip => simpa only [allFrom, Nat.add_assoc] using ih skip (position + 1)
      | zero =>
          rw [allFrom, allFrom, scan_shift]
          cases scan name position (c :: rest) with
          | other => exact ih 0 (position + 1)
          | unclosed => rfl
          | block found =>
              simp only [Outcome.shift, stop_shift_sub, List.map_cons]
              exact congrArg _ (ih _ (position + 1))

theorem firstOutside_shift (name : Text) (around : List Block) (offset skip position : Nat)
    (text : Text) :
    firstOutside name (around.map (shift offset)) skip (offset + position) text =
      (firstOutside name around skip position text).map (shift offset) := by
  induction text generalizing skip position with
  | nil => cases skip <;> rfl
  | cons c rest ih =>
      cases skip with
      | succ skip => simpa only [firstOutside, Nat.add_assoc] using ih skip (position + 1)
      | zero =>
          rw [firstOutside, firstOutside, scan_shift, List.find?_map]
          cases scan name position (c :: rest) with
          | other => exact ih 0 (position + 1)
          | unclosed => rfl
          | block found =>
              simp only [Outcome.shift, Function.comp_def, holds_shift]
              cases around.find? fun block => block.holds position with
              | none => rfl
              | some outer =>
                  simp only [Option.map_some, stop_shift_sub]
                  exact ih _ (position + 1)

theorem firstOutside_skip (name : Text) (around : List Block) (skip position : Nat)
    (text : Text) :
    firstOutside name around skip position text =
      firstOutside name around 0 (position + skip) (text.drop skip) := by
  induction skip generalizing position text with
  | zero => rfl
  | succ skip ih =>
      cases text with
      | nil => simp [firstOutside]
      | cons c rest =>
          rw [firstOutside, ih, List.drop_succ_cons, Nat.add_right_comm, Nat.add_assoc]

theorem firstOutside_free {name text behind : Text} (hname : '<' ∉ name)
    (hfree : ¬openingTag name <:+: text) (hmeets : Text.MeetsMark (openingTag name) behind)
    (around : List Block) (position : Nat) :
    firstOutside name around 0 position (text ++ behind) =
      firstOutside name around 0 (position + text.length) behind := by
  induction text generalizing position with
  | nil => rfl
  | cons c text ih =>
      have hbegins : ¬openingTag name <+: c :: text ++ behind :=
        Text.not_isPrefix_append (isMark_openingTag hname) (fun h => hfree h.isInfix)
          (List.cons_ne_nil c text) hmeets
      rw [List.cons_append] at hbegins ⊢
      rw [firstOutside, scan_eq_other hbegins]
      dsimp only
      rw [ih (Text.not_isInfix_of_cons hfree), List.length_cons, Nat.add_assoc, Nat.add_comm 1]

theorem firstOutside_cons {outer : Block} {position : Nat} (h : outer.stop ≤ position)
    (name : Text) (around : List Block) (skip : Nat) (text : Text) :
    firstOutside name (outer :: around) skip position text =
      firstOutside name around skip position text := by
  induction text generalizing skip position with
  | nil => cases skip <;> rfl
  | cons c rest ih =>
      have hnext : outer.stop ≤ position + 1 := Nat.le_succ_of_le h
      cases skip with
      | succ skip => exact ih hnext skip
      | zero =>
          have hholds : outer.holds position = false := holds_eq_false_iff.mpr (.inr h)
          rw [firstOutside, firstOutside, List.find?_cons_of_neg (by simp [hholds])]
          cases scan name position (c :: rest) with
          | other => exact ih hnext 0
          | unclosed => rfl
          | block found =>
              dsimp only
              split
              · exact ih hnext _
              · rfl

/-- Whether the first tag of a name that opens in a text is closed neither there nor in what
follows. -/
def leavesOpen (name behind : Text) : Text → Bool
  | [] => false
  | c :: rest =>
      match scan name 0 (c :: rest ++ behind) with
      | .other => leavesOpen name behind rest
      | .unclosed => true
      | .block _ => false

theorem isInfix_of_leavesOpen {name behind text : Text} (hname : '>' ∉ name)
    (hlast : text.getLast? = some '>') (h : leavesOpen name behind text = true) :
    openingTag name <:+: text := by
  induction text with
  | nil => cases h
  | cons c rest ih =>
      rw [leavesOpen] at h
      by_cases hbegins : openingTag name <+: c :: rest ++ behind
      · -- a tag that went on behind the text would hold the angle at its end
        rcases List.prefix_or_prefix_of_prefix hbegins (List.prefix_append _ _) with htag | htext
        · exact htag.isInfix
        · have hangle : '>' ∈ openingTag name := htext.subset (List.mem_of_getLast? hlast)
          simp [openingTag, hname] at hangle
      · rw [scan_eq_other hbegins] at h
        cases rest with
        | nil => cases h
        | cons d rest =>
            rw [List.getLast?_cons_cons] at hlast
            exact List.infix_cons (ih hlast h)

/-- The search goes on behind a block that it passes through, unless a tag that opens there
is left open. -/
theorem firstOutside_inside {name : Text} {around : List Block} {outer : Block}
    {inside : Text} (behind : Text) {position : Nat}
    (hheld : ∀ place, position ≤ place → place < outer.stop →
      around.find? (fun block => block.holds place) = some outer)
    (hstop : outer.stop = position + inside.length) :
    firstOutside name around 0 position (inside ++ behind) =
      if leavesOpen name behind inside then none
      else firstOutside name around 0 outer.stop behind := by
  induction inside generalizing position with
  | nil =>
      rw [List.length_nil, Nat.add_zero] at hstop
      rw [hstop]
      rfl
  | cons c inside ih =>
      rw [List.length_cons] at hstop
      have hscan := scan_shift name position 0 (c :: inside ++ behind)
      rw [Nat.add_zero, List.cons_append] at hscan
      rw [List.cons_append, firstOutside, hscan, leavesOpen, List.cons_append]
      cases scan name 0 (c :: (inside ++ behind)) with
      | other =>
          exact ih (fun place hle hlt => hheld place (Nat.le_of_succ_le hle) hlt) (by omega)
      | unclosed => rfl
      | block found =>
          simp only [Outcome.shift]
          rw [hheld position (Nat.le_refl _) (by omega)]
          dsimp only
          have hskip : outer.stop - position - 1 = inside.length := by omega
          rw [hskip, firstOutside_skip, List.drop_left, if_neg Bool.false_ne_true, hstop]
          congr 1
          omega

end Block

namespace Blocks

theorem insert_map_shift (offset : Nat) (block : Block) (others : List Block) :
    insert (block.shift offset) (others.map (Block.shift offset)) =
      (insert block others).map (Block.shift offset) := by
  induction others with
  | nil => rfl
  | cons other others ih =>
      simp only [List.map_cons, insert, Block.shift, Nat.add_le_add_iff_left]
      split
      · rfl
      · rw [List.map_cons, ← ih]
        rfl

theorem foldr_insert_map_shift (offset : Nat) (blocks : List Block) :
    (blocks.map (Block.shift offset)).foldr insert [] =
      (blocks.foldr insert []).map (Block.shift offset) := by
  induction blocks with
  | nil => rfl
  | cons block blocks ih =>
      rw [List.map_cons, List.foldr_cons, ih, insert_map_shift, List.foldr_cons]

theorem insert_of_le {block : Block} {others : List Block}
    (h : ∀ other ∈ others, block.start ≤ other.start) : insert block others = block :: others := by
  cases others with
  | nil => rfl
  | cons other others => rw [insert, if_pos (h other List.mem_cons_self)]

theorem sorted_shift {blocks : Blocks} (hnone : blocks.instanceScript = none) {found : Block}
    {offset : Nat} (hle : found.start ≤ offset) :
    sorted ⟨some found, blocks.moduleScript.map (Block.shift offset),
        blocks.style.map (Block.shift offset)⟩ =
      found :: blocks.sorted.map (Block.shift offset) := by
  have hrest : blocks.sorted =
      (blocks.moduleScript.toList ++ blocks.style.toList).foldr insert [] := by
    rw [sorted, hnone]
    rfl
  rw [sorted, Option.toList_some, List.append_assoc, List.singleton_append, List.foldr_cons,
    Option.toList_map, Option.toList_map, ← List.map_append, foldr_insert_map_shift, ← hrest]
  apply insert_of_le
  intro other hother
  obtain ⟨block, -, rfl⟩ := List.mem_map.mp hother
  exact Nat.le_trans hle (Nat.le_add_right ..)

def behindScript (lost : Bool) (behind : Text) : Blocks :=
  let moduleScript := (Block.all "script" behind).find? Block.isModule
  ⟨none, moduleScript,
    if lost then none else Block.firstOutside "style" moduleScript.toList 0 0 behind⟩

end Blocks

theorem withoutBlocks_shift (front text : Text) (position : Nat) (blocks : List Block) :
    withoutBlocks (front ++ text) (front.length + position)
        (blocks.map (Block.shift front.length)) =
      withoutBlocks text position blocks := by
  induction blocks generalizing position with
  | nil => simp [withoutBlocks]
  | cons block blocks ih =>
      simp only [List.map_cons, withoutBlocks, Block.shift, Nat.add_lt_add_iff_left,
        Nat.add_sub_add_left]
      split
      · exact ih position
      · rw [← ih block.stop]
        simp

/-! ## The sections around a script -/

def Sections.behindScript (lost : Bool) (behind : Text) : Sections :=
  let blocks := Blocks.behindScript lost behind
  { script := []
    language := Block.defaultLanguage
    moduleScript := (blocks.moduleScript.map Block.content).getD []
    template := withoutBlocks behind 0 blocks.sorted
    style := (blocks.style.map Block.content).getD [] }

theorem Sections.behindScript_eq_iff (lost lost' : Bool) (behind : Text) :
    behindScript lost behind = behindScript lost' behind ↔
      (behindScript lost behind).style = (behindScript lost' behind).style ∧
        (behindScript lost behind).template = (behindScript lost' behind).template := by
  constructor
  · intro h
    rw [h]
    exact ⟨rfl, rfl⟩
  · rintro ⟨hstyle, htemplate⟩
    rw [Sections.mk.injEq]
    exact ⟨rfl, rfl, rfl, htemplate, hstyle⟩

theorem Block.nodup_all (name source : Text) : (all name source).Nodup := by
  refine (pairwise_allFrom name 0 0 source).imp_of_mem fun {block later} hblock _ hstop => ?_
  rintro rfl
  have := (standsIn_of_mem_all hblock).start_lt_stop
  omega

theorem Block.filter_find? {blocks : List Block} (h : blocks.Nodup) (p : Block → Bool) :
    blocks.filter (fun block => some block == blocks.find? p) = (blocks.find? p).toList := by
  cases hfind : blocks.find? p with
  | none => simp
  | some found =>
      simp only [Option.some_beq_some, List.filter_beq,
        List.count_eq_one_of_mem h (List.mem_of_find?_eq_some hfind)]
      rfl

section

variable {before attributes content : Text}

def scriptBlock (before attributes content : Text) : Block :=
  ⟨before.length, before.length + (Block.write "script" attributes content).length, attributes,
    content⟩

theorem meetsMark_write (tag name attributes content behind : Text) :
    Text.MeetsMark (openingTag tag) (Block.write name attributes content ++ behind) := .inr rfl

theorem all_script (hbefore : HasNoTags before) (hattributes : IsAttributes attributes)
    (hcontent : ¬closingTag "script" <:+: content) (behind : Text) :
    Block.all "script" (before ++ (Block.write "script" attributes content ++ behind)) =
      scriptBlock before attributes content ::
        (Block.all "script" behind).map
          (Block.shift (scriptBlock before attributes content).stop) := by
  have hname : '<' ∉ ("script" : Text) := by decide
  rw [Block.all, Block.allFrom_free hname hbefore.1 (meetsMark_write _ _ _ _ _),
    Block.allFrom_write hname hattributes hcontent, Nat.zero_add]
  exact congrArg _ (Block.allFrom_shift "script" _ 0 0 behind)

theorem firstOutside_script (hbefore : HasNoTags before) (around : List Block) (behind : Text) :
    let found := scriptBlock before attributes content
    let script := Block.write "script" attributes content
    Block.firstOutside "style" (found :: around.map (Block.shift found.stop)) 0 0
        (before ++ (script ++ behind)) =
      (if Block.leavesOpen "style" behind script then none
        else Block.firstOutside "style" around 0 0 behind).map (Block.shift found.stop) := by
  intro found script
  have hheld : ∀ place, before.length ≤ place → place < found.stop →
      (found :: around.map (Block.shift found.stop)).find? (fun block => block.holds place) =
        some found := by
    intro place hle hlt
    exact List.find?_cons_of_pos (Block.holds_eq_true_iff.mpr ⟨hle, hlt⟩)
  rw [Block.firstOutside_free (by decide) hbefore.2 (meetsMark_write _ _ _ _ _), Nat.zero_add,
    Block.firstOutside_inside behind hheld rfl, Block.firstOutside_cons (Nat.le_refl _)]
  split
  · rfl
  · exact Block.firstOutside_shift "style" around found.stop 0 0 behind

theorem blocks_script (hbefore : HasNoTags before) (hattributes : IsAttributes attributes)
    (hinstance : Block.isModule ⟨0, 0, attributes, []⟩ = false)
    (hcontent : ¬closingTag "script" <:+: content) (behind : Text) :
    let script := Block.write "script" attributes content
    let found := scriptBlock before attributes content
    let blocks := Blocks.behindScript (Block.leavesOpen "style" behind script) behind
    Blocks.ofSource (before ++ (script ++ behind)) =
      ⟨some found, blocks.moduleScript.map (Block.shift found.stop),
        blocks.style.map (Block.shift found.stop)⟩ := by
  intro script found blocks
  let later := (Block.all "script" behind).map (Block.shift found.stop)
  have hscripts : Block.all "script" (before ++ (script ++ behind)) = found :: later :=
    all_script hbefore hattributes hcontent behind
  have hisModule : found.isModule = false := hinstance
  have hlater : later.find? Block.isModule =
      blocks.moduleScript.map (Block.shift found.stop) := List.find?_map
  have hnodup := Block.nodup_all "script" (before ++ (script ++ behind))
  rw [hscripts, List.nodup_cons] at hnodup
  -- the scripts that count are the first one and the first of the module behind it
  have haround : (found :: later).filter (fun block =>
      some block == some found || some block == later.find? Block.isModule) =
        found :: blocks.moduleScript.toList.map (Block.shift found.stop) := by
    rw [List.filter_cons_of_pos (by simp), ← Option.toList_map, ← hlater,
      ← Block.filter_find? hnodup.2]
    congr 1
    apply List.filter_congr
    intro block hblock
    have hne : block ≠ found := fun heq => hnodup.1 (heq ▸ hblock)
    simp [hne]
  have hmodule : (found :: later).find? Block.isModule = later.find? Block.isModule :=
    List.find?_cons_of_neg (by simp [hisModule])
  have hfirst : (found :: later).find? (fun block => !block.isModule) = some found :=
    List.find?_cons_of_pos (by simp [hisModule])
  rw [hlater] at haround hmodule
  simp only [Blocks.ofSource, hscripts, hmodule, hfirst, haround]
  exact congrArg _ (firstOutside_script hbefore blocks.moduleScript.toList behind)

theorem sections_script (hbefore : HasNoTags before) (hattributes : IsAttributes attributes)
    (hinstance : Block.isModule ⟨0, 0, attributes, []⟩ = false)
    (hcontent : ¬closingTag "script" <:+: content) (behind : Text) :
    let script := Block.write "script" attributes content
    let sections := Sections.behindScript (Block.leavesOpen "style" behind script) behind
    Sections.ofSource (before ++ (script ++ behind)) =
      { script := content
        language := Block.language ⟨0, 0, attributes, []⟩
        moduleScript := sections.moduleScript
        template := before ++ sections.template
        style := sections.style } := by
  intro script sections
  let found := scriptBlock before attributes content
  let blocks := Blocks.behindScript (Block.leavesOpen "style" behind script) behind
  have hblocks := blocks_script hbefore hattributes hinstance hcontent behind
  have hsorted : (Blocks.ofSource (before ++ (script ++ behind))).sorted =
      found :: blocks.sorted.map (Block.shift found.stop) := by
    rw [hblocks]
    exact Blocks.sorted_shift rfl (Nat.le_add_right ..)
  have htemplate : withoutBlocks (before ++ (script ++ behind)) 0
      (Blocks.ofSource (before ++ (script ++ behind))).sorted = before ++ sections.template := by
    have hstop : found.stop = (before ++ script).length := (List.length_append ..).symm
    have hbehind := withoutBlocks_shift (before ++ script) behind 0 blocks.sorted
    rw [List.append_assoc, ← hstop, Nat.add_zero] at hbehind
    rw [hsorted, withoutBlocks, if_neg (Nat.not_lt_zero _), List.drop_zero, Nat.sub_zero, hbehind]
    congr 1
    exact List.take_left
  unfold Sections.ofSource
  dsimp only
  rw [htemplate, hblocks]
  simp only [Option.map_map]
  rfl

/--
What two sources have in common that differ in the content of an instance script.  The
module script and the language are the same.  A script that leaves a style tag open
mentions one, and then there is no style.  The style and the template are the same just if
both scripts or none of them leave a style tag open, or if it makes no difference behind
the script whether a style is looked for.
-/
theorem script_content_agree_iff {other : Text} (hbefore : HasNoTags before)
    (hattributes : IsAttributes attributes)
    (hinstance : Block.isModule ⟨0, 0, attributes, []⟩ = false)
    (hcontent : ¬closingTag "script" <:+: content) (hother : ¬closingTag "script" <:+: other)
    (behind : Text) :
    let script := Block.write "script" attributes content
    let edited := Block.write "script" attributes other
    let sections := Sections.ofSource (before ++ (script ++ behind))
    let sections' := Sections.ofSource (before ++ (edited ++ behind))
    sections.moduleScript = sections'.moduleScript ∧ sections.language = sections'.language ∧
      (Block.leavesOpen "style" behind script = true →
        openingTag "style" <:+: script ∧ sections.style = []) ∧
      (sections.style = sections'.style ∧ sections.template = sections'.template ↔
        Block.leavesOpen "style" behind script = Block.leavesOpen "style" behind edited ∨
          Sections.behindScript true behind = Sections.behindScript false behind) := by
  intro script edited sections sections'
  have hscript : sections = _ := sections_script hbefore hattributes hinstance hcontent behind
  have hedited : sections' = _ := sections_script hbefore hattributes hinstance hother behind
  have hlast : script.getLast? = some '>' := List.getLast?_append
  rw [hscript, hedited]
  refine ⟨rfl, rfl, ?_, ?_⟩
  · intro hopen
    refine ⟨Block.isInfix_of_leavesOpen (by decide) hlast hopen, ?_⟩
    rw [hopen]
    rfl
  · rw [List.append_cancel_left_eq, ← Sections.behindScript_eq_iff]
    cases Block.leavesOpen "style" behind script <;>
      cases Block.leavesOpen "style" behind edited <;> simp [eq_comm]

end

/-- A whole style in a comment of the script is passed over like any other text. -/
theorem script_content_agree_comment :
    let script := Block.write "script" " lang='ts'" "// <style>b{}</style>"
    let edited := Block.write "script" " lang='ts'" "let a = 1"
    let behind : Text := "<p/><style>p{}</style>"
    let sections := Sections.ofSource ("<h1/>" ++ (script ++ behind))
    let sections' := Sections.ofSource ("<h1/>" ++ (edited ++ behind))
    HasNoTags "<h1/>" ∧ IsAttributes " lang='ts'" ∧
      Block.isModule ⟨0, 0, " lang='ts'", []⟩ = false ∧
      ¬closingTag "script" <:+: "// <style>b{}</style>" ∧
      ¬closingTag "script" <:+: "let a = 1" ∧
      sections.style = "p{}" ∧ sections.style = sections'.style ∧
      sections.template = sections'.template := by
  obtain ⟨hbefore, hattributes, hinstance, hcontent, hother⟩ : HasNoTags "<h1/>" ∧
      IsAttributes " lang='ts'" ∧ Block.isModule ⟨0, 0, " lang='ts'", []⟩ = false ∧
      ¬closingTag "script" <:+: ("// <style>b{}</style>" : Text) ∧
      ¬closingTag "script" <:+: ("let a = 1" : Text) := by
    decide
  obtain ⟨-, -, -, hagree⟩ := script_content_agree_iff hbefore hattributes hinstance
    hcontent hother "<p/><style>p{}</style>"
  exact ⟨hbefore, hattributes, hinstance, hcontent, hother, by decide,
    hagree.mpr (.inl (by decide))⟩

/-- A string of the script that opens a style tag and does not close it takes the style away
and leaves it in the template. -/
theorem script_content_unclosed_style :
    let sections := Sections.ofSource "<script>let a = '<style '</script><p/><style>p{}</style>"
    let sections' := Sections.ofSource "<script>let a = 1</script><p/><style>p{}</style>"
    sections.style = [] ∧ sections.template = "<p/><style>p{}</style>" ∧
      sections'.style = "p{}" ∧ sections'.template = "<p/>" := by
  decide

end ComponentDocs
