import Mathlib.Data.List.Forall2
import ComponentDocs.Proofs.Text.Lines
import ComponentDocs.Proofs.Text.Marks
import ComponentDocs.Proofs.Text.Offsets

/-!
# The description in a template

A description that is written into a comment is read back as it was, however far its lines are
indented together.  The indentation of one line against another and empty lines are kept.
-/

namespace ComponentDocs.Component

open Text (byteCount byteCount_append isBlank isSpace trim trimEnd trimStart)

structure IsDescription (text : Text) : Prop where
  ne_nil : text ≠ []
  trim_eq : trim text = text
  trimmedLines : ∀ line ∈ Text.pieces '\n' text, trimEnd line = line
  enclosed : ¬"-->".toList <:+: text

structure IsIndent (indent : Text) : Prop where
  isBlank : isBlank indent = true
  onLine : '\n' ∉ indent

inductive IsWrittenLine (indent : Text) : Text → Text → Prop
  | line {text : Text} : isBlank text = false → IsWrittenLine indent text (indent ++ text)
  | blank {text gap : Text} : isBlank text = true → IsIndent gap → IsWrittenLine indent text gap

def IsWritten (indent text : Text) (written : List Text) : Prop :=
  List.Forall₂ (IsWrittenLine indent) (Text.pieces '\n' text) written

def commentBody (written : List Text) : Text :=
  '\n' :: (Text.join "\n" written ++ ['\n'])

def descriptionComment (gap : Text) (written : List Text) : Text :=
  "<!--" ++ (gap ++ ("@component" ++ (commentBody written ++ "-->")))

section Lines

variable {indent text line : Text} {written : List Text}

theorem eq_nil_of_isBlank (hblank : isBlank line = true) (h : trimEnd line = line) : line = [] := by
  rw [← h, Text.trimEnd_eq_nil hblank]

def indented (indent line : Text) : Text :=
  if isBlank line then [] else indent ++ line

theorem IsWrittenLine.trimEnd_eq (h : IsWrittenLine indent text line)
    (htext : trimEnd text = text) : trimEnd line = indented indent text := by
  cases h with
  | line hblank =>
      have hne : text ≠ [] := by
        rintro rfl
        cases hblank
      have hlast : ∀ c ∈ (indent ++ text).getLast?, isSpace c = false := by
        rw [List.getLast?_append_of_ne_nil _ hne]
        exact Text.getLast?_of_trimEnd htext
      rw [indented, if_neg (by simp [hblank])]
      exact Text.dropEndWhile_of_getLast? hlast
  | blank hblank hgap => rw [Text.trimEnd_eq_nil hgap.isBlank, indented, if_pos hblank]

theorem IsWrittenLine.onLine (h : IsWrittenLine indent text line) (hindent : IsIndent indent)
    (htext : '\n' ∉ text) : '\n' ∉ line := by
  cases h with
  | line => simp [hindent.onLine, htext]
  | blank _ hgap => exact hgap.onLine

end Lines

def outdented (count : Nat) (line : Text) : Text :=
  (dropBytes? count line).getD (trimStart line)

theorem outdented_nil (count : Nat) : outdented count [] = [] := by
  cases count <;> rfl

theorem outdented_indented (indent : Text) {line : Text} (h : trimEnd line = line) :
    outdented (byteCount indent) (indented indent line) = line := by
  unfold indented
  split
  · next hblank => rw [outdented_nil, eq_nil_of_isBlank hblank h]
  · rw [outdented, dropBytes?_append, Option.getD_some]

section Common

variable {indent : Text} {lines : List Text}

theorem indentation_append (hindent : isBlank indent = true) (line : Text) :
    indentation (indent ++ line) = byteCount indent + indentation line := by
  rw [indentation, List.takeWhile_append_of_pos (List.all_eq_true.mp hindent), byteCount_append]
  rfl

theorem isBlank_indented (line : Text) (hline : isBlank line = false) :
    isBlank (indented indent line) = false ∧ indented indent line = indent ++ line := by
  have hindented : indented indent line = indent ++ line := if_neg (by simp [hline])
  rw [hindented, Text.isBlank_append, hline, Bool.and_false]
  exact ⟨rfl, rfl⟩

theorem mem_indentations_iff {count : Nat} (hindent : isBlank indent = true) :
    count ∈ ((lines.map (indented indent)).filter fun line => !isBlank line).map indentation ↔
      ∃ line ∈ lines, isBlank line = false ∧ count = byteCount indent + indentation line := by
  constructor
  · intro hcount
    obtain ⟨shown, hshown, rfl⟩ := List.mem_map.mp hcount
    rw [List.mem_filter, List.mem_map] at hshown
    obtain ⟨⟨line, hline, rfl⟩, hnot⟩ := hshown
    cases hblank : isBlank line with
    | true =>
        rw [indented, if_pos hblank] at hnot
        cases hnot
    | false =>
        refine ⟨line, hline, hblank, ?_⟩
        rw [(isBlank_indented line hblank).2, indentation_append hindent]
  · rintro ⟨line, hline, hblank, rfl⟩
    obtain ⟨hnot, hshown⟩ := isBlank_indented line hblank
    refine List.mem_map.mpr ⟨indented indent line, ?_, ?_⟩
    · exact List.mem_filter.mpr ⟨List.mem_map_of_mem hline, by rw [hnot]; rfl⟩
    · rw [hshown, indentation_append hindent]

theorem commonIndentation_indented (hindent : isBlank indent = true) {first : Text}
    (hmem : first ∈ lines) (hfirst : isBlank first = false) (hzero : indentation first = 0) :
    commonIndentation ([] :: lines.map (indented indent)) = byteCount indent := by
  have hmin : (((lines.map (indented indent)).filter fun line => !isBlank line).map
      indentation).min? = some (byteCount indent) := by
    rw [List.min?_eq_some_iff]
    constructor
    · exact (mem_indentations_iff hindent).mpr ⟨first, hmem, hfirst, by rw [hzero, Nat.add_zero]⟩
    · intro count hcount
      obtain ⟨line, -, -, rfl⟩ := (mem_indentations_iff hindent).mp hcount
      exact Nat.le_add_right _ _
  exact congrArg (Option.getD · 0) hmin

end Common

theorem IsDescription.exists_first {text : Text} (h : IsDescription text) :
    ∃ first ∈ Text.pieces '\n' text, isBlank first = false ∧ indentation first = 0 := by
  -- A trimmed text does not begin with a blank, so its first line is not indented.
  obtain ⟨c, rest, rfl⟩ := List.exists_cons_of_ne_nil h.ne_nil
  have hc : isSpace c = false := (Text.trim_eq_self_iff.mp h.trim_eq).1 c rfl
  have hbreak : (c == '\n') = false := by
    rw [Bool.eq_false_iff]
    intro heq
    rw [beq_iff_eq.mp heq] at hc
    cases hc
  obtain ⟨piece, more, hrest⟩ := List.exists_cons_of_ne_nil (Text.pieces_ne_nil '\n' rest)
  have hpieces : Text.pieces '\n' (c :: rest) = (c :: piece) :: more := by
    simp [Text.pieces, hbreak, hrest]
  refine ⟨c :: piece, by simp [hpieces], ?_, ?_⟩
  · simp [isBlank, hc]
  · simp [indentation, hc, byteCount]

theorem dedent_eq (lines : List Text) :
    dedent lines = trim (Text.join "\n" (lines.map (outdented (commonIndentation lines)))) := rfl

theorem dedent_indented {indent text : Text} (h : IsDescription text)
    (hindent : isBlank indent = true) :
    dedent ([] :: (Text.pieces '\n' text).map (indented indent)) = text := by
  obtain ⟨first, hmem, hblank, hzero⟩ := h.exists_first
  have hlines : ((Text.pieces '\n' text).map (indented indent)).map
      (outdented (byteCount indent)) = Text.pieces '\n' text := by
    have hline : ∀ line ∈ Text.pieces '\n' text,
        outdented (byteCount indent) (indented indent line) = id line :=
      fun line hmem => outdented_indented indent (h.trimmedLines line hmem)
    rw [List.map_map]
    exact (List.map_congr_left hline).trans (List.map_id _)
  have hjoin : Text.join "\n" ([] :: Text.pieces '\n' text) = '\n' :: text := by
    have hpieces : Text.join "\n" (Text.pieces '\n' text) = text := Text.join_pieces '\n' text
    rw [Text.join_cons (Text.pieces_ne_nil '\n' text), hpieces]
    rfl
  have htrim := Text.trim_around ['\n'] text [] rfl rfl
  rw [List.append_nil, h.trim_eq] at htrim
  rw [dedent_eq, commonIndentation_indented hindent hmem hblank hzero, List.map_cons,
    outdented_nil, hlines, hjoin]
  exact htrim

section Comment

variable {indent gap text before : Text} {written : List Text}

theorem IsWritten.map_trimEnd (h : IsWritten indent text written) (htext : IsDescription text) :
    written.map trimEnd = (Text.pieces '\n' text).map (indented indent) := by
  have htrimmed := htext.trimmedLines
  unfold IsWritten at h
  generalize Text.pieces '\n' text = lines at h htrimmed ⊢
  induction h with
  | nil => rfl
  | cons hline _ ih =>
      rw [List.forall_mem_cons] at htrimmed
      rw [List.map_cons, List.map_cons, hline.trimEnd_eq htrimmed.1, ih htrimmed.2]

theorem IsWritten.exists_of_mem (h : IsWritten indent text written) {line : Text}
    (hline : line ∈ written) :
    ∃ piece ∈ Text.pieces '\n' text, IsWrittenLine indent piece line := by
  unfold IsWritten at h
  generalize Text.pieces '\n' text = lines at h ⊢
  induction h with
  | nil => contradiction
  | cons hfirst _ ih =>
      rcases List.mem_cons.mp hline with rfl | hline
      · exact ⟨_, List.mem_cons_self, hfirst⟩
      · obtain ⟨piece, hpiece, hwritten⟩ := ih hline
        exact ⟨piece, List.mem_cons_of_mem _ hpiece, hwritten⟩

theorem IsWritten.onLine (h : IsWritten indent text written) (hindent : IsIndent indent) :
    ∀ line ∈ written, '\n' ∉ line := by
  intro line hline
  obtain ⟨piece, hpiece, hwritten⟩ := h.exists_of_mem hline
  exact hwritten.onLine hindent (Text.mark_not_mem_of_mem_pieces hpiece)

theorem lines_commentBody (hne : written ≠ []) (h : ∀ line ∈ written, '\n' ∉ line) :
    (Text.lines (commentBody written)).map trimEnd = [] :: written.map trimEnd := by
  -- The comment has one line more at each end; the last one is empty and no line at all.
  have hbody : commentBody written = Text.join "\n" (([] :: written) ++ [[]]) := by
    rw [Text.join_concat (List.cons_ne_nil _ _), Text.join_cons hne]
    simp [commentBody]
  have honline : ∀ line ∈ ([] :: written) ++ [[]], '\n' ∉ line := by
    rw [List.cons_append, List.forall_mem_cons, List.forall_mem_append, List.forall_mem_singleton]
    exact ⟨List.not_mem_nil, h, List.not_mem_nil⟩
  have htrim : trimEnd ∘ Text.dropReturn = trimEnd := funext Text.trimEnd_dropReturn
  rw [hbody, Text.lines_join_concat _ _ honline]
  simp only [List.isEmpty_nil, ↓reduceIte, List.append_nil, List.map_map, htrim]
  rfl

theorem IsWritten.dedent_commentBody (h : IsWritten indent text written)
    (hindent : IsIndent indent) (htext : IsDescription text) :
    dedent ((Text.lines (commentBody written)).map trimEnd) = text := by
  have hne : written ≠ [] := by
    rintro rfl
    exact Text.pieces_ne_nil '\n' text (List.eq_nil_of_length_eq_zero h.length_eq)
  rw [lines_commentBody hne (h.onLine hindent), h.map_trimEnd htext,
    dedent_indented htext hindent.isBlank]

theorem IsWrittenLine.enclosed {piece line : Text} (h : IsWrittenLine indent piece line)
    (hindent : IsIndent indent) (hline : "-->".toList <:+: line) : "-->".toList <:+: piece := by
  have hdash : ∀ gap, isBlank gap = true → '-' ∉ gap := by
    intro gap hgap hmem
    exact absurd (List.all_eq_true.mp hgap '-' hmem) (by decide)
  cases h with
  | line => exact Text.isInfix_of_not_mem (hdash indent hindent.isBlank) hline
  | blank _ hgap => exact absurd (hline.subset (by decide)) (hdash line hgap.isBlank)

theorem IsWritten.enclosed (h : IsWritten indent text written) (hindent : IsIndent indent)
    (htext : IsDescription text) : ¬"-->".toList <:+: '\n' :: Text.join "\n" written := by
  intro hend
  have hbreak : '-' ∉ ['\n'] := by decide
  have hjoin : "-->".toList <:+: Text.join ['\n'] written := Text.isInfix_of_not_mem hbreak hend
  obtain ⟨line, hline, hmark⟩ := Text.exists_isInfix_of_join (by decide) (by decide) hjoin
  obtain ⟨piece, hpiece, hwritten⟩ := h.exists_of_mem hline
  have hwithin : piece <:+: Text.join ['\n'] (Text.pieces '\n' text) := Text.isInfix_join hpiece
  rw [Text.join_pieces] at hwithin
  exact htext.enclosed ((hwritten.enclosed hindent hmark).trans hwithin)

theorem commentAt?_eq_none {text : Text} (h : ¬"<!--".toList <+: text) :
    commentAt? text = none := by
  have hafter : Text.after? "<!--" text = none := if_neg (by simpa using h)
  rw [commentAt?, hafter]
  rfl

theorem comment?_append (hbefore : ¬"<!--".toList <:+: before) {comment content : Text}
    (hcomment : commentAt? ("<!--" ++ comment) = some content) :
    comment? (before ++ ("<!--" ++ comment)) = some content := by
  have hmark : Text.IsMark "<!--".toList := by simp [Text.IsMark]
  induction before with
  | nil =>
      change (commentAt? ("<!--" ++ comment)).orElse _ = _
      rw [hcomment]
      rfl
  | cons c before ih =>
      have hbegins := Text.not_isPrefix_append hmark (fun h => hbefore h.isInfix)
        (List.cons_ne_nil c before) (.inr rfl : Text.MeetsMark "<!--" ("<!--" ++ comment))
      rw [List.cons_append] at hbegins ⊢
      rw [comment?, commentAt?_eq_none hbegins]
      exact ih (Text.not_isInfix_of_cons hbefore)

theorem IsWritten.cut?_commentBody (h : IsWritten indent text written)
    (hindent : IsIndent indent) (htext : IsDescription text) (behind : Text) :
    Text.cut? "-->" (commentBody written ++ ("-->" ++ behind)) =
      some (commentBody written, behind) := by
  have hcut := Text.cut?_append_cons (by decide) (by decide : '\n' ∉ "-->".toList)
    (h.enclosed hindent htext) behind
  have hbody : commentBody written ++ ("-->" ++ behind) =
      ('\n' :: Text.join "\n" written) ++ '\n' :: ("-->" ++ behind) := by
    simp [commentBody]
  rw [hbody]
  exact hcut

theorem commentAt?_written (hgap : isBlank gap = true) (h : IsWritten indent text written)
    (hindent : IsIndent indent) (htext : IsDescription text) (behind : Text) :
    commentAt? ("<!--" ++ (gap ++ ("@component" ++ (commentBody written ++ ("-->" ++ behind))))) =
      some (commentBody written) := by
  have hword : trimStart (gap ++ ("@component" ++ (commentBody written ++ ("-->" ++ behind)))) =
      "@component" ++ (commentBody written ++ ("-->" ++ behind)) :=
    Text.trimStart_eq_iff.mpr ⟨gap, hgap, rfl, by rintro _ ⟨⟩; rfl⟩
  -- The line break ends the word behind the at sign.
  have hends : Text.startsWord (commentBody written ++ ("-->" ++ behind)) = false := rfl
  simp only [commentAt?, Text.after?_eq_some_iff.mpr rfl, hword, hends,
    h.cut?_commentBody hindent htext, Option.bind_eq_bind, Option.bind_some]
  rfl

end Comment

/-- A description that is written into a comment, with its lines indented, is the description of
the template. -/
theorem description_recovered (options : Options) (script : Text) {text indent gap before : Text}
    {written : List Text} (htext : IsDescription text) (hindent : IsIndent indent)
    (hwritten : IsWritten indent text written) (hgap : isBlank gap = true)
    (hbefore : ¬"<!--".toList <:+: before) (behind : Text) :
    (TemplateApi.scan options (before ++ (descriptionComment gap written ++ behind))
      script).description = some text := by
  have hcomment := comment?_append hbefore (commentAt?_written hgap hwritten hindent htext behind)
  have htemplate : comment? (before ++ (descriptionComment gap written ++ behind)) =
      some (commentBody written) := by
    rw [← hcomment]
    simp [descriptionComment]
  have hne : text.isEmpty = false := by simp [htext.ne_nil]
  change templateDescription _ = some text
  rw [templateDescription, htemplate, Option.bind_some]
  dsimp only
  rw [hwritten.dedent_commentBody hindent htext, hne]
  rfl

theorem description_recovered_card :
    IsDescription "Shows a card.\n\n  - with a title" ∧
      IsWritten "    " "Shows a card.\n\n  - with a title"
        ["    Shows a card.", " ", "      - with a title"] ∧
      (TemplateApi.scan {} ("<p>a <! b</p>\n<" ++ (descriptionComment "\n  "
        ["    Shows a card.", " ", "      - with a title"] ++ "\n<slot />")) []).description =
          some "Shows a card.\n\n  - with a title" := by
  have htext : IsDescription "Shows a card.\n\n  - with a title" :=
    ⟨by decide, by decide, by decide, by decide⟩
  have hwritten : IsWritten "    " "Shows a card.\n\n  - with a title"
      ["    Shows a card.", " ", "      - with a title"] :=
    .cons (.line rfl) (.cons (.blank rfl ⟨rfl, by decide⟩) (.cons (.line rfl) .nil))
  exact ⟨htext, hwritten,
    description_recovered _ _ htext ⟨rfl, by decide⟩ hwritten rfl (by decide) _⟩

end ComponentDocs.Component
