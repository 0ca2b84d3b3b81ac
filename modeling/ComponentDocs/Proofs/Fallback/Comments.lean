import ComponentDocs.Proofs.Fallback.Members
import ComponentDocs.Proofs.Sections.Scan

/-!
# Comments before members

A comment on its own line is passed over like a member, if its brackets are nested and its
quotes closed.  It describes the member that follows it.
-/

namespace ComponentDocs.Fallback

open ComponentDocs.Component

def isProse (c : Char) : Bool :=
  !separatesMembers c && c != '\x7d'

example : isNested isProse "one (or 'a; b', see below :) -> two" = true := by decide
example : isNested isProse "the user's name" = false := by decide

structure Comment where
  text : Text
  ne_nil : text ≠ []
  isTrimmed : Text.trim text = text
  isOneLine : '\n' ∉ text
  noEnd : ¬("*/" : Text) <:+: text
  isNested : isNested isProse text = true
  noRune : ¬("$props" : Text) <:+: text

namespace Comment

variable (comment : Comment)

def written : Text :=
  "/** " ++ (comment.text ++ " */")

def inside : Text :=
  ' ' :: (comment.text ++ [' '])

theorem written_eq : comment.written = "/**" ++ (comment.inside ++ "*/") := by
  simp only [written, inside, List.cons_append, List.append_assoc]
  rfl

theorem cut?_inside {stars : Text} (hstars : ¬("*/" : Text) <:+: stars) (rest : Text) :
    Text.cut? "*/" ((stars ++ comment.inside) ++ '*' :: '/' :: rest) =
      some (stars ++ comment.inside, rest) := by
  have hmark : Text.IsMark "*/" := (by decide : '*' ∉ ['/'])
  have hfree : ¬("*/" : Text) <:+: stars ++ comment.inside := by
    intro h
    rcases Text.isInfix_append_cons (by decide) h with hfirst | hrest
    · exact hstars hfirst
    rcases Text.isInfix_append_cons (by decide) hrest with htext | hend
    · exact comment.noEnd htext
    · exact absurd hend (by decide)
  have hcut := Text.cut?_append hmark hfree rest
  rwa [List.append_assoc] at hcut

theorem isPiece : IsPiece separatesMembers comment.written :=
  (IsPiece.of_all (by decide)).append
    ((IsPiece.of_isNested comment.isNested (fun c hc => by simp [isProse, hc])
      isPlain_of_separatesMembers).append (.of_all (by decide)))

theorem enclosed : Enclosed comment.written :=
  (Enclosed.of_all (by decide)).append
    ((Enclosed.of_isNested comment.isNested (by decide)).append (.of_all (by decide)))

theorem not_mem_newline : '\n' ∉ comment.written := by
  unfold written
  rw [List.mem_append, List.mem_append, not_or, not_or]
  exact ⟨by decide, comment.isOneLine, by decide⟩

theorem stripLongComments_skip (front rest : Text) :
    stripLongComments front.length (front ++ rest) = stripLongComments 0 rest := by
  induction front with
  | nil => rfl
  | cons c front ih => exact ih

theorem stripLongComments_written (rest : Text) :
    stripLongComments 0 (comment.written ++ rest) =
      comment.written ++ stripLongComments 0 rest := by
  have hwritten : comment.written = '/' :: (("**" ++ comment.inside) ++ "*/") := comment.written_eq
  have hbreak : comment.written.any (· == '\n') = false := by
    rw [List.any_beq', List.contains_eq_mem, decide_eq_false_iff_not]
    exact comment.not_mem_newline
  have hstart : Text.after? "/*" ('/' :: ((("**" ++ comment.inside) ++ "*/") ++ rest)) =
      some ('*' :: ((comment.inside ++ "*/") ++ rest)) := rfl
  have hcut : Text.cut? "*/" ((("**" ++ comment.inside) ++ "*/") ++ rest) =
      some ("**" ++ comment.inside, rest) := by
    rw [List.append_assoc]
    exact comment.cut?_inside (by decide) rest
  have hskip := stripLongComments_skip (("**" ++ comment.inside) ++ "*/") rest
  rw [List.length_append] at hskip
  rw [hwritten] at hbreak ⊢
  rw [List.cons_append, stripLongComments, hstart]
  simp only [hcut, List.cons_append, hbreak, Bool.false_eq_true, ↓reduceIte]
  exact congrArg (fun kept => '/' :: (("**" ++ comment.inside) ++ "*/" ++ kept)) hskip

theorem infix_of_isPrefixOf {rune text rest : Text} (hne : rune ≠ []) (hspace : ' ' ∉ rune)
    (hstar : '*' ∉ rune)
    (h : rune.isPrefixOf (Text.trimStart (text ++ ' ' :: '*' :: rest)) = true) :
    rune <:+: text := by
  obtain ⟨more, hmore⟩ := List.isPrefixOf_iff_prefix.mp h
  rw [Text.trimStart, List.dropWhile_append] at hmore
  split at hmore
  · obtain ⟨first, others, rfl⟩ := List.exists_cons_of_ne_nil hne
    have hstart : (' ' :: '*' :: rest).dropWhile Text.isSpace = '*' :: rest := rfl
    rw [hstart] at hmore
    cases hmore
    exact absurd (List.mem_cons_self ..) hstar
  · have hsuffix : text.dropWhile Text.isSpace <:+ text := List.dropWhile_suffix _
    refine List.IsInfix.trans ?_ hsuffix.isInfix
    rcases List.append_eq_append_iff.mp hmore with ⟨last, hlast, -⟩ | ⟨last, hlast, hrest⟩
    · exact ⟨[], last, hlast.symm⟩
    · cases last with
      | nil => exact ⟨[], [], by simp [hlast]⟩
      | cons d last =>
          rw [List.cons_append, List.cons.injEq] at hrest
          obtain ⟨rfl, -⟩ := hrest
          exact absurd (by simp [hlast]) hspace

theorem assigns_prose {text rest : Text} (htext : ¬("$props" : Text) <:+: text)
    (hrest : assigns "$props" rest = false) :
    assigns "$props" (text ++ ' ' :: '*' :: rest) = false := by
  induction text with
  | nil => simpa [assigns] using hrest
  | cons c text ih =>
      have hmore := Text.not_isInfix_of_cons htext
      have hstart : List.isPrefixOf ("$props" : Text)
          (Text.trimStart (text ++ ' ' :: '*' :: rest)) = false := by
        rw [Bool.eq_false_iff]
        exact fun h => hmore (infix_of_isPrefixOf (by decide) (by decide) (by decide) h)
      rw [List.cons_append, assigns, hstart, Bool.and_false, Bool.false_or]
      exact ih hmore

theorem assigns_written {rest : Text} (hrest : assigns "$props" rest = false) :
    assigns "$props" (comment.written ++ rest) = false := by
  have hslash : assigns "$props" ('/' :: rest) = false := by simpa [assigns] using hrest
  rw [written, List.append_assoc, List.append_assoc]
  exact assigns_append (by decide) (assigns_prose comment.noRune hslash)

theorem passed : Passed comment.written :=
  ⟨comment.enclosed, comment.stripLongComments_written, fun _ => comment.assigns_written⟩

theorem addPiece_written (lines : MemberLines) :
    lines.addPiece comment.written = { lines with pending := some comment.text } := by
  have htrim : Text.trim comment.written = comment.written := by
    rw [Text.trim_eq_self_iff]
    constructor
    · rintro c ⟨⟩
      decide
    · rw [written, List.getLast?_append_of_ne_nil _ (by simp),
        List.getLast?_append_of_ne_nil _ (by simp)]
      decide
  have hdoc : Text.after? "/**" comment.written = some (comment.inside ++ "*/") :=
    Text.after?_eq_some_iff.mpr comment.written_eq
  have hcut : Text.cut? "*/" (comment.inside ++ "*/") = some (comment.inside, []) :=
    comment.cut?_inside (by decide : ¬("*/" : Text) <:+: []) []
  have hinside : Text.trim comment.inside = comment.text := by
    simpa [inside, comment.isTrimmed] using Text.trim_around [' '] comment.text [' '] rfl rfl
  have hempty : comment.text.isEmpty = false := by simpa using comment.ne_nil
  have hbehind : isMemberless (Text.trim []) = true := by decide
  simp only [MemberLines.addPiece, htrim, hdoc, hcut, hinside, hempty, hbehind,
    Bool.false_eq_true, ↓reduceIte]

end Comment

end ComponentDocs.Fallback
