import ComponentDocs.Proofs.Props.Basic
import ComponentDocs.Proofs.Script.Pieces

/-!
# The tokens of a props script

A props script is written piece by piece, and no piece of it runs into the next one.
-/

namespace ComponentDocs.Props

open ComponentDocs.Script (Name Quoted Digits Gap Body Sign Piece written Lexes Follows extenders)

abbrev word (gap : Gap) (name : Name) : Piece := ⟨gap, .word name⟩

abbrev sign (gap : Gap) (sign : Sign) : Piece := ⟨gap, .mark sign⟩

def bracketPieces : Nat → List Piece
  | 0 => []
  | rank + 1 => sign .none .openBracket :: sign .none .closeBracket :: bracketPieces rank

mutual

def TypeUnit.pieces (gap : Gap) : TypeUnit → List Piece
  | .name name => [word gap name]
  | .literal literal => [⟨gap, .string literal⟩]
  | .generic name argument =>
      word gap name :: sign .none .less :: (argument.pieces .none ++ [sign .none .greater])
  | .group inner => sign gap .openParen :: (inner.pieces .none ++ [sign .none .closeParen])

def TypeExpr.pieces (gap : Gap) : TypeExpr → List Piece
  | .single unit rank => unit.pieces gap ++ bracketPieces rank
  | .union unit rank others =>
      unit.pieces gap ++ bracketPieces rank ++ sign .space .bar :: others.pieces .space

end

def Member.pieces (member : Member) : List Piece :=
  word .space member.name ::
    ((if member.optional then [sign .none .question] else []) ++
      sign .none .colon :: member.type.pieces .space)

def Default.pieces : Default → List Piece
  | .boolean true => [word .space ⟨"true", by decide⟩]
  | .boolean false => [word .space ⟨"false", by decide⟩]
  | .null => [word .space ⟨"null", by decide⟩]
  | .integer true digits => [sign .space .minus, ⟨.none, .number digits⟩]
  | .integer false digits => [⟨.space, .number digits⟩]
  | .string quoted => [⟨.space, .string quoted⟩]

def fallbackPieces : Option Default → List Piece
  | none => []
  | some fallback => sign .space .assign :: fallback.pieces

def Binding.pieces (binding : Binding) : List Piece :=
  word .space binding.name :: fallbackPieces binding.fallback

def joined (separator : Sign) : List (List Piece) → List Piece
  | [] => []
  | [pieces] => pieces
  | pieces :: rest => pieces ++ sign .none separator :: joined separator rest

def interfaceName : Name := ⟨"interface", by decide⟩

theorem interfaceName_text : interfaceName.text = "interface".toList := rfl

def propsName : Name := ⟨"Props", by decide⟩

theorem propsName_text : propsName.text = "Props".toList := rfl

def letName : Name := ⟨"let", by decide⟩

theorem letName_text : letName.text = "let".toList := rfl

def runeName : Name := ⟨"$props", by decide⟩

theorem runeName_text : runeName.text = "$props".toList := rfl

def lastPieces : List Piece :=
  [sign .space .closeBrace, sign .none .colon, word .space propsName, sign .space .assign,
    word .space runeName, sign .none .openParen, sign .none .closeParen, sign .none .semicolon]

def Script.bindingPieces (script : Script) : List Piece :=
  word .line letName :: sign .space .openBrace ::
    (joined .comma (script.bindings.map Binding.pieces) ++ lastPieces)

def Script.pieces (script : Script) : List Piece :=
  word .opening interfaceName :: word .space propsName :: sign .space .openBrace ::
    (joined .semicolon (script.members.map Member.pieces) ++
      sign .space .closeBrace :: script.bindingPieces)

theorem written_bracketPieces (rank : Nat) : written (bracketPieces rank) = brackets rank := by
  induction rank with
  | zero => rfl
  | succ rank ih => simp [bracketPieces, ih, brackets, List.replicate_succ, Sign.char]

mutual

theorem TypeUnit.written_pieces (gap : Gap) (unit : TypeUnit) :
    written (unit.pieces gap) = gap.text ++ unit.text := by
  cases unit with
  | name name => simp [TypeUnit.pieces, TypeUnit.text]
  | literal literal => simp [TypeUnit.pieces, TypeUnit.text]
  | generic name argument =>
      simp [TypeUnit.pieces, TypeUnit.text, argument.written_pieces, Sign.char]
  | group inner =>
      simp [TypeUnit.pieces, TypeUnit.text, inner.written_pieces, Sign.char]

theorem TypeExpr.written_pieces (gap : Gap) (type : TypeExpr) :
    written (type.pieces gap) = gap.text ++ type.text := by
  cases type with
  | single unit rank =>
      simp [TypeExpr.pieces, TypeExpr.text, unit.written_pieces, written_bracketPieces]
  | union unit rank others =>
      simp [TypeExpr.pieces, TypeExpr.text, unit.written_pieces, written_bracketPieces,
        others.written_pieces, Sign.char]

end

theorem Member.written_pieces (member : Member) :
    written member.pieces = ' ' :: member.text := by
  obtain ⟨name, optional, type⟩ := member
  cases optional <;> simp [Member.pieces, Member.text, type.written_pieces, Sign.char]

theorem Default.written_pieces (fallback : Default) :
    written fallback.pieces = ' ' :: fallback.text := by
  cases fallback with
  | boolean value => cases value <;> rfl
  | null => rfl
  | integer negative digits =>
      cases negative <;> simp [Default.pieces, Sign.char] <;> rfl
  | string quoted =>
      simp [Default.pieces]
      rfl

theorem Binding.written_pieces (binding : Binding) :
    written binding.pieces = ' ' :: binding.text := by
  obtain ⟨name, fallback⟩ := binding
  cases fallback with
  | none => simp [Binding.pieces, fallbackPieces, Binding.text]
  | some fallback =>
      simp [Binding.pieces, fallbackPieces, Binding.text, fallback.written_pieces, Sign.char]

theorem written_joined (separator : Sign) (parts : List (List Piece)) :
    written (joined separator parts) = Text.join [separator.char] (parts.map written) := by
  fun_induction joined separator parts with
  | case1 => rfl
  | case2 pieces => simp [Text.join]
  | case3 pieces rest hrest ih =>
      obtain ⟨next, rest, rfl⟩ := List.exists_cons_of_ne_nil hrest
      simpa [Text.join] using ih

theorem Script.written_pieces (script : Script) : written script.pieces = script.text := by
  unfold Script.text
  simp [Script.pieces, Script.bindingPieces, written_joined, Function.comp_def,
    Member.written_pieces, Binding.written_pieces, Sign.char, lastPieces, interfaceName_text,
    propsName_text, letName_text, runeName_text]

variable {rest : List Piece} {gap : Gap} {mark : Sign}

theorem follows_brackets (h : Follows rest) (rank : Nat) :
    Follows (bracketPieces rank ++ rest) := by
  induction rank with
  | zero => exact h
  | succ rank ih =>
      have hclose : Follows (sign .none .closeBracket :: (bracketPieces rank ++ rest)) :=
        .of_mark (by decide) (.mark_cons rfl _ ih.head_gap ih.lexes)
      exact .of_mark (by decide) (.mark_cons rfl _ hclose.head_gap hclose.lexes)

def StartsBehind (gap : Gap) (pieces : List Piece) : Prop :=
  ∃ body rest, pieces = ⟨gap, body⟩ :: rest ∧
    (gap = .none → ∀ c ∈ body.chars.head?, c ∉ extenders)

theorem StartsBehind.head_gap {pieces : List Piece} (h : StartsBehind gap pieces)
    (hgap : gap ≠ .opening) : ∀ next ∈ pieces.head?, next.gap ≠ .opening := by
  obtain ⟨body, rest, rfl, -⟩ := h
  intro next hnext
  cases hnext
  exact hgap

theorem StartsBehind.lexes_cons {pieces : List Piece} (h : StartsBehind gap pieces)
    (hgap : gap ≠ .opening) (hlexes : Lexes pieces) (before : Gap) (mark : Sign) :
    Lexes (sign before mark :: pieces) := by
  refine ⟨fun _ c hc => ?_, h.head_gap hgap, hlexes⟩
  obtain ⟨body, rest, rfl, hbody⟩ := h
  obtain ⟨first, more, hchars, -⟩ := body.exists_cons
  rw [hchars] at hbody
  cases gap with
  | opening => contradiction
  | none => exact hbody rfl c (by simpa [hchars] using hc)
  | space | line =>
      cases hc
      decide

theorem startsBehind_sign (hmark : mark.char ∉ extenders) (gap : Gap)
    (rest : List Piece) : StartsBehind gap (sign gap mark :: rest) := by
  refine ⟨_, _, rfl, fun _ c hc => ?_⟩
  cases hc
  exact hmark

theorem startsBehind_word (gap : Gap) (name : Name) (rest : List Piece) :
    StartsBehind gap (word gap name :: rest) := by
  refine ⟨_, _, rfl, fun _ c hc => ?_⟩
  exact of_decide_eq_true (name.of_mem (p := fun c => decide (c ∉ extenders)) (by decide)
    (List.mem_of_mem_head? hc))

theorem startsBehind_number (gap : Gap) (digits : Digits) (rest : List Piece) :
    StartsBehind gap (⟨gap, .number digits⟩ :: rest) := by
  refine ⟨_, _, rfl, fun _ c hc => ?_⟩
  have hdigit := List.all_eq_true.mp digits.isDigit c (List.mem_of_mem_head? hc)
  exact of_decide_eq_true (Text.of_isDigit (p := fun c => decide (c ∉ extenders))
    (by decide) hdigit)

theorem startsBehind_string (gap : Gap) (quoted : Quoted) (rest : List Piece) :
    StartsBehind gap (⟨gap, .string quoted⟩ :: rest) := by
  refine ⟨_, _, rfl, fun _ c hc => ?_⟩
  cases hc
  rcases quoted.isQuote with hquote | hquote <;> rw [hquote] <;> decide

theorem TypeUnit.startsBehind (unit : TypeUnit) (gap : Gap) (rest : List Piece) :
    StartsBehind gap (unit.pieces gap ++ rest) := by
  cases unit with
  | name name => exact startsBehind_word gap name _
  | literal literal => exact startsBehind_string gap literal _
  | generic name argument => exact startsBehind_word gap name _
  | group inner => exact startsBehind_sign (by decide) gap _

theorem TypeExpr.startsBehind (type : TypeExpr) (gap : Gap) (rest : List Piece) :
    StartsBehind gap (type.pieces gap ++ rest) := by
  cases type with
  | single unit rank =>
      rw [TypeExpr.pieces, List.append_assoc]
      exact unit.startsBehind gap _
  | union unit rank others =>
      rw [TypeExpr.pieces, List.append_assoc, List.append_assoc]
      exact unit.startsBehind gap _

mutual

theorem TypeUnit.lexes_pieces (unit : TypeUnit) (gap : Gap) {rest : List Piece}
    (h : Follows rest) : Lexes (unit.pieces gap ++ rest) := by
  cases unit with
  | name name => exact h.lexes_word _ _
  | literal literal => exact ⟨trivial, h.head_gap, h.lexes⟩
  | generic name argument =>
      have hclose : Follows (sign .none .greater :: rest) :=
        .of_mark (by decide) (.mark_cons rfl _ h.head_gap h.lexes)
      have hless : Follows (sign .none .less ::
          (argument.pieces .none ++ sign .none .greater :: rest)) :=
        .of_mark (by decide) ((argument.startsBehind .none _).lexes_cons (by decide)
          (argument.lexes_pieces .none hclose) .none .less)
      rw [TypeUnit.pieces, List.cons_append, List.cons_append, List.append_assoc]
      exact hless.lexes_word _ _
  | group inner =>
      have hclose : Follows (sign .none .closeParen :: rest) :=
        .of_mark (by decide) (.mark_cons rfl _ h.head_gap h.lexes)
      rw [TypeUnit.pieces, List.cons_append, List.append_assoc]
      exact (inner.startsBehind .none _).lexes_cons (by decide) (inner.lexes_pieces .none hclose)
        gap .openParen

theorem TypeExpr.lexes_pieces (type : TypeExpr) (gap : Gap) {rest : List Piece}
    (h : Follows rest) : Lexes (type.pieces gap ++ rest) := by
  cases type with
  | single unit rank =>
      rw [TypeExpr.pieces, List.append_assoc]
      exact unit.lexes_pieces gap (follows_brackets h rank)
  | union unit rank others =>
      have hbar : Follows (sign .space .bar :: (others.pieces .space ++ rest)) :=
        .of_space ((others.startsBehind .space rest).lexes_cons (by decide)
          (others.lexes_pieces .space h) .space .bar)
      rw [TypeExpr.pieces, List.append_assoc, List.append_assoc]
      exact unit.lexes_pieces gap (follows_brackets hbar rank)

end

theorem Member.follows_pieces (member : Member) (h : Follows rest) :
    Follows (member.pieces ++ rest) := by
  have htype := member.type.lexes_pieces .space h
  have hcolon : Follows (sign .none .colon :: (member.type.pieces .space ++ rest)) :=
    .of_mark (by decide) ((member.type.startsBehind .space rest).lexes_cons (by decide) htype
      .none .colon)
  obtain ⟨name, optional, type⟩ := member
  cases optional with
  | false => exact .of_space (hcolon.lexes_word _ _)
  | true =>
      have hquestion : Follows (sign .none .question ::
          sign .none .colon :: (type.pieces .space ++ rest)) :=
        .of_mark (by decide) ((startsBehind_sign (by decide) .none _).lexes_cons (by decide)
          hcolon.lexes .none .question)
      exact .of_space (hquestion.lexes_word _ _)

theorem Default.startsBehind (fallback : Default) (rest : List Piece) :
    StartsBehind .space (fallback.pieces ++ rest) := by
  cases fallback with
  | boolean value => cases value <;> exact startsBehind_word .space _ _
  | null => exact startsBehind_word .space _ _
  | integer negative digits => cases negative <;> exact ⟨_, _, rfl, nofun⟩
  | string quoted => exact startsBehind_string .space quoted _

theorem Default.follows_pieces (fallback : Default) (h : Follows rest) :
    Follows (fallback.pieces ++ rest) := by
  have hword : ∀ name : Name, Follows (word .space name :: rest) :=
    fun name => .of_space (h.lexes_word _ _)
  cases fallback with
  | boolean value => cases value <;> exact hword _
  | null => exact hword _
  | integer negative digits =>
      have hdigits : ∀ gap, Lexes (⟨gap, .number digits⟩ :: rest) :=
        fun gap => ⟨h.delimited, h.head_gap, h.lexes⟩
      cases negative with
      | false => exact .of_space (hdigits .space)
      | true =>
          exact .of_space ((startsBehind_number .none digits rest).lexes_cons (by decide)
            (hdigits .none) .space .minus)
  | string quoted => exact .of_space ⟨trivial, h.head_gap, h.lexes⟩

theorem Binding.follows_pieces (binding : Binding) (h : Follows rest) :
    Follows (binding.pieces ++ rest) := by
  obtain ⟨name, fallback⟩ := binding
  cases fallback with
  | none => exact .of_space (h.lexes_word _ _)
  | some fallback =>
      have hfallback := fallback.follows_pieces h
      have hassign : Follows (sign .space .assign :: (fallback.pieces ++ rest)) :=
        .of_space ((fallback.startsBehind rest).lexes_cons (by decide) hfallback.lexes
          .space .assign)
      exact .of_space (hassign.lexes_word _ _)

theorem follows_joined {separator : Sign} (hgoes : separator.mayGoOn = false)
    {parts : List (List Piece)} (hparts : ∀ part ∈ parts, ∀ rest, Follows rest →
      Follows (part ++ rest)) (h : Follows rest) :
    Follows (joined separator parts ++ rest) := by
  fun_induction joined separator parts with
  | case1 => exact h
  | case2 part => exact hparts part (by simp) rest h
  | case3 part parts _ ih =>
      have hjoined := ih fun part hpart => hparts part (by simp [hpart])
      have hseparator : Follows (sign .none separator :: (joined separator parts ++ rest)) := by
        refine .of_mark ?_ (.mark_cons hgoes _ hjoined.head_gap hjoined.lexes)
        rintro rfl
        contradiction
      rw [List.append_assoc]
      exact hparts part (by simp) _ hseparator

theorem follows_lastPieces : Follows lastPieces := by
  refine .of_space ?_
  simp [Lexes, Body.Meets, Text.Delimited, Sign.mayGoOn, sign, word, Sign.char, Text.delimiters,
    extenders]

theorem Script.lexes_bindingPieces (script : Script) : Lexes script.bindingPieces := by
  have hbindings : Follows (joined .comma (script.bindings.map Binding.pieces) ++ lastPieces) := by
    refine follows_joined rfl (fun part hpart rest hrest => ?_) follows_lastPieces
    obtain ⟨binding, -, rfl⟩ := List.mem_map.mp hpart
    exact binding.follows_pieces hrest
  have hbrace : Follows (sign .space .openBrace ::
      (joined .comma (script.bindings.map Binding.pieces) ++ lastPieces)) :=
    .of_space (.mark_cons rfl _ hbindings.head_gap hbindings.lexes)
  exact hbrace.lexes_word _ _

theorem Script.lexes_pieces (script : Script) : Lexes script.pieces := by
  have hbindings := script.lexes_bindingPieces
  have hclose : Follows (sign .space .closeBrace :: script.bindingPieces) := by
    refine .of_space (.mark_cons rfl _ (fun next hnext => ?_) hbindings)
    cases hnext
    exact Gap.noConfusion
  have hmembers : Follows (joined .semicolon (script.members.map Member.pieces) ++
      sign .space .closeBrace :: script.bindingPieces) := by
    refine follows_joined rfl (fun part hpart rest hrest => ?_) hclose
    obtain ⟨member, -, rfl⟩ := List.mem_map.mp hpart
    exact member.follows_pieces hrest
  have hbrace : Follows (sign .space .openBrace ::
      (joined .semicolon (script.members.map Member.pieces) ++
        sign .space .closeBrace :: script.bindingPieces)) :=
    .of_space (.mark_cons rfl _ hmembers.head_gap hmembers.lexes)
  have hname : Follows (word .space propsName :: sign .space .openBrace ::
      (joined .semicolon (script.members.map Member.pieces) ++
        sign .space .closeBrace :: script.bindingPieces)) :=
    .of_space (hbrace.lexes_word _ _)
  exact hname.lexes_word _ _

def StartsWith (marks : List Sign) (pieces : List Piece) : Prop :=
  ∃ gap mark more, pieces = sign gap mark :: more ∧ gap.breaks = false ∧ mark ∈ marks

theorem StartsWith.of_sign {marks : List Sign} (hgap : gap.breaks = false) (hmark : mark ∈ marks)
    (more : List Piece) :
    StartsWith marks (sign gap mark :: more) :=
  ⟨gap, mark, more, rfl, hgap, hmark⟩

def Separates (mark : Sign) (separator rest : List Piece) : Prop :=
  separator = [sign .none mark] ∨
    separator = [] ∧ ∃ more, rest = sign .space .closeBrace :: more

theorem Separates.startsWith {separator : List Piece} {marks : List Sign}
    (h : Separates mark separator rest) (hmark : mark ∈ marks) (hclose : .closeBrace ∈ marks) :
    StartsWith marks (separator ++ rest) := by
  rcases h with rfl | ⟨rfl, more, rfl⟩
  · exact .of_sign rfl hmark rest
  · exact .of_sign rfl hclose more

theorem exists_separator (mark : Sign) (part : List Piece) (parts : List (List Piece))
    (more : List Piece) : ∃ separator,
      Separates mark separator (joined mark parts ++ sign .space .closeBrace :: more) ∧
        joined mark (part :: parts) ++ sign .space .closeBrace :: more =
          part ++ (separator ++ (joined mark parts ++ sign .space .closeBrace :: more)) := by
  cases parts with
  | nil => exact ⟨[], .inr ⟨rfl, more, rfl⟩, rfl⟩
  | cons next parts => exact ⟨_, .inl rfl, by simp [joined]⟩

end ComponentDocs.Props
