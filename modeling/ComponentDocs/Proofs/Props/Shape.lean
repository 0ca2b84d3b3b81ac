import ComponentDocs.Component.FromText
import ComponentDocs.Proofs.Brackets
import ComponentDocs.Proofs.Props.Basic

/-!
# How props scripts are spelled

The texts of types, members and bindings: they are tidy, their brackets are balanced, and
none starts or ends with a mark that goes on with what is next to it.
-/

namespace ComponentDocs.Props

open ComponentDocs.Script (Name Quoted Digits)
open ComponentDocs.Component (Balanced Enclosed IsPiece isInert isPlain_of_comma)

theorem Name.tidy (name : Name) : Text.Tidy name.text := by
  obtain ⟨first, rest, htext, -, -⟩ := name.exists_cons
  refine .of_all (by simp [htext]) fun c hc => ?_
  simpa using name.of_mem (p := fun c => !Text.isSpace c) (by decide) hc

theorem Quoted.tidy (quoted : Quoted) : Text.Tidy quoted.text := by
  have hquote : Text.isSpace quoted.quote = false := by
    rcases quoted.isQuote with hquote | hquote <;> rw [hquote] <;> decide
  refine .of_all (by simp [Quoted.text]) fun c hc => ?_
  simp only [Quoted.text, List.mem_cons, List.mem_append, List.not_mem_nil, or_false] at hc
  rcases hc with rfl | hc | rfl
  · exact hquote
  · simpa using quoted.of_mem_inner (p := fun c => !Text.isSpace c) (by decide) hc
  · exact hquote

theorem tidy_append_brackets {text : Text} (h : Text.Tidy text) (rank : Nat) :
    Text.Tidy (text ++ brackets rank) := by
  cases rank with
  | zero => simpa [brackets] using h
  | succ rank =>
      refine h.append (.of_all (by simp [brackets, List.replicate_succ]) fun c hc => ?_)
      simp only [brackets, List.mem_flatten, List.mem_replicate] at hc
      obtain ⟨_, ⟨-, rfl⟩, hc⟩ := hc
      revert c
      decide

mutual

theorem TypeUnit.tidy (unit : TypeUnit) : Text.Tidy unit.text := by
  cases unit with
  | name name => exact Name.tidy name
  | literal literal => exact Quoted.tidy literal
  | generic name argument =>
      have hclose : Text.Tidy (argument.text ++ ['>']) := argument.tidy.append (.single (by decide))
      simpa [TypeUnit.text] using (Name.tidy name).append (.cons (c := '<') (by decide) hclose)
  | group inner =>
      have hclose : Text.Tidy (inner.text ++ [')']) := inner.tidy.append (.single (by decide))
      simpa [TypeUnit.text] using Text.Tidy.cons (c := '(') (by decide) hclose

theorem TypeExpr.tidy (type : TypeExpr) : Text.Tidy type.text := by
  cases type with
  | single unit rank => exact tidy_append_brackets unit.tidy rank
  | union unit rank others =>
      have hbar : Text.Tidy ('|' :: ' ' :: others.text) := .space (by decide) others.tidy
      simpa [TypeExpr.text] using (tidy_append_brackets unit.tidy rank).append_space hbar

end

theorem Name.balanced (name : Name) : Balanced name.text := by
  refine .of_all (List.all_eq_true.mpr fun c hc => ?_)
  simp [Component.isInert, List.all_eq_true.mp name.all_isAsciiPart c hc]

theorem balanced_brackets (rank : Nat) : Balanced (brackets rank) := by
  induction rank with
  | zero => exact .nil
  | succ rank ih =>
      have hpair : Balanced ['[', ']'] := .group (by decide) .nil
      simpa [brackets, List.replicate_succ] using hpair.append ih

mutual

theorem TypeUnit.balanced (unit : TypeUnit) : Balanced unit.text := by
  cases unit with
  | name name => exact Name.balanced name
  | literal literal => exact .quoted literal
  | generic name argument =>
      have hgroup : Balanced ('<' :: (argument.text ++ ['>'])) :=
        .group (by decide) argument.balanced
      simpa [TypeUnit.text] using (Name.balanced name).append hgroup
  | group inner =>
      have hgroup : Balanced ('(' :: (inner.text ++ [')'])) := .group (by decide) inner.balanced
      simpa [TypeUnit.text] using hgroup

theorem TypeExpr.balanced (type : TypeExpr) : Balanced type.text := by
  cases type with
  | single unit rank => exact unit.balanced.append (balanced_brackets rank)
  | union unit rank others =>
      have hbar : Balanced " | " := .of_all (by decide)
      exact ((unit.balanced.append (balanced_brackets rank)).append hbar).append others.balanced

end

theorem Member.balanced (member : Member) : Balanced member.text := by
  have hmark : Balanced (if member.optional then ("?" : Text) else []) := by
    cases member.optional <;> exact .of_all (by decide)
  have hcolon : Balanced ": " := .of_all (by decide)
  exact (((Name.balanced member.name).append hmark).append hcolon).append member.type.balanced

structure Edged (text : Text) : Prop where
  head : ∀ c ∈ text.head?, c ≠ '|' ∧ c ≠ ':'
  last : ∀ c ∈ text.getLast?, c ≠ '|' ∧ c ≠ ':'

theorem Edged.append {first second : Text} (hfirst : Edged first) (hsecond : Edged second) :
    Edged (first ++ second) := by
  constructor
  · intro c hc
    rw [List.head?_append, Option.mem_def, Option.or_eq_some_iff] at hc
    rcases hc with hc | ⟨-, hc⟩
    · exact hfirst.head c hc
    · exact hsecond.head c hc
  · intro c hc
    rw [List.getLast?_append, Option.mem_def, Option.or_eq_some_iff] at hc
    rcases hc with hc | ⟨-, hc⟩
    · exact hsecond.last c hc
    · exact hfirst.last c hc

theorem Edged.of_all {text : Text} (h : ∀ c ∈ text, c ≠ '|' ∧ c ≠ ':') : Edged text :=
  ⟨fun c hc => h c (List.mem_of_mem_head? hc), fun c hc => h c (List.mem_of_getLast? hc)⟩

theorem Name.edged (name : Name) : Edged name.text := by
  refine .of_all fun c hc => ?_
  simpa using name.of_mem (p := fun c => c != '|' && c != ':') (by decide) hc

theorem Quoted.edged (quoted : Quoted) : Edged quoted.text := by
  refine .of_all fun c hc => ?_
  simp only [Quoted.text, List.mem_cons, List.mem_append, List.not_mem_nil, or_false] at hc
  have hquote : quoted.quote ≠ '|' ∧ quoted.quote ≠ ':' := by
    rcases quoted.isQuote with hquote | hquote <;> rw [hquote] <;> decide
  rcases hc with rfl | hc | rfl
  · exact hquote
  · simpa using quoted.of_mem_inner (p := fun c => c != '|' && c != ':') (by decide) hc
  · exact hquote

theorem edged_brackets (rank : Nat) : Edged (brackets rank) := by
  refine .of_all fun c hc => ?_
  simp only [brackets, List.mem_flatten, List.mem_replicate] at hc
  obtain ⟨_, ⟨-, rfl⟩, hc⟩ := hc
  revert c
  decide

mutual

theorem TypeUnit.edged (unit : TypeUnit) : Edged unit.text := by
  cases unit with
  | name name => exact Name.edged name
  | literal literal => exact Quoted.edged literal
  | generic name argument =>
      have hopen : Edged "<" := .of_all (by decide)
      have hclose : Edged ">" := .of_all (by decide)
      exact (((Name.edged name).append hopen).append argument.edged).append hclose
  | group inner =>
      have hopen : Edged "(" := .of_all (by decide)
      have hclose : Edged ")" := .of_all (by decide)
      exact (hopen.append inner.edged).append hclose

theorem TypeExpr.edged (type : TypeExpr) : Edged type.text := by
  cases type with
  | single unit rank => exact unit.edged.append (edged_brackets rank)
  | union unit rank others =>
      have hbar : Edged " | " := ⟨by decide, by decide⟩
      exact ((unit.edged.append (edged_brackets rank)).append hbar).append others.edged

end

theorem Member.tidy (member : Member) : Text.Tidy member.text := by
  have hmark : ∀ c ∈ (if member.optional then ("?" : Text) else []) ++ [':'],
      Text.isSpace c = false := by
    cases member.optional <;> decide
  have hname : Text.Tidy (member.name.text ++
      ((if member.optional then ("?" : Text) else []) ++ [':'])) :=
    (Name.tidy member.name).append (.of_all (by simp) hmark)
  simpa [Member.text] using hname.append_space member.type.tidy

theorem Default.isAsciiPart_of_mem {fallback : Default} (h : ∀ quoted, fallback ≠ .string quoted)
    {c : Char} (hc : c ∈ fallback.text) : (Text.isAsciiPart c || c == '-') = true := by
  cases fallback with
  | boolean value =>
      revert c
      cases value <;> decide
  | null =>
      revert c
      decide
  | integer negative digits =>
      rcases List.mem_append.mp hc with hc | hc
      · have hminus : ∀ c ∈ (if negative then ("-" : Text) else []),
            (Text.isAsciiPart c || c == '-') = true := by
          cases negative <;> decide
        exact hminus c hc
      · simp [Text.isAsciiPart, List.all_eq_true.mp digits.isDigit c hc]
  | string quoted => exact absurd rfl (h quoted)

theorem Default.text_ne_nil (fallback : Default) : fallback.text ≠ [] := by
  cases fallback with
  | boolean value => cases value <;> exact List.cons_ne_nil _ _
  | null => exact List.cons_ne_nil _ _
  | integer negative digits => exact List.append_ne_nil_of_right_ne_nil _ digits.ne_nil
  | string quoted => exact List.cons_ne_nil _ _

theorem Default.tidy (fallback : Default) : Text.Tidy fallback.text := by
  by_cases h : ∃ quoted, fallback = .string quoted
  · obtain ⟨quoted, rfl⟩ := h
    exact Quoted.tidy quoted
  · refine .of_all fallback.text_ne_nil fun c hc => ?_
    have hpart := isAsciiPart_of_mem (not_exists.mp h) hc
    rw [Bool.or_eq_true, beq_iff_eq] at hpart
    rcases hpart with hpart | rfl
    · simpa using Text.of_isAsciiPart (p := fun c => !Text.isSpace c) (by decide) hpart
    · decide

theorem Default.balanced (fallback : Default) : Balanced fallback.text := by
  by_cases h : ∃ quoted, fallback = .string quoted
  · obtain ⟨quoted, rfl⟩ := h
    exact .quoted quoted
  · refine .of_all (List.all_eq_true.mpr fun c hc => ?_)
    have hpart := isAsciiPart_of_mem (not_exists.mp h) hc
    rw [Bool.or_eq_true, beq_iff_eq] at hpart
    rcases hpart with hpart | rfl
    · simp [Component.isInert, hpart]
    · decide

theorem Binding.tidy (binding : Binding) : Text.Tidy binding.text := by
  obtain ⟨name, fallback⟩ := binding
  cases fallback with
  | none => exact Name.tidy name
  | some fallback =>
      have hassign : Text.Tidy ('=' :: ' ' :: fallback.text) := .space (by decide) fallback.tidy
      simpa [Binding.text] using (Name.tidy name).append_space hassign

theorem Member.isPiece (member : Member) :
    IsPiece Component.separatesMembers member.text := by
  refine member.balanced.isPiece (fun c hc => ?_) fun c hc => ?_
  all_goals
    simp only [Component.separatesMembers, Bool.or_eq_true, beq_iff_eq] at hc
    rcases hc with (rfl | rfl) | rfl <;> decide

theorem Binding.not_mem (binding : Binding) {c : Char} (hc : Balanced.characters c = false)
    (hassign : c ≠ '=') : c ∉ binding.text := by
  have hblank : c ≠ ' ' := by
    rintro rfl
    exact absurd hc (by decide)
  obtain ⟨name, fallback⟩ := binding
  cases fallback with
  | none => exact (Name.balanced name).not_mem hc
  | some fallback =>
      simp [Binding.text, (Name.balanced name).not_mem hc, fallback.balanced.not_mem hc, hassign,
        hblank]

theorem Binding.enclosed (binding : Binding) : Enclosed binding.text := by
  obtain ⟨name, fallback⟩ := binding
  cases fallback with
  | none => exact (Name.balanced name).enclosed
  | some fallback =>
      exact ((Name.balanced name).enclosed.append (.of_all (by decide))).append
        fallback.balanced.enclosed

theorem Binding.isPiece (binding : Binding) : IsPiece (· == ',') binding.text := by
  have hcomma : ∀ c, (c == ',') = true → isInert c = false := by
    intro c hc
    rw [beq_iff_eq.mp hc]
    decide
  obtain ⟨name, fallback⟩ := binding
  cases fallback with
  | none => exact (Name.balanced name).isPiece hcomma isPlain_of_comma
  | some fallback =>
      exact (((Name.balanced name).isPiece hcomma isPlain_of_comma).append
        (.of_all (by decide))).append (fallback.balanced.isPiece hcomma isPlain_of_comma)

end ComponentDocs.Props
