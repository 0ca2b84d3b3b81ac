import ComponentDocs.Proofs.Fallback.Patterns
import ComponentDocs.Proofs.Path
import ComponentDocs.Proofs.Text.Identifiers

/-!
# Parameters of functions that are recovered from their text

A parameter has a name, and it may have a type, a default or a mark that it can be left out.
From a list with commas each one is read, whatever brackets are nested in types and defaults.
-/

namespace ComponentDocs.Fallback

open ComponentDocs.Component

variable {c : Char} {previous : Option Char} {rest : Text}

section

variable {isBare : Char → Bool}

theorem cutDefault_cons {place next : Nesting} (h : Nesting.Step isBare place c next)
    (hbare : ∀ c, closesGroup c = true → isBare c = false) (hquote : place.quote = none)
    (hc : isQuote c = false) (hprevious : (previous == some '=') = (place.previous == some '='))
    (harrow : c = '=' → place.awaited = [] → rest.head? = some '>') :
    cutDefault place.awaited.length previous (c :: rest) =
      (cutDefault next.awaited.length (some c) rest).map fun (before, behind) =>
        (c :: before, behind) := by
  cases h with
  | quoted quote hquoted =>
      rw [hquote] at hquoted
      contradiction
  | opensQuote _ hopens =>
      rw [hc] at hopens
      contradiction
  | opens closer _ _ hpair =>
      obtain ⟨hopens, -, -⟩ := opener_cases hpair
      simp [cutDefault, hopens]
  | closes awaited _ _ hopens hcloses hends hawaited =>
      rw [Nesting.endsArrow, ← hprevious] at hends
      simp only [cutDefault, hopens, hends, hcloses, hawaited, Bool.false_eq_true, ↓reduceIte,
        List.length_cons, Nat.cast_add, Nat.cast_one, add_sub_cancel_right]
  | bare _ _ hopens hcloses houtside =>
      rw [Nesting.endsArrow, ← hprevious] at hcloses houtside
      cases hends : c == '>' && previous == some '=' with
      | true => simp only [cutDefault, hopens, hends, Bool.false_eq_true, ↓reduceIte]
      | false =>
          rw [hends] at hcloses houtside
          have hclose : closesGroup c = false := by
            rw [Bool.eq_false_iff]
            intro hclose
            have hawaited : place.awaited = [] := by simpa using hcloses hclose
            simpa [hbare c hclose] using houtside hawaited
          have hassigns : (c == '=' && (place.awaited.length : Int) == 0 &&
              assignsDefault previous rest.head?) = false := by
            -- an equals sign assigns nothing in brackets or as the start of an arrow
            by_cases hequals : c = '='
            · cases hawaited : place.awaited with
              | nil => simp [harrow hequals hawaited, assignsDefault]
              | cons => simp; omega
            · simp [hequals]
          simp only [cutDefault, hopens, hends, hclose, hassigns, Bool.false_eq_true, ↓reduceIte]

def onlyArrows (isBare : Char → Bool) : Nesting → Text → Bool
  | _, [] => true
  | place, c :: rest =>
      (c != '=' || !place.awaited.isEmpty || rest.head? == some '>') &&
        (place.next? isBare c).all fun next => onlyArrows isBare next rest

theorem cutDefault_append {place last : Nesting} {text : Text}
    (h : text.foldlM (Nesting.next? isBare) place = some last)
    (hbare : ∀ c, closesGroup c = true → isBare c = false) (hquote : place.quote = none)
    (hquotes : ∀ c ∈ text, isQuote c = false) (harrows : onlyArrows isBare place text = true)
    (hprevious : (previous == some '=') = (place.previous == some '=')) (rest : Text) :
    ∃ final, cutDefault place.awaited.length previous (text ++ rest) =
      (cutDefault last.awaited.length final rest).map fun (before, behind) =>
        (text ++ before, behind) := by
  induction text generalizing place previous with
  | nil =>
      cases h
      exact ⟨previous, by simp⟩
  | cons c text ih =>
      rw [List.foldlM_cons, Option.bind_eq_bind, Option.bind_eq_some_iff] at h
      obtain ⟨next, hnext, hlast⟩ := h
      rw [List.forall_mem_cons] at hquotes
      have hstep := Nesting.step_of_next? hnext
      rw [onlyArrows, hnext, Option.all_some, Bool.and_eq_true] at harrows
      have harrow : c = '=' → place.awaited = [] → (text ++ rest).head? = some '>' := by
        rintro rfl hawaited
        have hhead : text.head? = some '>' := by simpa [hawaited] using harrows.1
        rw [List.head?_append, hhead, Option.some_or]
      have hcut := cutDefault_cons hstep hbare hquote hquotes.1 hprevious harrow
      obtain ⟨hnone, hsame⟩ : next.quote = none ∧ next.previous = some c := by
        cases hstep with
        | quoted quote hquoted => simp [hquote] at hquoted
        | opensQuote _ hopens => simp [hquotes.1] at hopens
        | opens | closes | bare => exact ⟨rfl, rfl⟩
      obtain ⟨final, hfinal⟩ := ih hlast hnone hquotes.2 harrows.2 (by rw [hsame])
      refine ⟨final, ?_⟩
      rw [List.cons_append, hcut, hfinal]
      simp [Function.comp_def]

end

theorem cutDefault_plain {text : Text}
    (h : ∀ c ∈ text, opensGroup c = false ∧ closesGroup c = false ∧ c ≠ '=') (depth : Int)
    (hprevious : (previous == some '=') = false) (rest : Text) :
    ∃ final : Option Char, (final == some '=') = false ∧
      cutDefault depth previous (text ++ rest) =
        (cutDefault depth final rest).map fun (before, behind) => (text ++ before, behind) := by
  induction text generalizing previous with
  | nil => exact ⟨previous, hprevious, by simp⟩
  | cons c text ih =>
      rw [List.forall_mem_cons] at h
      have hc : (some c == some '=') = false := by simpa using h.1.2.2
      obtain ⟨final, hfinal, hcut⟩ := ih h.2 hc
      refine ⟨final, hfinal, ?_⟩
      simp [cutDefault, h.1, hcut, Function.comp_def]

structure Annotation where
  text : Text
  ne_nil : text ≠ []
  trimmed : Text.trim text = text
  unquoted : text.all (fun c => !isQuote c) = true
  isNested : isNested (isInline (· == ',')) text = true
  onlyArrows : onlyArrows (isInline (· == ',')) {} text = true
  noSeparator : text.getLast? ≠ some ';'

structure Initial where
  text : Text
  ne_nil : text ≠ []
  trimmed : Text.trim text = text
  isNested : isNested (isInline (· == ',')) text = true

inductive ArgumentForm
  | bare
  | typed (optional : Bool) (type : Annotation)
  | defaulted (type : Annotation) (fallback : Initial)

structure Argument where
  before : Text
  name : Text
  form : ArgumentForm
  after : Text
  isBefore : Text.isBlank before = true
  isName : Text.isIdentifier name = true
  isAfter : Text.isBlank after = true

def Annotation.cleaned (type : Annotation) : Text :=
  Text.normalize (type.text.dropWhile (· == '|'))

def ArgumentForm.text : ArgumentForm → Text
  | .bare => []
  | .typed optional type => (if optional then ['?'] else []) ++ (": " ++ type.text)
  | .defaulted type fallback => ": " ++ (type.text ++ (" = " ++ fallback.text))

def Argument.bareText (argument : Argument) : Text :=
  argument.name ++ argument.form.text

def Argument.text (argument : Argument) : Text :=
  argument.before ++ (argument.bareText ++ argument.after)

def Argument.parameter (argument : Argument) : Parameter :=
  match argument.form with
  | .bare => { name := argument.name, type := Script.unknownType, required := true }
  | .typed optional type =>
      { name := argument.name, type := type.cleaned, required := !optional }
  | .defaulted type fallback =>
      { name := argument.name, type := type.cleaned, required := false,
        fallback := some (textValue fallback.text) }

def Argument.found (argument : Argument) : FoundBinding × Option Text :=
  match argument.form with
  | .bare => (⟨false, argument.name, false, none⟩, none)
  | .typed optional type => (⟨false, argument.name, optional, some type.cleaned⟩, none)
  | .defaulted type fallback =>
      (⟨false, argument.name, false, some type.cleaned⟩, some fallback.text)

theorem Argument.functionParameter_found (argument : Argument) :
    functionParameter argument.found = argument.parameter := by
  unfold found parameter
  cases argument.form <;> rfl

theorem Annotation.cleanType_text (type : Annotation) :
    cleanType (' ' :: type.text) = type.cleaned := by
  have htrim : Text.trim (' ' :: type.text) = type.text := by
    simpa [type.trimmed] using Text.trim_around [' '] type.text [] rfl rfl
  have hend : Text.dropEndWhile (fun c => c == ';' || c == ',') type.text = type.text := by
    refine Text.dropEndWhile_of_getLast? fun c hc => ?_
    have hlast := getLast?_of_isNested type.isNested c hc
    rw [Bool.eq_false_iff]
    intro hmark
    rw [Bool.or_eq_true, beq_iff_eq, beq_iff_eq] at hmark
    rcases hmark with rfl | rfl
    · exact type.noSeparator hc
    · exact absurd hlast (by decide)
  rw [cleanType, htrim, hend, cleaned]

def marks : List Char :=
  ['"', '\'', '\x60', '(', '[', '\x7b', '<', ')', ']', '\x7d', '>', '=', ',', '.', '?', ':', '*',
    ' ']

theorem plain_of_continuesIdentifier (h : Text.continuesIdentifier c = true) :
    isPlain c = true ∧ c ∉ marks := by
  have hmarks : ∀ mark ∈ marks, Text.continuesIdentifier mark = false := by decide
  have hnot : c ∉ marks := by
    intro hmem
    rw [hmarks c hmem] at h
    contradiction
  refine ⟨?_, hnot⟩
  simp only [marks, List.mem_cons, List.not_mem_nil, or_false, not_or] at hnot
  simp [isPlain, isQuote, opensGroup, closesGroup, hnot]

theorem continuesIdentifier_of_starts (h : Text.startsIdentifier c = true) :
    Text.continuesIdentifier c = true :=
  Text.of_isAsciiPart (p := Text.continuesIdentifier) (by decide) (by simp [Text.isAsciiPart, h])

theorem continues_of_isIdentifier {name : Text} (h : Text.isIdentifier name = true) :
    ∀ c ∈ name, Text.continuesIdentifier c = true := by
  obtain ⟨first, rest, rfl, hfirst, hrest⟩ := Text.exists_of_isIdentifier h
  exact List.forall_mem_cons.mpr ⟨continuesIdentifier_of_starts hfirst, hrest⟩

section

variable {name : Text}

theorem head?_name (h : Text.isIdentifier name = true) (rest : Text) :
    ∀ c ∈ (name ++ rest).head?, Text.isSpace c = false ∧ c ∉ marks := by
  obtain ⟨first, more, rfl, hfirst, -⟩ := Text.exists_of_isIdentifier h
  rintro c ⟨⟩
  exact ⟨Text.isSpace_of_startsIdentifier hfirst,
    (plain_of_continuesIdentifier (continuesIdentifier_of_starts hfirst)).2⟩

theorem trim_name_append (h : Text.isIdentifier name = true) (hne : rest ≠ [])
    (hrest : ∀ c ∈ rest.getLast?, Text.isSpace c = false) :
    Text.trim (name ++ rest) = name ++ rest := by
  rw [Text.trim_eq_self_iff]
  refine ⟨fun c hc => (head?_name h rest c hc).1, fun c hc => hrest c ?_⟩
  rwa [List.getLast?_append_of_ne_nil _ hne] at hc

theorem trim_name (h : Text.isIdentifier name = true) : Text.trim name = name := by
  rw [Text.trim_eq_self_iff]
  refine ⟨fun c hc => (head?_name h [] c (by simpa using hc)).1, fun c hc => ?_⟩
  exact Text.isSpace_of_continuesIdentifier
    (continues_of_isIdentifier h c (List.mem_of_getLast? hc))

theorem binding?_name_append (h : Text.isIdentifier name = true)
    (hrest : ∀ c ∈ rest.head?, Text.continuesIdentifier c = false) :
    binding? (name ++ rest) =
      if Text.isBlank (optionalMark rest).2 then
        some ⟨false, name, (optionalMark rest).1, none⟩
      else (typeBehindColon? (optionalMark rest).2).map fun type =>
        ⟨false, name, (optionalMark rest).1, some type⟩ := by
  have hdots : Text.after? "..." (name ++ rest) = none := by
    rw [Option.eq_none_iff_forall_ne_some]
    intro behind hbehind
    rw [Text.after?_eq_some_iff] at hbehind
    refine (head?_name h rest '.' ?_).2 (by decide)
    rw [hbehind]
    rfl
  rw [binding?, hdots]
  simp only [Text.identifier?_eq_some_iff.mpr ⟨h, rfl, hrest⟩, Option.bind_some]

def typedText (name : Text) (optional : Bool) (type : Annotation) : Text :=
  name ++ ((if optional then ['?'] else []) ++ (": " ++ type.text))

theorem trim_typedText (h : Text.isIdentifier name = true) (optional : Bool) (type : Annotation) :
    Text.trim (typedText name optional type) = typedText name optional type := by
  refine trim_name_append h (by simp) fun c hc => ?_
  rw [← List.append_assoc, List.getLast?_append_of_ne_nil _ type.ne_nil] at hc
  exact (Text.trim_eq_self_iff.mp type.trimmed).2 c hc

theorem binding?_typedText (h : Text.isIdentifier name = true) (optional : Bool)
    (type : Annotation) :
    binding? (typedText name optional type) =
      some ⟨false, name, optional, some type.cleaned⟩ := by
  have hcolon : typeBehindColon? (": " ++ type.text) = some type.cleaned := by
    change some (cleanType (' ' :: type.text)) = _
    rw [type.cleanType_text]
  have hblank : Text.isBlank (": " ++ type.text) = false := rfl
  rw [typedText, binding?_name_append h]
  · cases optional with
    | true =>
        change (if Text.isBlank (": " ++ type.text) then _ else
          (typeBehindColon? (": " ++ type.text)).map _) = _
        rw [hblank, hcolon]
        rfl
    | false =>
        change (if Text.isBlank (": " ++ type.text) then _ else
          (typeBehindColon? (": " ++ type.text)).map _) = _
        rw [hblank, hcolon]
        rfl
  · cases optional <;> rintro c ⟨⟩ <;> decide

theorem cutDefault_typedText (h : Text.isIdentifier name = true) (optional : Bool)
    (type : Annotation) (rest : Text) :
    ∃ final, cutDefault 0 none (typedText name optional type ++ rest) =
      (cutDefault 0 final rest).map fun (before, behind) =>
        (typedText name optional type ++ before, behind) := by
  have hfront : ∀ c ∈ name ++ ((if optional then ['?'] else []) ++ ": "),
      opensGroup c = false ∧ closesGroup c = false ∧ c ≠ '=' := by
    intro c hc
    rcases List.mem_append.mp hc with hname | hmark
    · obtain ⟨hplain, hnot⟩ := plain_of_continuesIdentifier (continues_of_isIdentifier h c hname)
      simp only [isPlain, Bool.and_eq_true, Bool.not_eq_true'] at hplain
      exact ⟨hplain.1.2, hplain.2, fun heq => hnot (heq ▸ by decide)⟩
    · have hmarks : ∀ optional : Bool, ∀ c ∈ ((if optional then ['?'] else []) ++ ": " : Text),
          opensGroup c = false ∧ closesGroup c = false ∧ c ≠ '=' := by decide
      exact hmarks optional c hmark
  have hquotes : ∀ c ∈ type.text, isQuote c = false := by
    simpa using type.unquoted
  obtain ⟨last, hread⟩ := exists_of_isNested type.isNested
  have hstart : ((none : Option Char) == some '=') = false := rfl
  obtain ⟨middle, hmiddle, hname⟩ := cutDefault_plain hfront 0 hstart (type.text ++ rest)
  obtain ⟨final, htype⟩ := cutDefault_append hread (by simp +contextual [isInline]) rfl hquotes
    type.onlyArrows hmiddle rest
  refine ⟨final, ?_⟩
  have htext : typedText name optional type ++ rest =
      (name ++ ((if optional then ['?'] else []) ++ ": ")) ++ (type.text ++ rest) := by
    simp [typedText]
  simp only [List.length_nil, Nat.cast_zero] at htype
  rw [htext, hname, htype]
  simp [typedText, Function.comp_def]

theorem splitDefault_typedText (h : Text.isIdentifier name = true) (optional : Bool)
    (type : Annotation) :
    splitDefault (typedText name optional type) = (typedText name optional type, none) := by
  obtain ⟨final, hcut⟩ := cutDefault_typedText h optional type []
  rw [List.append_nil] at hcut
  rw [splitDefault, hcut]
  rfl

theorem splitDefault_defaulted (h : Text.isIdentifier name = true) (type : Annotation)
    (fallback : Initial) :
    splitDefault (typedText name false type ++ (" = " ++ fallback.text)) =
      (typedText name false type ++ [' '], some fallback.text) := by
  obtain ⟨final, hcut⟩ := cutDefault_typedText h false type (" = " ++ fallback.text)
  have hequals : cutDefault 0 final (" = " ++ fallback.text) =
      some ([' '], ' ' :: fallback.text) := rfl
  have hfallback : Text.trim (' ' :: fallback.text) = fallback.text := by
    simpa [fallback.trimmed] using Text.trim_around [' '] fallback.text [] rfl rfl
  rw [hequals] at hcut
  simp only [splitDefault, hcut, Option.map_some, hfallback]

end

theorem item?_eq {piece text named : Text} {fallback : Option Text} {binding : FoundBinding}
    (htext : Text.trim piece = text) (hsplit : splitDefault text = (named, fallback))
    (hbinding : binding? (Text.trim named) = some binding) :
    item? piece = some (binding, fallback) := by
  simp only [item?, htext, hsplit, hbinding, Option.map_some]

theorem isPiece_of_isBlank {gap : Text} (h : Text.isBlank gap = true) : IsPiece (· == ',') gap := by
  have hall : ∀ code ∈ Text.spaceCodes,
      (isPlain (Char.ofNat code) && !(Char.ofNat code == ',')) = true := by decide
  refine .of_all (List.all_eq_true.mpr fun c hc => ?_)
  have hplain := hall c.toNat (Text.mem_spaceCodes (List.all_eq_true.mp h c hc))
  rwa [Char.ofNat_toNat] at hplain

namespace Argument

variable (argument : Argument)

theorem isPiece_name : IsPiece (· == ',') argument.name := by
  refine .of_all (List.all_eq_true.mpr fun c hc => ?_)
  obtain ⟨hplain, hnot⟩ :=
    plain_of_continuesIdentifier (continues_of_isIdentifier argument.isName c hc)
  have hcomma : c ≠ ',' := fun heq => hnot (heq ▸ by decide)
  simp [hplain, hcomma]

theorem isPiece_text : IsPiece (· == ',') argument.text := by
  have hform : IsPiece (· == ',') argument.form.text := by
    have hcolon : IsPiece (· == ',') (": " : Text) := .of_all (by decide)
    have htype : ∀ type : Annotation, IsPiece (· == ',') type.text := fun type =>
      .of_isInline type.isNested isPlain_of_comma
    cases argument.form with
    | bare => exact .of_all rfl
    | typed optional type =>
        refine IsPiece.append ?_ (hcolon.append (htype type))
        cases optional <;> exact .of_all (by decide)
    | defaulted type fallback =>
        have hequals : IsPiece (· == ',') (" = " : Text) := .of_all (by decide)
        have hfallback : IsPiece (· == ',') fallback.text :=
          .of_isInline fallback.isNested isPlain_of_comma
        exact hcolon.append ((htype type).append (hequals.append hfallback))
  exact (isPiece_of_isBlank argument.isBefore).append
    ((argument.isPiece_name.append hform).append (isPiece_of_isBlank argument.isAfter))

theorem item?_text : item? argument.text = some argument.found := by
  have htrim : Text.trim argument.text = Text.trim argument.bareText :=
    Text.trim_around _ _ _ argument.isBefore argument.isAfter
  have hname := argument.isName
  rw [bareText] at htrim
  rw [found]
  cases hform : argument.form with
  | bare =>
      have hnot : '=' ∉ argument.name := fun hmem =>
        absurd (continues_of_isIdentifier hname _ hmem) (by decide)
      rw [hform, ArgumentForm.text, List.append_nil, trim_name hname] at htrim
      have hsplit : splitDefault argument.name = (argument.name, none) := by
        rw [splitDefault, cutDefault_eq_none hnot]
      have hnone : ∀ c ∈ ([] : Text).head?, Text.continuesIdentifier c = false := by simp
      have hbinding := binding?_name_append hname hnone
      rw [List.append_nil] at hbinding
      exact item?_eq htrim hsplit ((congrArg binding? (trim_name hname)).trans hbinding)
  | typed optional type =>
      have htyped := trim_typedText hname optional type
      rw [hform] at htrim
      exact item?_eq (htrim.trans htyped) (splitDefault_typedText hname optional type)
        ((congrArg binding? htyped).trans (binding?_typedText hname optional type))
  | defaulted type fallback =>
      have htyped := trim_typedText hname false type
      have hlast : ∀ c ∈ (": " ++ (type.text ++ (" = " ++ fallback.text))).getLast?,
          Text.isSpace c = false := by
        simp only [← List.append_assoc]
        rw [List.getLast?_append_of_ne_nil _ fallback.ne_nil]
        exact (Text.trim_eq_self_iff.mp fallback.trimmed).2
      rw [hform, ArgumentForm.text, trim_name_append hname (by simp) hlast] at htrim
      have htext : argument.name ++ (": " ++ (type.text ++ (" = " ++ fallback.text))) =
          typedText argument.name false type ++ (" = " ++ fallback.text) := by
        simp [typedText]
      have hbefore : Text.trim (typedText argument.name false type ++ [' ']) =
          typedText argument.name false type := by
        simpa [htyped] using Text.trim_around [] (typedText argument.name false type) [' '] rfl rfl
      exact item?_eq (htrim.trans htext) (splitDefault_defaulted hname type fallback)
        ((congrArg binding? hbefore).trans (binding?_typedText hname false type))

end Argument

def argumentsText (arguments : List Argument) : Text :=
  Text.join [','] (arguments.map Argument.text)

theorem entries_argumentsText (arguments : List Argument) :
    entries (argumentsText arguments) = arguments.map Argument.found := by
  cases arguments with
  | nil => rfl
  | cons first others =>
      have hothers : ∀ other ∈ (others.map Argument.text).map (',', ·),
          (other.1 == ',') = true ∧ IsPiece (· == ',') other.2 := by
        simpa using fun argument _ => argument.isPiece_text
      have hsplit := splitTopLevel_interleave isPlain_of_comma first.isPiece_text hothers
      rw [← join_eq_interleave] at hsplit
      rw [entries, argumentsText, List.map_cons, hsplit]
      simp [Function.comp_def, Argument.item?_text]

end ComponentDocs.Fallback
