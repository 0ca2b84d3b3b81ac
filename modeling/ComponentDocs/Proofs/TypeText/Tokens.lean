import ComponentDocs.Proofs.Script.Reaches
import ComponentDocs.Proofs.Text.Identifiers

/-!
# The tokens of written types

Which characters are read as which token, whatever follows that does not go on with them,
and where a type ends.
-/

namespace ComponentDocs

namespace Text

def EndsName (text : Text) : Prop :=
  ∀ c ∈ text.head?, isNamePart c = false ∧ c ≠ '\\'

theorem Delimited.endsName {text : Text} (h : Delimited text) : EndsName text := by
  intro c hc
  have hdelimiter := of_delimiter (p := fun c => !isNamePart c && c != '\\') (by decide) (h c hc)
  simpa using hdelimiter

def blankCodes : List Nat :=
  [0x20, 0x9, 0xa, 0xb, 0xc, 0xd, 0x85, 0xa0, 0x1680, 0x180e, 0x2000, 0x2001, 0x2002, 0x2003,
    0x2004, 0x2005, 0x2006, 0x2007, 0x2008, 0x2009, 0x200a, 0x200b, 0x2028, 0x2029, 0x202f,
    0x205f, 0x3000, 0xfeff]

theorem not_isNameStart_of_mem_blankCodes {c : Char} (h : c.toNat ∈ blankCodes) :
    isNameStart c = false := by
  have hall : ∀ code ∈ blankCodes, isNameStart (Char.ofNat code) = false := by decide +kernel
  have hc := hall c.toNat h
  rwa [Char.ofNat_toNat] at hc

end Text

namespace Script

open ComponentDocs.Script.Parser

theorem mem_blankCodes_of_isInlineBlank {c : Char} (h : isInlineBlank c = true) :
    c.toNat ∈ Text.blankCodes := by
  simp only [isInlineBlank, Bool.or_eq_true, Bool.and_eq_true, beq_iff_eq,
    decide_eq_true_eq] at h
  rcases h with (((((((((((rfl | rfl) | h) | h) | h) | h) | h) | h) | h) | h) | h) | h) | h
  case inl.inl.inl.inl.inr =>
    simp only [Text.blankCodes, List.mem_cons, List.not_mem_nil, or_false]
    omega
  all_goals first | decide | (rw [h]; decide)

theorem mem_blankCodes_of_isLineBreak {c : Char} (h : isLineBreak c = true) :
    c.toNat ∈ Text.blankCodes := by
  simp only [isLineBreak, Bool.or_eq_true, beq_iff_eq] at h
  rcases h with ((rfl | rfl) | h) | h
  all_goals first | decide | (rw [h]; decide)

theorem of_isNameStart {c : Char} (h : Text.isNameStart c = true) :
    isInlineBlank c = false ∧ isLineBreak c = false ∧ c ≠ '/' := by
  refine ⟨Bool.eq_false_iff.mpr fun hblank => ?_, Bool.eq_false_iff.mpr fun hbreak => ?_, ?_⟩
  · rw [Text.not_isNameStart_of_mem_blankCodes (mem_blankCodes_of_isInlineBlank hblank)] at h
    contradiction
  · rw [Text.not_isNameStart_of_mem_blankCodes (mem_blankCodes_of_isLineBreak hbreak)] at h
    contradiction
  · rintro rfl
    exact absurd h (by decide)

structure Word where
  text : Text
  isName : Text.isNameText text = true

namespace Word

variable (word : Word)

theorem exists_cons : ∃ first rest, word.text = first :: rest ∧
    Text.isNameStart first = true ∧ rest.all Text.isNamePart = true := by
  obtain ⟨text, hname⟩ := word
  cases text with
  | nil => contradiction
  | cons first rest =>
      rw [Text.isNameText, Bool.and_eq_true] at hname
      exact ⟨first, rest, rfl, hname⟩

theorem spelled : word.text.all Text.isNameCharacter = true := by
  obtain ⟨first, rest, htext, hfirst, hrest⟩ := word.exists_cons
  rw [List.all_eq_true] at hrest
  simp only [htext, List.all_cons, Text.isNameCharacter, hfirst, Bool.true_or, Bool.true_and,
    List.all_eq_true, Bool.or_eq_true]
  exact fun c hc => .inr (hrest c hc)

def keyword : Option Keyword :=
  Keyword.ofText? word.text

def lexeme : Lexeme where
  kind := .name word.keyword
  count := word.text.length
  text := word.text
  spelled := word.spelled

end Word

theorem scanNameFrom_nameText {text after : Text} (htext : text.all Text.isNamePart = true)
    (hafter : Text.EndsName after) :
    scanNameFrom Text.isNamePart 0 (text ++ after) = some ⟨text, text.length, false⟩ := by
  induction text with
  | nil =>
      cases after with
      | nil => simp [scanNameFrom]
      | cons c after => simp [scanNameFrom, hafter c rfl]
  | cons c text ih =>
      rw [List.all_cons, Bool.and_eq_true] at htext
      have hc : c ≠ '\\' := by
        rintro rfl
        exact absurd htext.1 (by decide)
      simp [scanNameFrom, hc, htext.1, ih htext.2]

theorem Word.scans (word : Word) {after : Text} (hafter : Text.EndsName after) :
    Scans word.text after word.lexeme := by
  obtain ⟨first, rest, htext, hfirst, hrest⟩ := word.exists_cons
  have hne : first ≠ '\\' := by
    rintro rfl
    exact absurd hfirst (by decide)
  have hscan : scanName (word.text ++ after) = some ⟨word.text, word.text.length, false⟩ := by
    simp [htext, scanName, scanNameFrom, hne, hfirst, scanNameFrom_nameText hrest hafter]
  have hname : Lexeme.scan (word.text ++ after) = Lexeme.ofName (word.text ++ after) := by
    simp [htext, Lexeme.scan, hfirst]
  refine ⟨hname.trans ?_, rfl, first, rest, htext, of_isNameStart hfirst⟩
  unfold Lexeme.ofName
  split
  · next h =>
      rw [hscan, htext] at h
      cases h
  · next h =>
      rw [hscan] at h
      cases h
  · next scanned _ h =>
      rw [hscan] at h
      cases h
      rfl

structure PlainString where
  quote : Char
  inner : Text
  isQuote : quote = '"' ∨ quote = '\''
  isPlain : inner.all (fun c => c != '\\' && c != quote && c != '\n' && c != '\r') = true

namespace PlainString

variable (string : PlainString)

def text : Text :=
  string.quote :: (string.inner ++ [string.quote])

def lexeme : Lexeme where
  kind := .string
  count := string.text.length
  text := textOfCodes (string.inner.map Char.toNat)

theorem scans (after : Text) : Scans string.text after string.lexeme := by
  have hquote : string.quote ≠ '\\' ∧ isInlineBlank string.quote = false ∧
      isLineBreak string.quote = false ∧ string.quote ≠ '/' := by
    rcases string.isQuote with hquote | hquote <;> rw [hquote] <;> decide
  refine ⟨?_, rfl, string.quote, _, rfl, hquote.2⟩
  have hscan : scanString string.quote (string.inner ++ string.quote :: after) =
      some (string.inner.map Char.toNat, string.inner.length + 1, false) := by
    refine scanStringFrom_append string.quote string.inner after (fun c hc => ?_) hquote.1
    have hplain := List.all_eq_true.mp string.isPlain c hc
    simpa [and_assoc] using hplain
  have hstring : Lexeme.scan (string.text ++ after) =
      Lexeme.ofString string.quote (string.inner ++ string.quote :: after) := by
    rcases string.isQuote with hquote | hquote <;>
      simp [text, hquote, Lexeme.scan, Lexeme.startsFraction, Text.isNameStart]
  rw [hstring]
  simp [Lexeme.ofString, hscan, lexeme, text]

end PlainString

theorem scans_sign (sign : Sign) {after : Text}
    (h : sign.mayGoOn = true → ∀ c ∈ after.head?, c ∉ extenders) :
    Scans [sign.char] after (Body.mark sign).lexeme :=
  ⟨(Body.mark sign).scan_chars h, rfl, (Body.mark sign).exists_cons⟩

theorem scans_arrow (after : Text) :
    Scans ['=', '>'] after { kind := .punctuator .arrow, count := 2 } :=
  ⟨rfl, rfl, '=', ['>'], rfl, by decide⟩

theorem scans_ellipsis (after : Text) :
    Scans ['.', '.', '.'] after { kind := .punctuator .ellipsis, count := 3 } :=
  ⟨rfl, rfl, '.', ['.', '.'], rfl, by decide⟩

theorem scans_dot {after : Text} (h : ∀ c ∈ after.head?, c ≠ '.' ∧ c.isDigit = false) :
    Scans ['.'] after { kind := .punctuator .dot, count := 1 } := by
  refine ⟨?_, rfl, '.', [], rfl, by decide⟩
  cases after with
  | nil => rfl
  | cons c after =>
      obtain ⟨hdot, hdigit⟩ := h c rfl
      have hscan : Punctuator.scan ('.' :: c :: after) = some (.dot, 1) := by
        simp [Punctuator.scan, hdot]
      have hmark : Lexeme.scan ('.' :: c :: after) = Lexeme.ofMark ('.' :: c :: after) := by
        simp [Lexeme.scan, Lexeme.startsFraction, hdigit, Text.isNameStart]
      simp [hmark, Lexeme.ofMark, hscan]

theorem scans_ampersand {after : Text} (h : ∀ c ∈ after.head?, c ≠ '&' ∧ c ≠ '=') :
    Scans ['&'] after { kind := .punctuator .ampersand, count := 1 } := by
  refine ⟨?_, rfl, '&', [], rfl, by decide⟩
  cases after with
  | nil => rfl
  | cons c after =>
      obtain ⟨hmeet, hassign⟩ := h c rfl
      have hscan : Punctuator.scan ('&' :: c :: after) = some (.ampersand, 1) := by
        simp [Punctuator.scan, hmeet, hassign]
      have hmark : Lexeme.scan ('&' :: c :: after) = Lexeme.ofMark ('&' :: c :: after) := rfl
      simp [hmark, Lexeme.ofMark, hscan]

theorem Cursor.Faces.sign {source after : Text} {cursor : Cursor} {spacing : Spacing}
    (sign : Sign) (h : cursor.Faces source (spacing.text ++ sign.char :: after))
    (hmeets : sign.mayGoOn = true → ∀ c ∈ after.head?, c ∉ extenders) :
    cursor.Stands source (Body.mark sign).lexeme after := by
  have hfaces : cursor.Faces source (spacing.text ++ ([sign.char] ++ after)) := h
  exact (hfaces.stands (scans_sign sign hmeets)).1

theorem Cursor.Faces.word {source after : Text} {cursor : Cursor} {spacing : Spacing}
    {word : Word} (h : cursor.Faces source (spacing.text ++ (word.text ++ after)))
    (hafter : Text.EndsName after) : cursor.Stands source word.lexeme after :=
  (h.stands (word.scans hafter)).1

def enders : Text :=
  [' ', ')', ';', ',', '[']

/-- The blank in front of a punctuator that ends a type. -/
def stopSpacing : Punctuator → Spacing
  | .closeBrace | .bar | .ampersand => .loose
  | _ => .tight

/-- The text begins with the punctuator, as it is written behind a type; without one there is
nothing more to read. -/
inductive Ends : Option Punctuator → Text → Prop where
  | nil : Ends none []
  | mark {mark : Punctuator} {chars after : Text}
      (hscan : Scans chars after { kind := .punctuator mark, count := chars.length })
      (hhead : ∀ c ∈ ((stopSpacing mark).text ++ chars).head?, c ∈ enders) :
      Ends (some mark) ((stopSpacing mark).text ++ (chars ++ after))

def endKind : Option Punctuator → TokenKind
  | none => .endOfSource
  | some mark => .punctuator mark

def endSpacing (stop : Option Punctuator) : Spacing :=
  stop.elim .tight stopSpacing

namespace Ends

variable {stop : Option Punctuator} {text source : Text} {cursor : Cursor}

theorem head_mem (h : Ends stop text) : ∀ c ∈ text.head?, c ∈ enders := by
  cases h with
  | nil => simp
  | mark hscan hhead =>
      obtain ⟨first, rest, rfl, -⟩ := hscan.exists_cons
      intro c hc
      refine hhead c ?_
      rw [← List.append_assoc, List.head?_append] at hc
      simpa using hc

theorem token_spec (h : Ends stop text) (hcursor : cursor.Faces source text) :
    cursor.token.kind = endKind stop ∧ cursor.token.onNewLine = false ∧
      cursor.token.escaped = false ∧ cursor.token.text = [] ∧
        cursor.token.span.start = cursor.previousStop + (endSpacing stop).text.length := by
  cases h with
  | nil =>
      obtain ⟨-, ⟨behindOpener, htoken, -⟩, hstop⟩ := hcursor
      rw [htoken, hstop]
      exact ⟨rfl, rfl, rfl, rfl, rfl⟩
  | mark hscan =>
      obtain ⟨hstands, -⟩ := hcursor.stands hscan
      exact ⟨hstands.kind_eq, hstands.onNewLine_eq, hstands.escaped_eq, hstands.text_eq,
        hcursor.start_eq hscan⟩

end Ends

/-- The text begins with one of the punctuators, or there is nothing more to read. -/
def Stops (marks : List Punctuator) (after : Text) : Prop :=
  ∃ stop, (∀ mark ∈ stop, mark ∈ marks) ∧ Ends stop after

def closers : List Punctuator :=
  [.closeParen, .semicolon, .closeBrace]

def joinStops : List Punctuator :=
  .bar :: closers

def meetStops : List Punctuator :=
  .ampersand :: joinStops

def unitStops : List Punctuator :=
  .openBracket :: meetStops

namespace Stops

variable {marks : List Punctuator} {source after : Text} {cursor : Cursor}

theorem nil : Stops marks [] :=
  ⟨none, by simp, .nil⟩

theorem kind_eq (h : Stops marks after) (hcursor : cursor.Faces source after) :
    cursor.token.kind = .endOfSource ∨ ∃ mark ∈ marks, cursor.token.kind = .punctuator mark := by
  obtain ⟨stop, hmarks, hends⟩ := h
  cases stop with
  | none => exact .inl (hends.token_spec hcursor).1
  | some mark => exact .inr ⟨mark, hmarks mark rfl, (hends.token_spec hcursor).1⟩

theorem onNewLine_eq (h : Stops marks after) (hcursor : cursor.Faces source after) :
    cursor.token.onNewLine = false := by
  obtain ⟨stop, -, hends⟩ := h
  exact (hends.token_spec hcursor).2.1

theorem mono {more : List Punctuator} (h : Stops marks after) (hmarks : marks ⊆ more) :
    Stops more after := by
  obtain ⟨stop, hstop, hends⟩ := h
  exact ⟨stop, fun mark hmark => hmarks (hstop mark hmark), hends⟩

theorem scans {mark : Punctuator} {chars : Text} (hmark : mark ∈ marks)
    (hscan : Scans chars after { kind := .punctuator mark, count := chars.length })
    (hhead : ∀ c ∈ ((stopSpacing mark).text ++ chars).head?, c ∈ enders) :
    Stops marks ((stopSpacing mark).text ++ (chars ++ after)) :=
  ⟨some mark, by simpa using hmark, .mark hscan hhead⟩

theorem sign (sign : Sign) (hmark : sign.mark ∈ marks)
    (hhead : ∀ c ∈ ((stopSpacing sign.mark).text ++ [sign.char]).head?, c ∈ enders)
    (hmeets : sign.mayGoOn = true → ∀ c ∈ after.head?, c ∉ extenders) :
    Stops marks ((stopSpacing sign.mark).text ++ sign.char :: after) :=
  scans hmark (scans_sign sign hmeets) hhead

theorem is_eq_false (h : Stops marks after) (hfaces : cursor.Faces source after)
    (mark : Punctuator) (hmark : mark ∉ marks) : cursor.token.is mark = false := by
  rw [Token.is, beq_eq_false_iff_ne]
  intro hkind
  rcases h.kind_eq hfaces with hend | ⟨other, hother, heq⟩
  · rw [hkind] at hend
    contradiction
  · rw [hkind] at heq
    cases heq
    exact hmark hother

theorem kind_ne_name (h : Stops marks after) (hfaces : cursor.Faces source after)
    (word : Option Keyword) : cursor.token.kind ≠ .name word := by
  intro hkind
  rcases h.kind_eq hfaces with hend | ⟨other, -, heq⟩
  · rw [hkind] at hend
    contradiction
  · rw [hkind] at heq
    contradiction

theorem isKeyword_eq_false (h : Stops marks after) (hfaces : cursor.Faces source after)
    (word : Keyword) : cursor.token.isKeyword word = false := by
  rw [Token.isKeyword, Bool.and_eq_false_iff]
  exact .inl (beq_eq_false_iff_ne.mpr (h.kind_ne_name hfaces _))

end Stops

end Script

end ComponentDocs
