import ComponentDocs.Proofs.Script.Lexemes

/-!
# Texts made of tokens

A piece is a token as it is written, with the blanks in front of it.  A text that is
written piece by piece is read token by token, if no piece runs into the next one.
-/

namespace ComponentDocs.Script

inductive Sign where
  | openBrace | closeBrace | openParen | closeParen | openBracket | closeBracket
  | semicolon | comma | colon | question | less | greater | bar | assign | minus
  deriving DecidableEq

variable {sign : Sign} {c : Char}

namespace Sign

def char : Sign → Char
  | openBrace => '\x7b'
  | closeBrace => '\x7d'
  | openParen => '('
  | closeParen => ')'
  | openBracket => '['
  | closeBracket => ']'
  | semicolon => ';'
  | comma => ','
  | colon => ':'
  | question => '?'
  | less => '<'
  | greater => '>'
  | bar => '|'
  | assign => '='
  | minus => '-'

def mark : Sign → Punctuator
  | openBrace => .openBrace
  | closeBrace => .closeBrace
  | openParen => .openParen
  | closeParen => .closeParen
  | openBracket => .openBracket
  | closeBracket => .closeBracket
  | semicolon => .semicolon
  | comma => .comma
  | colon => .colon
  | question => .question
  | less => .less
  | greater => .greater
  | bar => .bar
  | assign => .assign
  | minus => .minus

def all : List Sign :=
  [openBrace, closeBrace, openParen, closeParen, openBracket, closeBracket, semicolon, comma,
    colon, question, less, greater, bar, assign, minus]

theorem mem_all (sign : Sign) : sign ∈ all := by
  cases sign <;> decide

theorem mark_inj {other : Sign} : sign.mark = other.mark ↔ sign = other := by
  have hall : ∀ sign ∈ all, ∀ other ∈ all, sign.mark = other.mark → sign = other := by decide
  exact ⟨hall sign sign.mem_all other other.mem_all, congrArg mark⟩

def mayGoOn : Sign → Bool
  | question | less | bar | assign | minus => true
  | _ => false

end Sign

def extenders : Text := ['<', '=', '|', '?', '.', '>', '-']

theorem Punctuator.scan_sign (sign : Sign) {after : Text}
    (h : sign.mayGoOn = true → ∀ c ∈ after.head?, c ∉ extenders) :
    Punctuator.scan (sign.char :: after) = some (sign.mark, 1) := by
  cases after with
  | nil => cases sign <;> rfl
  | cons c after =>
      cases sign with
      | question | less | bar | assign | minus =>
          have hc := h rfl c rfl
          simp only [extenders, List.mem_cons, List.not_mem_nil, or_false, not_or] at hc
          simp [Punctuator.scan, Sign.char, Sign.mark, hc]
      | _ => rfl

inductive Gap where
  | opening
  | none
  | space
  | line
  deriving DecidableEq

namespace Gap

def text : Gap → Text
  | opening | none => []
  | space => [' ']
  | line => ['\n']

@[simp] theorem text_opening : opening.text = [] := rfl

@[simp] theorem text_none : none.text = [] := rfl

@[simp] theorem text_space : space.text = [' '] := rfl

@[simp] theorem text_line : line.text = ['\n'] := rfl

def breaks : Gap → Bool
  | opening | line => true
  | none | space => false

end Gap

inductive Body where
  | word (name : Name)
  | string (quoted : Quoted)
  | number (digits : Digits)
  | mark (sign : Sign)

variable {body : Body}

namespace Body

def chars : Body → Text
  | word name => name.text
  | string quoted => quoted.text
  | number digits => digits.text
  | mark sign => [sign.char]

@[simp] theorem chars_word (name : Name) : (word name).chars = name.text := rfl

@[simp] theorem chars_string (quoted : Quoted) : (string quoted).chars = quoted.text := rfl

@[simp] theorem chars_number (digits : Digits) : (number digits).chars = digits.text := rfl

@[simp] theorem chars_mark (sign : Sign) : (mark sign).chars = [sign.char] := rfl

def lexeme : Body → Lexeme
  | word name =>
      { kind := .name (Keyword.ofText? name.text), count := name.text.length, text := name.text,
        spelled := name.spelled }
  | string quoted => { kind := .string, count := quoted.text.length, text := quoted.inner }
  | number digits =>
      { kind := .number .decimal, count := digits.text.length, text := digits.text }
  | mark sign => { kind := .punctuator sign.mark, count := 1 }

@[simp] theorem kind_word (name : Name) :
    (word name).lexeme.kind = .name (Keyword.ofText? name.text) := rfl

@[simp] theorem kind_string (quoted : Quoted) : (string quoted).lexeme.kind = .string := rfl

@[simp] theorem kind_number (digits : Digits) :
    (number digits).lexeme.kind = .number .decimal := rfl

@[simp] theorem kind_mark (sign : Sign) : (mark sign).lexeme.kind = .punctuator sign.mark := rfl

def Meets (after : Text) : Body → Prop
  | word _ | number _ => Text.Delimited after
  | string _ => True
  | mark sign => sign.mayGoOn = true → ∀ c ∈ after.head?, c ∉ extenders

theorem count_lexeme (body : Body) : body.lexeme.count = body.chars.length := by
  cases body <;> rfl

theorem exists_cons (body : Body) : ∃ c rest, body.chars = c :: rest ∧
    isInlineBlank c = false ∧ isLineBreak c = false ∧ c ≠ '/' := by
  have hpart : ∀ {c}, Text.isAsciiPart c = true →
      isInlineBlank c = false ∧ isLineBreak c = false ∧ c ≠ '/' := by
    intro c hc
    simpa [and_assoc] using Text.of_isAsciiPart
      (p := fun c => !isInlineBlank c && !isLineBreak c && c != '/') (by decide) hc
  cases body with
  | word name =>
      obtain ⟨first, rest, htext, hfirst, -⟩ := name.exists_cons
      exact ⟨first, rest, htext, hpart (by simp [Text.isAsciiPart, hfirst])⟩
  | string quoted =>
      refine ⟨quoted.quote, _, rfl, ?_⟩
      rcases quoted.isQuote with hquote | hquote <;> rw [hquote] <;> decide
  | number digits =>
      obtain ⟨text, hne, hdigits, -, -⟩ := digits
      obtain ⟨d, rest, rfl⟩ := List.exists_cons_of_ne_nil hne
      rw [List.all_cons, Bool.and_eq_true] at hdigits
      exact ⟨d, rest, rfl, hpart (by simp [Text.isAsciiPart, hdigits.1])⟩
  | mark sign =>
      refine ⟨sign.char, [], rfl, ?_⟩
      cases sign <;> decide

theorem scan_chars {after : Text} (h : body.Meets after) :
    Lexeme.scan (body.chars ++ after) = body.lexeme := by
  cases body with
  | word name =>
      refine Eq.trans ?_ (Lexeme.ofName_append name h)
      obtain ⟨first, rest, htext, hfirst, -⟩ := name.exists_cons
      simp [chars, htext, Lexeme.scan, Text.isNameStart_of_startsIdentifier hfirst]
  | string quoted =>
      refine Eq.trans ?_ (Lexeme.ofString_append quoted after)
      rcases quoted.isQuote with hquote | hquote <;>
        simp [chars, Quoted.text, hquote, Lexeme.scan, Lexeme.startsFraction, Text.isNameStart]
  | number digits =>
      refine Eq.trans ?_ (Lexeme.ofNumber_append digits h)
      obtain ⟨text, hne, hdigits, -, -⟩ := digits
      obtain ⟨d, rest, rfl⟩ := List.exists_cons_of_ne_nil hne
      rw [List.all_cons, Bool.and_eq_true] at hdigits
      have hd := Text.of_isDigit (p := fun c => !Text.isNameStart c && c != '\\' && c != '#')
        (by decide) hdigits.1
      simp only [Bool.and_eq_true, Bool.not_eq_true', bne_iff_ne] at hd
      simp [chars, Lexeme.scan, hd, hdigits.1]
  | mark sign =>
      have hmark := Punctuator.scan_sign sign h
      have hscan : Lexeme.scan (sign.char :: after) = Lexeme.ofMark (sign.char :: after) := by
        cases sign <;> simp [Sign.char, Lexeme.scan, Text.isNameStart, Lexeme.startsFraction]
      simp [chars, lexeme, hscan, Lexeme.ofMark, hmark]

end Body

structure Piece where
  gap : Gap
  body : Body

def Piece.text (piece : Piece) : Text :=
  piece.gap.text ++ piece.body.chars

def written (pieces : List Piece) : Text :=
  pieces.flatMap Piece.text

@[simp] theorem written_nil : written [] = [] := rfl

@[simp] theorem written_cons (piece : Piece) (pieces : List Piece) :
    written (piece :: pieces) = piece.gap.text ++ (piece.body.chars ++ written pieces) := by
  simp [written, Piece.text]

@[simp] theorem written_append (first second : List Piece) :
    written (first ++ second) = written first ++ written second := by
  simp [written]

/-- No piece runs into the next one, and only the first piece opens a source. -/
def Lexes : List Piece → Prop
  | [] => True
  | piece :: rest =>
      piece.body.Meets (written rest) ∧ (∀ next ∈ rest.head?, next.gap ≠ .opening) ∧ Lexes rest

structure Follows (pieces : List Piece) : Prop where
  delimited : Text.Delimited (written pieces)
  head_gap : ∀ next ∈ pieces.head?, next.gap ≠ .opening
  lexes : Lexes pieces

theorem Follows.lexes_word {pieces : List Piece} (h : Follows pieces) (gap : Gap) (name : Name) :
    Lexes (⟨gap, .word name⟩ :: pieces) :=
  ⟨h.delimited, h.head_gap, h.lexes⟩

variable {rest : List Piece}

theorem Follows.of_space (h : Lexes (⟨.space, body⟩ :: rest)) :
    Follows (⟨.space, body⟩ :: rest) := by
  refine ⟨?_, ?_, h⟩
  · intro c hc
    cases hc
    decide
  · intro next hnext
    cases hnext
    exact Gap.noConfusion

theorem Follows.of_mark (hsign : sign ≠ .minus)
    (h : Lexes (⟨.none, .mark sign⟩ :: rest)) : Follows (⟨.none, .mark sign⟩ :: rest) := by
  refine ⟨?_, ?_, h⟩
  · intro c hc
    cases hc
    cases sign <;> first | contradiction | decide
  · intro next hnext
    cases hnext
    exact Gap.noConfusion

theorem Lexes.mark_cons (hsign : sign.mayGoOn = false) (gap : Gap)
    (hgap : ∀ next ∈ rest.head?, next.gap ≠ .opening) (h : Lexes rest) :
    Lexes (⟨gap, .mark sign⟩ :: rest) := by
  refine ⟨fun hgoes => ?_, hgap, h⟩
  rw [hsign] at hgoes
  contradiction

def Piece.token (length behind : Nat) (piece : Piece) : Token :=
  { kind := piece.body.lexeme.kind
    span := ⟨length - (piece.body.chars.length + behind), length - behind⟩
    onNewLine := piece.gap.breaks
    escaped := piece.body.lexeme.escaped
    sound := piece.body.lexeme.sound
    text := piece.body.lexeme.text
    spelled := piece.body.lexeme.spelled }

theorem Trivia.skip_token (trivia : Trivia) (position : Nat) (rest : Text)
    (hinline : isInlineBlank c = false) (hbreak : isLineBreak c = false) (hslash : c ≠ '/') :
    Trivia.skip .code trivia position (c :: rest) = (trivia, position, c :: rest) := by
  unfold Trivia.skip
  split
  all_goals simp_all

theorem Trivia.skip_blank (trivia : Trivia) (position : Nat) (rest : Text)
    (hinline : isInlineBlank c = true) (hslash : c ≠ '/') :
    Trivia.skip .code trivia position (c :: rest) =
      Trivia.skip .code trivia (position + 1) rest := by
  conv_lhs => unfold Trivia.skip
  split
  all_goals simp_all

theorem Trivia.skip_lineBreak (trivia : Trivia) (position : Nat) (rest : Text)
    (hinline : isInlineBlank c = false) (hbreak : isLineBreak c = true) (hslash : c ≠ '/') :
    Trivia.skip .code trivia position (c :: rest) =
      Trivia.skip .code (trivia.lineBreak c) (position + 1) rest := by
  conv_lhs => unfold Trivia.skip
  split
  all_goals simp_all

theorem Trivia.skip_gap {gap : Gap} (hgap : gap ≠ .opening) (body : Body) (after : Text)
    (behindOpener : Bool) (position : Nat) :
    Trivia.skip .code { behindOpener } position (gap.text ++ (body.chars ++ after)) =
      ({ behindOpener, onNewLine := gap.breaks, sawBreak := gap.breaks },
        position + gap.text.length, body.chars ++ after) := by
  obtain ⟨c, more, hchars, hinline, hbreak, hslash⟩ := body.exists_cons
  rw [hchars, List.cons_append]
  have htoken := fun trivia position =>
    Trivia.skip_token trivia position (more ++ after) hinline hbreak hslash
  cases gap with
  | opening => contradiction
  | none => exact htoken _ _
  | space => exact (Trivia.skip_blank _ _ _ (by decide) (by decide)).trans (htoken _ _)
  | line =>
      exact (Trivia.skip_lineBreak _ _ _ (by decide) (by decide) (by decide)).trans (htoken _ _)

theorem Lexed.next_of_skip {piece : Piece} {trivia : Trivia} {position length : Nat}
    (hmeets : piece.body.Meets (written rest)) (hlength : (written (piece :: rest)).length ≤ length)
    (hposition : position = length - (written (piece :: rest)).length)
    (hskip : Trivia.skip .code trivia position (written (piece :: rest)) =
      ({ trivia with onNewLine := piece.gap.breaks, sawBreak := piece.gap.breaks },
        position + piece.gap.text.length, piece.body.chars ++ written rest))
    (hclosed : trivia.closed = true) :
    Lexed.next trivia position (written (piece :: rest)) =
      { token := piece.token length (written rest).length, doc := trivia.doc,
        rest := written rest } := by
  have hstart : position + piece.gap.text.length =
      length - (piece.body.chars.length + (written rest).length) := by
    simp only [written_cons, List.length_append] at hlength hposition
    omega
  have hstop : length - (piece.body.chars.length + (written rest).length) +
      piece.body.chars.length = length - (written rest).length := by
    simp only [written_cons, List.length_append] at hlength
    omega
  simp only [Lexed.next, hskip, hclosed, ↓reduceIte, Body.scan_chars hmeets,
    Body.count_lexeme, List.drop_left, Piece.token, hstart, hstop]

theorem Lexed.next_written {piece : Piece} (hmeets : piece.body.Meets (written rest))
    (hgap : piece.gap ≠ .opening) (behindOpener : Bool) {length : Nat}
    (hlength : (written (piece :: rest)).length ≤ length) :
    Lexed.next { behindOpener } (length - (written (piece :: rest)).length)
        (written (piece :: rest)) =
      { token := piece.token length (written rest).length, doc := none, rest := written rest } := by
  refine Lexed.next_of_skip hmeets hlength rfl ?_ rfl
  rw [written_cons]
  exact Trivia.skip_gap hgap piece.body (written rest) behindOpener _

theorem Lexed.next_opening (hmeets : body.Meets (written rest)) :
    let pieces := ⟨.opening, body⟩ :: rest
    Lexed.next { onNewLine := true, sawBreak := true } 0 (written pieces) =
      { token := Piece.token (written pieces).length (written rest).length ⟨.opening, body⟩,
        doc := none, rest := written rest } := by
  obtain ⟨c, more, hchars, hinline, hbreak, hslash⟩ := body.exists_cons
  refine Lexed.next_of_skip hmeets (Nat.le_refl _) (Nat.sub_self _).symm ?_ rfl
  rw [written_cons, hchars]
  exact Trivia.skip_token _ _ _ hinline hbreak hslash

end ComponentDocs.Script
