import ComponentDocs.Proofs.TypeText.Openings

/-!
# The tokens of quoted texts

A text that is quoted from a source is cut into its tokens.  If each of them is of a plain kind
and none runs into the next, then the text is read token by token wherever it stands.
-/

namespace ComponentDocs.Script

inductive Chunk where
  | word (word : Word)
  | string (string : PlainString)
  | number (digits : Digits)
  | sign (sign : Sign)
  | ampersand
  | arrow
  | dot
  | ellipsis

namespace Chunk

def chars : Chunk → Text
  | .word name => name.text
  | .string quoted => quoted.text
  | .number digits => digits.text
  | .sign mark => [mark.char]
  | .ampersand => ['&']
  | .arrow => ['=', '>']
  | .dot => ['.']
  | .ellipsis => ['.', '.', '.']

def lexeme : Chunk → Lexeme
  | .word name => name.lexeme
  | .string quoted => quoted.lexeme
  | .number digits => (Body.number digits).lexeme
  | .sign mark => (Body.mark mark).lexeme
  | .ampersand => { kind := .punctuator .ampersand, count := 1 }
  | .arrow => { kind := .punctuator .arrow, count := 2 }
  | .dot => { kind := .punctuator .dot, count := 1 }
  | .ellipsis => { kind := .punctuator .ellipsis, count := 3 }

/-- Whether the token ends in front of the character. -/
def endsAt (c : Char) : Chunk → Bool
  | .word _ => !Text.isNamePart c && c != '\\'
  | .number _ => decide (c ∈ Text.delimiters)
  | .sign mark => !mark.mayGoOn || decide (c ∉ extenders)
  | .ampersand => c != '&' && c != '='
  | .dot => c != '.' && !c.isDigit
  | .string _ | .arrow | .ellipsis => true

theorem endsAt_of_mem_enders {c : Char} (hc : c ∈ enders) (chunk : Chunk) :
    chunk.endsAt c = true := by
  have hall : ∀ c ∈ enders, (!Text.isNamePart c && c != '\\') = true ∧
      c ∈ Text.delimiters ∧ c ∉ extenders ∧
        (c != '&' && c != '=') = true ∧ (c != '.' && !c.isDigit) = true := by
    decide
  obtain ⟨hname, hdelimiter, hextender, hampersand, hdot⟩ := hall c hc
  cases chunk <;> simp_all [endsAt]

theorem scans (chunk : Chunk) {after : Text} (h : ∀ c ∈ after.head?, chunk.endsAt c = true) :
    Scans chunk.chars after chunk.lexeme := by
  cases chunk with
  | word word => exact word.scans fun c hc => by simpa [endsAt] using h c hc
  | string string => exact string.scans after
  | number digits =>
      have hafter : Text.Delimited after := fun c hc => by simpa [endsAt] using h c hc
      exact ⟨(Body.number digits).scan_chars hafter, rfl, (Body.number digits).exists_cons⟩
  | sign sign =>
      refine scans_sign sign fun hgoes c hc => ?_
      simpa [endsAt, hgoes] using h c hc
  | ampersand => exact scans_ampersand fun c hc => by simpa [endsAt] using h c hc
  | arrow => exact scans_arrow after
  | dot => exact scans_dot fun c hc => by simpa [endsAt] using h c hc
  | ellipsis => exact scans_ellipsis after

end Chunk

/-- A token of a quoted text, with the blank in front of it. -/
structure Scrap where
  spacing : Spacing
  chunk : Chunk

def Scrap.kind (scrap : Scrap) : TokenKind :=
  scrap.chunk.lexeme.kind

def scrapsText : List Scrap → Text
  | [] => []
  | scrap :: rest => scrap.spacing.text ++ (scrap.chunk.chars ++ scrapsText rest)

/-- Whether a parenthesis in front of the tokens cannot open a pattern, whatever follows them. -/
def opensPlainly : List Scrap → Bool
  | first :: _ :: _ => first.kind.opensPlainly
  | _ => false

/-- Whether no token runs into the next, what follows a parenthesis is plain, and no type is
inferred. -/
def arePlain : List Scrap → Bool
  | [] => true
  | scrap :: rest =>
      (scrapsText rest).head?.all (scrap.chunk.endsAt ·) &&
        (scrap.kind != .punctuator .openParen || opensPlainly rest) &&
        scrap.kind != .name (some .inferWord) && arePlain rest

theorem Scrap.scans {scrap : Scrap} {rest : List Scrap} {after : Text}
    (h : (scrapsText rest).head?.all (scrap.chunk.endsAt ·) = true)
    (hafter : ∀ c ∈ after.head?, c ∈ enders) :
    Scans scrap.chunk.chars (scrapsText rest ++ after) scrap.chunk.lexeme := by
  refine scrap.chunk.scans fun c hc => ?_
  rw [List.head?_append] at hc
  cases hhead : (scrapsText rest).head? with
  | none =>
      rw [hhead] at hc
      exact scrap.chunk.endsAt_of_mem_enders (hafter c hc)
  | some first =>
      rw [hhead] at h hc
      cases hc
      exact h

def Chunk.ofText? (text : Text) : Option Chunk :=
  if hname : Text.isNameText text = true then some (.word ⟨text, hname⟩)
  else if hdigits : text ≠ [] ∧ text.all Char.isDigit = true ∧ text.length ≤ 15 ∧
      (text.head? = some '0' → text.length = 1) then
    some (.number ⟨text, hdigits.1, hdigits.2.1, hdigits.2.2.1, hdigits.2.2.2⟩)
  else
    match text with
    | ['&'] => some .ampersand
    | ['=', '>'] => some .arrow
    | ['.'] => some .dot
    | ['.', '.', '.'] => some .ellipsis
    | [c] => (Sign.all.find? (·.char == c)).map .sign
    | quote :: rest =>
        if hstring : (quote = '"' ∨ quote = '\'') ∧ rest.dropLast.all
            (fun c => c != '\\' && c != quote && c != '\n' && c != '\r') = true then
          some (.string ⟨quote, rest.dropLast, hstring.1, hstring.2⟩)
        else none
    | [] => none

def scrapsFrom : Nat → Text → Option (List Scrap)
  | 0, _ => none
  | _, [] => some []
  | fuel + 1, text =>
      let spacing := if text.head? = some ' ' then Spacing.loose else .tight
      let text := text.drop spacing.text.length
      let count := (Lexeme.scan text).count
      (Chunk.ofText? (text.take count)).bind fun chunk =>
        (scrapsFrom fuel (text.drop count)).map (⟨spacing, chunk⟩ :: ·)

/-- The tokens of a text, if they are plain. -/
def scraps? (text : Text) : Option (List Scrap) :=
  (scrapsFrom (text.length + 1) text).filter fun scraps =>
    scrapsText scraps == text && arePlain scraps

theorem of_scraps? {text : Text} {scraps : List Scrap} (h : scraps? text = some scraps) :
    scrapsText scraps = text ∧ arePlain scraps = true := by
  rw [scraps?, Option.filter_eq_some_iff, Bool.and_eq_true, beq_iff_eq] at h
  exact h.2

end ComponentDocs.Script
