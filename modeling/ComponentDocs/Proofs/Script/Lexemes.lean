import ComponentDocs.Script.Lexer
import ComponentDocs.Text.Scan
import Mathlib.Data.List.Basic

/-!
# Names, strings and numbers

Tokens of ASCII characters are read as they are written, if something follows them that
goes on with none of them.
-/

namespace ComponentDocs

variable {c : Char} {p : Char → Bool}

namespace Text

theorem forall_ascii (h : ∀ code < 128, p (Char.ofNat code) = true)
    (hc : c.toNat < 128) : p c = true := by
  have hcode := h c.toNat hc
  rwa [Char.ofNat_toNat] at hcode

def isAsciiPart (c : Char) : Bool :=
  startsIdentifier c || c.isDigit

def isAsciiName : Text → Bool
  | [] => false
  | c :: rest => startsIdentifier c && rest.all isAsciiPart

theorem lt_of_isAsciiPart (h : isAsciiPart c = true) : c.toNat < 128 := by
  simp only [isAsciiPart, startsIdentifier, isAsciiLetter, Char.isDigit, Bool.or_eq_true,
    Bool.and_eq_true, decide_eq_true_eq, beq_iff_eq, Char.le_def, UInt32.le_iff_toNat_le,
    ge_iff_le] at h
  rcases h with (((⟨-, hz⟩ | ⟨-, hz⟩) | rfl) | rfl) | ⟨-, hnine⟩
  · exact Nat.lt_of_le_of_lt hz (by decide)
  · exact Nat.lt_of_le_of_lt hz (by decide)
  · decide
  · decide
  · exact Nat.lt_of_le_of_lt hnine (by decide)

theorem of_isAsciiPart
    (h : ∀ code < 128, (!isAsciiPart (Char.ofNat code) || p (Char.ofNat code)) = true)
    (hc : isAsciiPart c = true) : p c = true := by
  have hall := forall_ascii (p := fun c => !isAsciiPart c || p c) h (lt_of_isAsciiPart hc)
  simpa [hc] using hall

theorem of_isDigit (h : ∀ code < 128, (!(Char.ofNat code).isDigit || p (Char.ofNat code)) = true)
    (hc : c.isDigit = true) : p c = true := by
  have hpart : isAsciiPart c = true := by simp [isAsciiPart, hc]
  have hall := forall_ascii (p := fun c => !c.isDigit || p c) h (lt_of_isAsciiPart hpart)
  simpa [hc] using hall

theorem isNamePart_of_isAsciiPart (h : isAsciiPart c = true) :
    (isNamePart c && c != '\\') = true :=
  of_isAsciiPart (p := fun c => isNamePart c && c != '\\') (by decide) h

theorem isNameStart_of_startsIdentifier (h : startsIdentifier c = true) :
    isNameStart c = true := by
  have hpart : isAsciiPart c = true := by simp [isAsciiPart, h]
  have hall := of_isAsciiPart (p := fun c => !startsIdentifier c || isNameStart c)
    (by decide) hpart
  simpa [h] using hall

def delimiters : Text :=
  [' ', '\n', ':', ';', ',', '?', '[', ']', '<', '>', '(', ')', '\x7b', '\x7d', '|', '=']

def Delimited (text : Text) : Prop :=
  ∀ c ∈ text.head?, c ∈ delimiters

theorem of_delimiter (h : delimiters.all p = true) (hc : c ∈ delimiters) : p c = true :=
  List.all_eq_true.mp h c hc

end Text

namespace Script

structure Name where
  text : Text
  isName : Text.isAsciiName text = true

theorem Name.exists_cons (name : Name) :
    ∃ first rest, name.text = first :: rest ∧ Text.startsIdentifier first = true ∧
      rest.all Text.isAsciiPart = true := by
  obtain ⟨text, hname⟩ := name
  cases text with
  | nil => contradiction
  | cons first rest =>
      rw [Text.isAsciiName, Bool.and_eq_true] at hname
      exact ⟨first, rest, rfl, hname⟩

theorem Name.all_isAsciiPart (name : Name) : name.text.all Text.isAsciiPart = true := by
  obtain ⟨first, rest, htext, hfirst, hrest⟩ := name.exists_cons
  simp [htext, hrest, Text.isAsciiPart, hfirst]

theorem Name.of_mem (name : Name)
    (h : ∀ code < 128, (!Text.isAsciiPart (Char.ofNat code) || p (Char.ofNat code)) = true)
    (hc : c ∈ name.text) : p c = true :=
  Text.of_isAsciiPart h (List.all_eq_true.mp name.all_isAsciiPart c hc)

variable {after : Text}

theorem scanNameFrom_part {text : Text} (htext : text.all Text.isAsciiPart = true)
    (hafter : Text.Delimited after) :
    scanNameFrom Text.isNamePart 0 (text ++ after) = some ⟨text, text.length, false⟩ := by
  induction text with
  | nil =>
      cases after with
      | nil => simp [scanNameFrom]
      | cons c after =>
          have hc := Text.of_delimiter (p := fun c => !Text.isNamePart c && c != '\\')
            (by decide) (hafter c rfl)
          simp only [Bool.and_eq_true, Bool.not_eq_true', bne_iff_ne] at hc
          simp [scanNameFrom, hc]
  | cons c text ih =>
      rw [List.all_cons, Bool.and_eq_true] at htext
      have hc := Text.isNamePart_of_isAsciiPart htext.1
      simp only [Bool.and_eq_true, bne_iff_ne] at hc
      simp [scanNameFrom, hc, ih htext.2]

theorem Name.scanName_append (name : Name) (hafter : Text.Delimited after) :
    scanName (name.text ++ after) = some ⟨name.text, name.text.length, false⟩ := by
  obtain ⟨first, rest, htext, hfirst, hrest⟩ := name.exists_cons
  have hpart : Text.isAsciiPart first = true := by simp [Text.isAsciiPart, hfirst]
  have hc := Text.isNamePart_of_isAsciiPart hpart
  simp only [Bool.and_eq_true, bne_iff_ne] at hc
  simp [htext, scanName, scanNameFrom, hc, Text.isNameStart_of_startsIdentifier hfirst,
    scanNameFrom_part hrest hafter]

theorem Name.spelled (name : Name) : name.text.all Text.isNameCharacter = true := by
  rw [List.all_eq_true]
  intro c hc
  have hpart := List.all_eq_true.mp name.all_isAsciiPart c hc
  have hname := Text.isNamePart_of_isAsciiPart hpart
  simp only [Bool.and_eq_true] at hname
  simp [Text.isNameCharacter, hname.1]

theorem Lexeme.ofName_append (name : Name) (hafter : Text.Delimited after) :
    Lexeme.ofName (name.text ++ after) =
      { kind := .name (Keyword.ofText? name.text), count := name.text.length, text := name.text,
        spelled := name.spelled } := by
  obtain ⟨first, rest, htext, -, -⟩ := name.exists_cons
  have hscan := name.scanName_append hafter
  unfold Lexeme.ofName
  split
  · next h =>
      rw [hscan, htext] at h
      cases h
  · next h =>
      rw [hscan] at h
      cases h
  · next scanned _ h =>
      rw [hscan] at h
      cases h
      rfl

structure Quoted where
  quote : Char
  inner : Text
  isQuote : quote = '"' ∨ quote = '\''
  isPlain : inner.all (fun c => Text.isAsciiPart c || c == '-') = true

def Quoted.text (quoted : Quoted) : Text :=
  quoted.quote :: (quoted.inner ++ [quoted.quote])

theorem Quoted.of_mem_inner (quoted : Quoted)
    (h : ∀ code < 128, (!(Text.isAsciiPart (Char.ofNat code) || Char.ofNat code == '-') ||
      p (Char.ofNat code)) = true) (hc : c ∈ quoted.inner) : p c = true := by
  have hplain := List.all_eq_true.mp quoted.isPlain c hc
  have hascii : c.toNat < 128 := by
    rw [Bool.or_eq_true, beq_iff_eq] at hplain
    rcases hplain with hpart | rfl
    · exact Text.lt_of_isAsciiPart hpart
    · decide
  have hall := Text.forall_ascii
    (p := fun c => !(Text.isAsciiPart c || c == '-') || p c) h hascii
  simpa [hplain] using hall

theorem scanStringFrom_append (quote : Char) (inner after : Text)
    (h : ∀ c ∈ inner, c ≠ '\\' ∧ c ≠ quote ∧ c ≠ '\n' ∧ c ≠ '\r') (hquote : quote ≠ '\\') :
    scanStringFrom quote 0 (inner ++ quote :: after) =
      some (inner.map Char.toNat, inner.length + 1, false) := by
  induction inner with
  | nil => simp [scanStringFrom, hquote]
  | cons c inner ih =>
      rw [List.forall_mem_cons] at h
      simp [scanStringFrom, h.1, ih h.2]

theorem joinSurrogates_of_lt {codes : List Nat} (h : ∀ code ∈ codes, code < 128) :
    joinSurrogates codes = codes := by
  fun_induction joinSurrogates codes with
  | case1 high low rest hpair ih =>
      have hhigh := h high (by simp)
      simp only [Text.isHighSurrogate, Bool.and_eq_true, decide_eq_true_eq] at hpair
      omega
  | case2 high low rest _ ih => rw [ih fun code hcode => h code (by simp [hcode])]
  | case3 codes => rfl

theorem textOfCodes_map_toNat {text : Text} (h : ∀ c ∈ text, c.toNat < 128) :
    textOfCodes (text.map Char.toNat) = text := by
  have hcodes : ∀ code ∈ text.map Char.toNat, code < 128 := by simpa using h
  have hplain : (text.map Char.toNat).any Text.isSurrogate = false := by
    rw [List.any_eq_false]
    intro code hcode
    have hlt := hcodes code hcode
    simp only [Text.isSurrogate, Text.isHighSurrogate, Text.isLowSurrogate, Bool.or_eq_true,
      Bool.and_eq_true, decide_eq_true_eq]
    omega
  have hid : Char.ofNat ∘ Char.toNat = id := funext Char.ofNat_toNat
  rw [textOfCodes, joinSurrogates_of_lt hcodes, hplain]
  simp [hid]

theorem Quoted.scanString_append (quoted : Quoted) (after : Text) :
    scanString quoted.quote (quoted.inner ++ quoted.quote :: after) =
      some (quoted.inner.map Char.toNat, quoted.inner.length + 1, false) := by
  refine scanStringFrom_append quoted.quote quoted.inner after (fun c hc => ?_) ?_
  · have hplain := quoted.of_mem_inner
      (p := fun c => c != '\\' && c != '"' && c != '\'' && c != '\n' && c != '\r')
      (by decide) hc
    simp only [Bool.and_eq_true, bne_iff_ne] at hplain
    rcases quoted.isQuote with hquote | hquote <;> simp [hquote, hplain]
  · rcases quoted.isQuote with hquote | hquote <;> simp [hquote]

theorem Lexeme.ofString_append (quoted : Quoted) (after : Text) :
    Lexeme.ofString quoted.quote (quoted.inner ++ quoted.quote :: after) =
      { kind := .string, count := quoted.text.length, text := quoted.inner } := by
  have hascii : ∀ c ∈ quoted.inner, c.toNat < 128 := by
    intro c hc
    simpa using quoted.of_mem_inner (p := fun c => decide (c.toNat < 128)) (by decide) hc
  simp [Lexeme.ofString, quoted.scanString_append, textOfCodes_map_toNat hascii, Quoted.text]

/-- A decimal number of at most fifteen digits without a leading zero. -/
structure Digits where
  text : Text
  ne_nil : text ≠ []
  isDigit : text.all Char.isDigit = true
  length_le : text.length ≤ 15
  noLeadingZero : text.head? = some '0' → text.length = 1

theorem Radix.isDigit_decimal (h : c.isDigit = true) :
    (Radix.isDigit .decimal c && c != '_') = true :=
  Text.of_isDigit (p := fun c => Radix.isDigit .decimal c && c != '_') (by decide) h

theorem Radix.not_isDigit_delimiter (h : c ∈ Text.delimiters) :
    Radix.isDigit .decimal c = false := by
  simpa using Text.of_delimiter (p := fun c => !Radix.isDigit .decimal c) (by decide) h

theorem scanDigits_append {digits : Text} (hdigits : digits.all Char.isDigit = true)
    (hafter : Text.Delimited after) :
    scanDigits .decimal (digits ++ after) = some (digits, digits.length) := by
  induction digits with
  | nil =>
      rw [List.nil_append, scanDigits.eq_def]
      split
      · rfl
      · next c rest =>
          have hc := Radix.not_isDigit_delimiter (hafter c rfl)
          simp [hc]
      · next c rest _ =>
          have hc := Radix.not_isDigit_delimiter (hafter c rfl)
          simp [hc]
  | cons c digits ih =>
      rw [List.all_cons, Bool.and_eq_true] at hdigits
      have hc := Radix.isDigit_decimal hdigits.1
      rw [Bool.and_eq_true] at hc
      rw [List.cons_append, scanDigits.eq_def]
      split
      · contradiction
      · next c' rest heq =>
          -- no separator follows, neither among the digits nor behind them
          rw [List.cons.injEq] at heq
          cases digits with
          | nil =>
              have hline := hafter '_' (by rw [← List.nil_append after, heq.2]; rfl)
              exact absurd hline (by decide)
          | cons d digits =>
              rw [List.cons_append, List.cons.injEq] at heq
              rw [heq.2.1] at hdigits
              simp [List.all_cons] at hdigits
      · next c' rest _ heq =>
          rw [List.cons.injEq] at heq
          rw [← heq.1, ← heq.2, if_pos hc.1, ih hdigits.2]
          rfl

theorem scanDecimal_append {digits : Text} (hdigits : digits.all Char.isDigit = true)
    (hafter : Text.Delimited after) :
    scanDecimal (digits ++ after) = some ⟨.decimal, digits, digits.length, false⟩ := by
  simp only [scanDecimal, scanDigits_append hdigits hafter, Option.bind_some, List.drop_left]
  cases after with
  | nil => simp [scanFraction, scanExponent]
  | cons c after =>
      have hc := Text.of_delimiter (p := fun c => c != 'n' && c != '.' && c != 'e' && c != 'E')
        (by decide) (hafter c rfl)
      simp only [Bool.and_eq_true, bne_iff_ne] at hc
      simp [scanFraction, scanExponent, hc]

theorem endsNumber_of_delimited (h : Text.Delimited after) :
    endsNumber after = true := by
  cases after with
  | nil => rfl
  | cons c after =>
      exact Text.of_delimiter (p := fun c => endsNumber [c]) (by decide) (h c rfl)

theorem Digits.scanNumber_append (digits : Digits) (hafter : Text.Delimited after) :
    scanNumber (digits.text ++ after) =
      some ⟨.decimal, digits.text, digits.text.length, false⟩ := by
  have hdecimal := scanDecimal_append digits.isDigit hafter
  have hends := endsNumber_of_delimited hafter
  suffices h : scanNumber (digits.text ++ after) = (scanDecimal (digits.text ++ after)).bind
      fun number =>
        if endsNumber ((digits.text ++ after).drop number.count) then some number else none by
    simp [h, hdecimal, hends]
  obtain ⟨text, hne, hdigits, -, hzero⟩ := digits
  unfold scanNumber
  dsimp only
  cases text with
  | nil => contradiction
  | cons d digits =>
      split
      · next mark rest heq =>
          -- the zero stands alone, so what follows it is no mark of a radix
          rw [List.cons_append, List.cons.injEq] at heq
          obtain ⟨rfl, heq⟩ := heq
          have halone : digits = [] := by simpa using hzero rfl
          rw [halone, List.nil_append] at heq
          have hmark := Text.of_delimiter
            (p := fun c => c != 'x' && c != 'X' && c != 'o' && c != 'O' && c != 'b' && c != 'B' &&
              !c.isDigit && c != '_')
            (by decide) (hafter mark (by rw [heq]; rfl))
          simp only [Bool.and_eq_true, bne_iff_ne, Bool.not_eq_true'] at hmark
          simp [hmark]
      · next rest heq =>
          rw [List.cons_append, List.cons.injEq] at heq
          rw [heq.1] at hdigits
          simp [List.all_cons] at hdigits
      · rfl

theorem Lexeme.ofNumber_append (digits : Digits) (hafter : Text.Delimited after) :
    Lexeme.ofNumber (digits.text ++ after) =
      { kind := .number .decimal, count := digits.text.length, text := digits.text } := by
  simp [Lexeme.ofNumber, digits.scanNumber_append hafter]

end Script

end ComponentDocs
