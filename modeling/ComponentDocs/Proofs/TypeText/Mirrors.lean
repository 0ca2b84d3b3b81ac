import ComponentDocs.Proofs.TypeText.Chunks

/-!
# Reading a text in two places

A quoted text stands alone, in front of a single punctuator, and within a source.  Two cursors
mirror each other if they stand in front of the same rest of the text.
-/

namespace ComponentDocs.Script

open ComponentDocs.Script.Parser

structure Token.Alike (token other : Token) : Prop where
  kind_eq : other.kind = token.kind
  onNewLine_eq : other.onNewLine = token.onNewLine
  escaped_eq : other.escaped = token.escaped
  text_eq : other.text = token.text

def stopMarks : List Punctuator :=
  .comma :: meetStops

/-- The token is not one in front of which a text may stand. -/
def Token.IsInner (token : Token) : Prop :=
  ∀ mark ∈ stopMarks, token.kind ≠ .punctuator mark

def stopChars : Punctuator → Text
  | .closeParen => [')']
  | .semicolon => [';']
  | .comma => [',']
  | .closeBrace => ['\x7d']
  | .bar => ['|']
  | .ampersand => ['&']
  | _ => []

/-- The punctuator as it is written behind a type. -/
def stopText : Option Punctuator → Text
  | none => []
  | some mark => (stopSpacing mark).text ++ stopChars mark

theorem scans_stopChars {mark : Punctuator} (h : mark ∈ stopMarks) :
    Scans (stopChars mark) [] { kind := .punctuator mark, count := (stopChars mark).length } ∧
      ∀ c ∈ ((stopSpacing mark).text ++ stopChars mark).head?, c ∈ enders := by
  simp only [stopMarks, meetStops, joinStops, closers, List.mem_cons, List.not_mem_nil,
    or_false] at h
  rcases h with rfl | rfl | rfl | rfl | rfl | rfl
  all_goals exact ⟨⟨rfl, rfl, _, _, rfl, by decide⟩, by decide⟩

theorem ends_stopText {stop : Option Punctuator} (h : ∀ mark ∈ stop, mark ∈ stopMarks) :
    Ends stop (stopText stop) := by
  cases stop with
  | none => exact .nil
  | some mark =>
      obtain ⟨hscan, hhead⟩ := scans_stopChars (h mark rfl)
      rw [stopText, ← List.append_nil (stopChars mark)]
      exact .mark hscan hhead

/-- The kinds of the tokens of quoted texts, and of what follows them. -/
def TokenKind.isPlain : TokenKind → Bool
  | .name word => word != some .inferWord
  | .string | .number _ | .endOfSource => true
  | .punctuator mark => mark ∉ [Punctuator.shiftLeft, .lessEqual, .shiftLeftAssign]
  | _ => false

theorem Scrap.kind_isPlain {scrap : Scrap} (h : (scrap.kind != .name (some .inferWord)) = true) :
    scrap.kind.isPlain = true := by
  obtain ⟨spacing, chunk⟩ := scrap
  cases chunk with
  | word word => simpa [Scrap.kind, Chunk.lexeme, Word.lexeme, TokenKind.isPlain] using h
  | sign sign => cases sign <;> rfl
  | _ => rfl

/-- A text that stands alone in front of the way a type may end, and within a source in front of
what ends in the same way.  In the source, something may have been read for which it is refused. -/
structure Twins where
  front : Text
  text : Text
  stop : Option Punctuator
  after : Text
  flawed : Bool
  openCovers : List Nat
  isStop : ∀ mark ∈ stop, mark ∈ stopMarks
  ends : Ends stop after

namespace Twins

variable (twins : Twins)

def alone : Text :=
  twins.text ++ stopText twins.stop

def source : Text :=
  twins.front ++ (twins.text ++ twins.after)

structure Mirror (scraps : List Scrap) (cursor other : Cursor) : Prop where
  plain : arePlain scraps = true
  alone : cursor.Faces twins.alone (scrapsText scraps ++ stopText twins.stop)
  within : other.Faces twins.source (scrapsText scraps ++ twins.after)
  flawed_eq : other.flawed = (cursor.flawed || twins.flawed)
  openCovers_eq : other.openCovers = twins.openCovers

/-- The cursors stand in front of the same rest of the text. -/
def Mirrors (cursor other : Cursor) : Prop :=
  ∃ scraps, twins.Mirror scraps cursor other

end Twins

structure Cursor.AtEnd (cursor : Cursor) : Prop where
  kind_eq : cursor.token.kind = .endOfSource
  rest_eq : cursor.rest = []

theorem Cursor.AtEnd.advance {cursor : Cursor} (h : cursor.AtEnd) : cursor.advance.AtEnd := by
  constructor <;> simp only [Cursor.advance, Cursor.accept, h.rest_eq] <;> rfl

theorem Cursor.Faces.atEnd {source : Text} {cursor : Cursor} (h : cursor.Faces source []) :
    cursor.AtEnd := by
  obtain ⟨-, ⟨behindOpener, htoken, hrest⟩, -⟩ := h
  exact ⟨by rw [htoken]; rfl, hrest⟩

/-- The cursor stands behind the punctuator in front of which the text is read alone. -/
def Twins.Past (twins : Twins) (cursor : Cursor) : Prop :=
  twins.stop ≠ none ∧ cursor.AtEnd

namespace Twins

variable {twins : Twins} {scraps : List Scrap} {scrap : Scrap} {cursor other : Cursor}

theorem Mirror.cons (h : twins.Mirror (scrap :: scraps) cursor other) :
    cursor.Stands twins.alone scrap.chunk.lexeme (scrapsText scraps ++ stopText twins.stop) ∧
      other.Stands twins.source scrap.chunk.lexeme (scrapsText scraps ++ twins.after) ∧
        cursor.token.span.start = cursor.previousStop + scrap.spacing.text.length ∧
          other.token.span.start = other.previousStop + scrap.spacing.text.length := by
  have hplain := h.plain
  rw [arePlain, Bool.and_eq_true, Bool.and_eq_true, Bool.and_eq_true] at hplain
  have halone : cursor.Faces twins.alone (scrap.spacing.text ++
      (scrap.chunk.chars ++ (scrapsText scraps ++ stopText twins.stop))) := by
    simpa [scrapsText] using h.alone
  have hwithin : other.Faces twins.source (scrap.spacing.text ++
      (scrap.chunk.chars ++ (scrapsText scraps ++ twins.after))) := by
    simpa [scrapsText] using h.within
  have hscan := Scrap.scans hplain.1.1.1 (ends_stopText twins.isStop).head_mem
  have hscan' := Scrap.scans hplain.1.1.1 twins.ends.head_mem
  exact ⟨(halone.stands hscan).1, (hwithin.stands hscan').1, halone.start_eq hscan,
    hwithin.start_eq hscan'⟩

theorem Mirror.tail (h : twins.Mirror (scrap :: scraps) cursor other) :
    twins.Mirror scraps cursor.advance other.advance := by
  obtain ⟨hstands, hother, -⟩ := h.cons
  have hplain := h.plain
  rw [arePlain, Bool.and_eq_true] at hplain
  exact ⟨hplain.2, hstands.next, hother.next, h.flawed_eq, h.openCovers_eq⟩

theorem Mirror.alike (h : twins.Mirror scraps cursor other) : cursor.token.Alike other.token := by
  cases scraps with
  | nil =>
      obtain ⟨hkind, hline, hescaped, htext, -⟩ :=
        (ends_stopText twins.isStop).token_spec h.alone
      obtain ⟨hkind', hline', hescaped', htext', -⟩ := twins.ends.token_spec h.within
      exact ⟨hkind'.trans hkind.symm, hline'.trans hline.symm, hescaped'.trans hescaped.symm,
        htext'.trans htext.symm⟩
  | cons scrap scraps =>
      obtain ⟨hstands, hother, -⟩ := h.cons
      exact ⟨hother.kind_eq.trans hstands.kind_eq.symm,
        hother.onNewLine_eq.trans hstands.onNewLine_eq.symm,
        hother.escaped_eq.trans hstands.escaped_eq.symm, hother.text_eq.trans hstands.text_eq.symm⟩

theorem Mirror.kind_isPlain (h : twins.Mirror scraps cursor other) :
    cursor.token.kind.isPlain = true := by
  cases scraps with
  | cons scrap scraps =>
      have hplain := h.plain
      rw [arePlain, Bool.and_eq_true, Bool.and_eq_true] at hplain
      exact h.cons.1.kind_eq ▸ Scrap.kind_isPlain hplain.1.2
  | nil =>
      rw [((ends_stopText twins.isStop).token_spec h.alone).1]
      have hall : ∀ mark ∈ stopMarks, (TokenKind.punctuator mark).isPlain = true := by decide
      cases hstop : twins.stop with
      | none => rfl
      | some mark => exact hall mark (twins.isStop mark hstop)

theorem Mirror.previousStop_eq (h : twins.Mirror scraps cursor other) :
    other.previousStop = cursor.previousStop + twins.front.length ∧
      cursor.previousStop ≤ twins.text.length := by
  have hlength := h.alone.isSuffix.length_le
  have hlength' := h.within.isSuffix.length_le
  rw [h.alone.previousStop_eq, h.within.previousStop_eq]
  simp only [Twins.alone, Twins.source, List.length_append] at hlength hlength' ⊢
  omega

theorem Mirror.start_eq (h : twins.Mirror scraps cursor other) :
    other.token.span.start = cursor.token.span.start + twins.front.length := by
  have hstop := h.previousStop_eq.1
  cases scraps with
  | nil =>
      obtain ⟨-, -, -, -, hstart⟩ := (ends_stopText twins.isStop).token_spec h.alone
      obtain ⟨-, -, -, -, hstart'⟩ := twins.ends.token_spec h.within
      omega
  | cons scrap scraps =>
      obtain ⟨-, -, hstart, hstart'⟩ := h.cons
      omega

theorem span_text_eq (twins : Twins) {start stop : Nat} (hstop : stop ≤ twins.text.length) :
    Span.text ⟨start + twins.front.length, stop + twins.front.length⟩ twins.source =
      Span.text ⟨start, stop⟩ twins.alone := by
  have hcut : ∀ after, ((twins.text ++ after).drop start).take (stop - start) =
      (twins.text.drop start).take (stop - start) := by
    intro after
    rw [List.drop_append, List.take_append_of_le_length]
    simp only [List.length_drop]
    omega
  simp only [Span.text, Twins.source, Twins.alone, Nat.add_comm _ twins.front.length,
    List.drop_length_add_append, Nat.add_sub_add_left, hcut]

theorem Mirror.advance (h : twins.Mirror scraps cursor other) :
    twins.Past cursor.advance ∨ twins.Mirrors cursor.advance other.advance := by
  cases scraps with
  | cons scrap scraps => exact .inr ⟨scraps, h.tail⟩
  | nil =>
      cases hstop : twins.stop with
      | none =>
          have halone := h.alone
          have hwithin := h.within
          have hends := twins.ends
          rw [hstop] at halone hends
          generalize hafter : twins.after = after at hwithin hends
          cases hends
          refine .inr ⟨[], rfl, ?_, ?_, h.flawed_eq, h.openCovers_eq⟩
          · rw [hstop]
            exact halone.advance_nil
          · rw [hafter]
            exact hwithin.advance_nil
      | some mark =>
          have halone := h.alone
          rw [hstop, scrapsText, List.nil_append, stopText, ← List.append_nil (stopChars mark)]
            at halone
          have hstands := (halone.stands (scans_stopChars (twins.isStop mark hstop)).1).1
          exact .inl ⟨by simp [hstop], hstands.next.atEnd⟩

theorem Mirror.advance_inner (h : twins.Mirror scraps cursor other)
    (hinner : cursor.token.IsInner) : twins.Mirrors cursor.advance other.advance := by
  cases scraps with
  | cons scrap scraps => exact ⟨scraps, h.tail⟩
  | nil =>
      refine h.advance.resolve_left fun hpast => ?_
      obtain ⟨mark, hstop⟩ := Option.ne_none_iff_exists'.mp hpast.1
      obtain ⟨hkind, -⟩ := (ends_stopText twins.isStop).token_spec h.alone
      rw [hstop] at hkind
      exact hinner mark (twins.isStop mark hstop) hkind

/-- Behind a parenthesis of the text stand two more tokens of it, and no pattern. -/
theorem Mirror.openParen (h : twins.Mirror scraps cursor other)
    (hopen : cursor.token.is .openParen = true) : ∃ first second more,
      cursor.advance.token.kind.opensPlainly = true ∧
        twins.Mirror (first :: second :: more) cursor.advance other.advance := by
  rw [Token.is, beq_iff_eq] at hopen
  cases scraps with
  | nil =>
      have hall : ∀ mark ∈ stopMarks, mark ≠ .openParen := by decide
      rw [((ends_stopText twins.isStop).token_spec h.alone).1] at hopen
      cases hstop : twins.stop with
      | none =>
          rw [hstop] at hopen
          contradiction
      | some mark =>
          rw [hstop] at hopen
          cases hopen
          exact absurd rfl (hall .openParen (twins.isStop _ hstop))
  | cons scrap scraps =>
      have hkind : scrap.kind = .punctuator .openParen := h.cons.1.kind_eq.symm.trans hopen
      have hplain := h.plain
      simp only [arePlain, hkind, Bool.and_eq_true, bne_self_eq_false, Bool.false_or] at hplain
      have hopens := hplain.1.1.2
      obtain _ | ⟨first, _ | ⟨second, more⟩⟩ := scraps
      · contradiction
      · contradiction
      · exact ⟨first, second, more, h.tail.cons.1.kind_eq ▸ hopens, h.tail⟩

end Twins

end ComponentDocs.Script
