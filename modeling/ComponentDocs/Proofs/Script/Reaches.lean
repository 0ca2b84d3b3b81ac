import ComponentDocs.Proofs.Script.Yields

/-!
# Readers that do not fail

`Reaches` says that a reader does not fail and what it gives.  Its rules run a reader step by
step, as those of `Yields` do.  `Cursor.Faces` says that a cursor stands in front of a text
with which a source ends, whatever the tokens of the text are.
-/

namespace ComponentDocs.Script

namespace Parser

variable {α β : Type}

/-- The reader does not fail from here; it gives such a value and stands so then. -/
def Reaches (reader : Parser α) (context : Context) (cursor : Cursor)
    (post : α → Cursor → Prop) : Prop :=
  ∃ value moved, reader context cursor = some (value, moved) ∧ post value moved

variable {context : Context} {cursor : Cursor} {post : α → Cursor → Prop}

theorem Reaches.mono {reader : Parser α} {weaker : α → Cursor → Prop}
    (h : Reaches reader context cursor post) (hpost : ∀ value moved, post value moved →
      weaker value moved) : Reaches reader context cursor weaker := by
  obtain ⟨value, moved, heq, hvalue⟩ := h
  exact ⟨value, moved, heq, hpost value moved hvalue⟩

@[congr] theorem reaches_congr {reader other : Parser α} (h : reader = other) :
    Reaches reader context cursor post ↔ Reaches other context cursor post := by
  rw [h]

theorem reaches_of_eq {reader : Parser α} {value : α} {moved : Cursor}
    (h : reader context cursor = some (value, moved)) :
    Reaches reader context cursor post ↔ post value moved := by
  rw [Reaches, h]
  constructor
  · rintro ⟨_, _, heq, hpost⟩
    cases heq
    exact hpost
  · intro hpost
    exact ⟨value, moved, rfl, hpost⟩

@[simp] theorem reaches_pure (value : α) :
    Reaches (pure value) context cursor post ↔ post value cursor :=
  reaches_of_eq rfl

@[simp] theorem reaches_bind (reader : Parser β) (next : β → Parser α) :
    Reaches (reader >>= next) context cursor post ↔
      Reaches reader context cursor fun value moved => Reaches (next value) context moved post := by
  constructor
  · rintro ⟨result, final, heq, hpost⟩
    rw [bind_apply] at heq
    obtain ⟨⟨value, moved⟩, hreader, hnext⟩ := Option.bind_eq_some_iff.mp heq
    exact ⟨value, moved, hreader, result, final, hnext, hpost⟩
  · rintro ⟨value, moved, hreader, result, final, hnext, hpost⟩
    refine ⟨result, final, ?_, hpost⟩
    rw [bind_apply, hreader]
    exact hnext

@[simp] theorem reaches_map (f : β → α) (reader : Parser β) :
    Reaches (f <$> reader) context cursor post ↔
      Reaches reader context cursor fun value moved => post (f value) moved := by
  rw [map_eq_pure_bind, reaches_bind]
  simp only [reaches_pure]

@[simp] theorem reaches_discard {post : Unit → Cursor → Prop} (reader : Parser β) :
    Reaches (discard reader) context cursor post ↔
      Reaches reader context cursor fun _ moved => post () moved :=
  reaches_map _ reader

@[simp] theorem reaches_ite (condition : Prop) [Decidable condition] (first second : Parser α) :
    Reaches (if condition then first else second) context cursor post ↔
      if condition then Reaches first context cursor post
      else Reaches second context cursor post := by
  split <;> rfl

@[simp] theorem reaches_read {post : Context → Cursor → Prop} :
    Reaches (read : Parser Context) context cursor post ↔ post context cursor :=
  reaches_of_eq rfl

@[simp] theorem reaches_withReader (change : Context → Context) (reader : Parser α) :
    Reaches (withReader change reader) context cursor post ↔
      Reaches reader (change context) cursor post :=
  Iff.rfl

@[simp] theorem reaches_get {post : Cursor → Cursor → Prop} :
    Reaches (get : Parser Cursor) context cursor post ↔ post cursor cursor :=
  reaches_of_eq rfl

@[simp] theorem reaches_modify {post : Unit → Cursor → Prop} (change : Cursor → Cursor) :
    Reaches (modify change) context cursor post ↔ post () (change cursor) :=
  reaches_of_eq rfl

@[simp] theorem reaches_token {post : Token → Cursor → Prop} :
    Reaches token context cursor post ↔ post cursor.token cursor := by
  simp [token]

@[simp] theorem reaches_nextToken {post : Token → Cursor → Prop} :
    Reaches nextToken context cursor post ↔ post cursor.advance.token cursor := by
  simp [nextToken]

@[simp] theorem reaches_position {post : Nat → Cursor → Prop} :
    Reaches position context cursor post ↔ post cursor.token.span.start cursor := by
  simp [position]

@[simp] theorem reaches_spanFrom {post : Span → Cursor → Prop} (start : Nat) :
    Reaches (spanFrom start) context cursor post ↔ post ⟨start, cursor.previousStop⟩ cursor := by
  simp [spanFrom]

@[simp] theorem reaches_advance {post : Unit → Cursor → Prop} :
    Reaches advance context cursor post ↔ post () cursor.advance := by
  simp [advance]

@[simp] theorem reaches_atMark {post : Bool → Cursor → Prop} (mark : Punctuator) :
    Reaches (atMark mark) context cursor post ↔ post (cursor.token.is mark) cursor := by
  simp [atMark]

@[simp] theorem reaches_atWord {post : Bool → Cursor → Prop} (word : Keyword) :
    Reaches (atWord word) context cursor post ↔ post (cursor.token.isKeyword word) cursor := by
  simp [atWord]

@[simp] theorem reaches_eat {post : Bool → Cursor → Prop} (mark : Punctuator) :
    Reaches (eat mark) context cursor post ↔
      if cursor.token.is mark then post true cursor.advance else post false cursor := by
  simp [eat]

@[simp] theorem reaches_eatWord {post : Bool → Cursor → Prop} (word : Keyword) :
    Reaches (eatWord word) context cursor post ↔
      if cursor.token.isKeyword word then post true cursor.advance else post false cursor := by
  simp [eatWord]

theorem reaches_expect {post : Unit → Cursor → Prop} {mark : Punctuator}
    (h : cursor.token.is mark = true) :
    Reaches (expect mark) context cursor post ↔ post () cursor.advance := by
  simp [expect, h]

@[simp] theorem reaches_flawIf {post : Unit → Cursor → Prop} (condition : Bool) :
    Reaches (flawIf condition) context cursor post ↔ post () (cursor.flawIf condition) := by
  cases condition <;> simp [flawIf, flaw, Cursor.flawIf]

@[simp] theorem reaches_needsTypes {post : Unit → Cursor → Prop} :
    Reaches needsTypes context cursor post ↔ post () (cursor.flawIf !context.typed) := by
  simp [needsTypes]

variable {reader : Parser Bool}

theorem Reaches.isAhead_false {post : Bool → Cursor → Prop}
    (h : Yields reader context cursor fun value _ => value = false) (hpost : post false cursor) :
    Reaches (isAhead reader) context cursor post := by
  simp only [isAhead, bind_pure_comp, reaches_map]
  refine ⟨(reader context cursor).map (·.1), cursor, rfl, ?_⟩
  cases hrun : reader context cursor with
  | none => exact hpost
  | some pair =>
      have hvalue : pair.1 = false := h pair.1 pair.2 hrun
      simpa [hvalue] using hpost

theorem Reaches.isAhead_true {post : Bool → Cursor → Prop}
    (h : Reaches reader context cursor fun value _ => value = true) (hpost : post true cursor) :
    Reaches (isAhead reader) context cursor post := by
  obtain ⟨value, moved, hrun, rfl⟩ := h
  simp only [isAhead, bind_pure_comp, reaches_map]
  refine ⟨some true, cursor, ?_, hpost⟩
  rw [Parser.ahead, hrun, Option.map_some]

theorem reaches_isAhead {post : Bool → Cursor → Prop}
    (h : ∀ found, post found cursor) : Reaches (isAhead reader) context cursor post := by
  simp only [isAhead, bind_pure_comp, reaches_map]
  exact ⟨(reader context cursor).map (·.1), cursor, rfl, h _⟩

theorem Reaches.attempt_none {reader : Parser β} {post : Option β → Cursor → Prop}
    (h : Yields reader context cursor fun _ _ => False) (hpost : post none cursor) :
    Reaches (attempt reader) context cursor post := by
  refine ⟨none, cursor, ?_, hpost⟩
  cases hrun : reader context cursor with
  | none => rw [attempt, hrun]
  | some pair => exact (h pair.1 pair.2 hrun).elim

theorem Reaches.collectFrom {item : Parser (Option α)} {post : List α → Cursor → Prop}
    {fuel : Nat} (h : Reaches item context cursor fun value moved =>
      match value with
      | none => post [] moved
      | some value => Reaches (Parser.collectFrom item fuel) context moved
          fun values final => post (value :: values) final) :
    Reaches (Parser.collectFrom item (fuel + 1)) context cursor post := by
  rw [Parser.collectFrom, reaches_bind]
  refine h.mono fun value moved hvalue => ?_
  cases value with
  | none => simpa using hvalue
  | some value => simpa using hvalue

theorem reaches_collect {item : Parser (Option α)} {post : List α → Cursor → Prop} :
    Reaches (collect item) context cursor post ↔
      Reaches (collectFrom item context.itemBound) context cursor post := by
  simp only [collect, reaches_bind, reaches_read]

theorem Reaches.extendFrom {step : α → Parser (Option α)} {value : α} {fuel : Nat}
    (h : Reaches (step value) context cursor fun next moved =>
      match next with
      | none => post value moved
      | some next => Reaches (Parser.extendFrom step fuel next) context moved post) :
    Reaches (Parser.extendFrom step (fuel + 1) value) context cursor post := by
  rw [Parser.extendFrom, reaches_bind]
  refine h.mono fun next moved hnext => ?_
  cases next with
  | none => simpa using hnext
  | some next => exact hnext

theorem reaches_extend {step : α → Parser (Option α)} {value : α} :
    Reaches (extend step value) context cursor post ↔
      Reaches (extendFrom step context.itemBound value) context cursor post := by
  simp only [extend, reaches_bind, reaches_read]

end Parser

inductive Spacing where
  | tight
  | loose

namespace Spacing

def text : Spacing → Text
  | tight => []
  | loose => [' ']

@[simp] theorem text_tight : tight.text = [] := rfl

@[simp] theorem text_loose : loose.text = [' '] := rfl

end Spacing

structure Scans (chars after : Text) (lexeme : Lexeme) : Prop where
  scan_eq : Lexeme.scan (chars ++ after) = lexeme
  count_eq : lexeme.count = chars.length
  exists_cons : ∃ c rest, chars = c :: rest ∧ isInlineBlank c = false ∧ isLineBreak c = false ∧
    c ≠ '/'

/-- The cursor stands in front of the text, with which the source ends. -/
structure Cursor.Faces (source text : Text) (cursor : Cursor) : Prop where
  isSuffix : text <:+ source
  lexed : ∃ behindOpener,
    cursor.token = (Lexed.next { behindOpener } (source.length - text.length) text).token ∧
      cursor.rest = (Lexed.next { behindOpener } (source.length - text.length) text).rest
  previousStop_eq : cursor.previousStop = source.length - text.length

structure Cursor.Sound (cursor : Cursor) : Prop where
  flawed_eq : cursor.flawed = false
  openCovers_eq : cursor.openCovers = []

theorem Cursor.Sound.advance {cursor : Cursor} (h : cursor.Sound) : cursor.advance.Sound :=
  ⟨h.flawed_eq, h.openCovers_eq⟩

structure Cursor.Stands (source : Text) (lexeme : Lexeme) (after : Text) (cursor : Cursor) :
    Prop where
  kind_eq : cursor.token.kind = lexeme.kind
  onNewLine_eq : cursor.token.onNewLine = false
  escaped_eq : cursor.token.escaped = lexeme.escaped
  text_eq : cursor.token.text = lexeme.text
  next : cursor.advance.Faces source after

namespace Cursor

variable {source text after : Text} {cursor : Cursor}

theorem Faces.flawIf (h : cursor.Faces source text) (condition : Bool) :
    (cursor.flawIf condition).Faces source text :=
  ⟨h.isSuffix, h.lexed, h.previousStop_eq⟩

variable {lexeme : Lexeme} {chars : Text}

theorem Stands.is_eq (h : cursor.Stands source lexeme after)
    (mark : Punctuator) : cursor.token.is mark = decide (lexeme.kind = .punctuator mark) := by
  rw [Token.is, h.kind_eq]
  rfl

theorem Stands.isKeyword_eq_false (h : cursor.Stands source lexeme after) {word : Keyword}
    (hword : lexeme.kind ≠ .name (some word)) :
    cursor.token.isKeyword word = false := by
  rw [Token.isKeyword, h.kind_eq, Bool.and_eq_false_iff]
  exact .inl (beq_eq_false_iff_ne.mpr hword)

theorem skip_spacing (hscan : Scans chars after lexeme) (spacing : Spacing) (trivia : Trivia)
    (position : Nat) :
    Trivia.skip .code trivia position (spacing.text ++ (chars ++ after)) =
      (trivia, position + spacing.text.length, chars ++ after) := by
  obtain ⟨c, rest, rfl, hinline, hbreak, hslash⟩ := hscan.exists_cons
  have htoken := Trivia.skip_token trivia (position + spacing.text.length) (rest ++ after)
    hinline hbreak hslash
  cases spacing with
  | tight => exact htoken
  | loose => exact (Trivia.skip_blank trivia position _ (by decide) (by decide)).trans htoken

theorem next_spacing (hscan : Scans chars after lexeme) (spacing : Spacing) {trivia : Trivia}
    (hclosed : trivia.closed = true) (position : Nat) :
    Lexed.next trivia position (spacing.text ++ (chars ++ after)) =
      { token :=
          { kind := lexeme.kind
            span := ⟨position + spacing.text.length,
              position + spacing.text.length + chars.length⟩
            onNewLine := trivia.onNewLine, escaped := lexeme.escaped, sound := lexeme.sound
            text := lexeme.text, spelled := lexeme.spelled }
        doc := trivia.doc
        rest := after } := by
  have hscanned := hscan.scan_eq
  have hcount := hscan.count_eq
  subst hscanned
  simp only [Lexed.next, skip_spacing hscan, hclosed, ↓reduceIte, hcount, List.drop_left]

theorem faces_advance (hsuffix : after <:+ source) (hrest : cursor.rest = after)
    (hstop : cursor.token.span.stop = source.length - after.length) :
    cursor.advance.Faces source after := by
  refine ⟨hsuffix, ⟨cursor.token.is .assign || cursor.token.is .openParen, ?_, ?_⟩, hstop⟩
  all_goals simp only [Cursor.advance, Cursor.accept, hstop, hrest]

theorem Faces.stands {spacing : Spacing}
    (h : cursor.Faces source (spacing.text ++ (chars ++ after)))
    (hscan : Scans chars after lexeme) :
    cursor.Stands source lexeme after ∧
      cursor.token.span.start = source.length - (chars ++ after).length := by
  obtain ⟨hsuffix, ⟨behindOpener, htoken, hrest⟩, -⟩ := h
  rw [next_spacing hscan spacing rfl] at htoken hrest
  have hle := hsuffix.length_le
  simp only [List.length_append] at hle
  have hafter : after <:+ source :=
    ((List.suffix_append _ _).trans (List.suffix_append _ _)).trans hsuffix
  have hstop : cursor.token.span.stop = source.length - after.length := by
    simp only [htoken, List.length_append]
    omega
  refine ⟨⟨?_, ?_, ?_, ?_, faces_advance hafter hrest hstop⟩, ?_⟩
  case refine_5 =>
    simp only [htoken, List.length_append]
    omega
  all_goals simp only [htoken]

theorem Faces.start_eq {spacing : Spacing}
    (h : cursor.Faces source (spacing.text ++ (chars ++ after)))
    (hscan : Scans chars after lexeme) :
    cursor.token.span.start = cursor.previousStop + spacing.text.length := by
  have hlength := h.isSuffix.length_le
  rw [(h.stands hscan).2, h.previousStop_eq]
  simp only [List.length_append] at hlength ⊢
  omega

theorem Faces.stands_tight (h : cursor.Faces source (chars ++ after))
    (hscan : Scans chars after lexeme) :
    cursor.Stands source lexeme after := by
  have htight : cursor.Faces source (Spacing.tight.text ++ (chars ++ after)) := h
  exact (htight.stands hscan).1

theorem Faces.advance_nil (h : cursor.Faces source []) : cursor.advance.Faces source [] := by
  obtain ⟨hsuffix, ⟨behindOpener, htoken, hrest⟩, -⟩ := h
  refine faces_advance hsuffix hrest ?_
  rw [htoken]
  rfl

theorem Faces.nil (h : cursor.Faces source []) :
    cursor.token.kind = .endOfSource ∧ cursor.token.onNewLine = false := by
  obtain ⟨-, ⟨behindOpener, htoken, -⟩, -⟩ := h
  rw [htoken]
  exact ⟨rfl, rfl⟩

end Cursor

end ComponentDocs.Script
