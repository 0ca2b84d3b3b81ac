import ComponentDocs.Proofs.Script.Pieces
import ComponentDocs.Script.Grammar
import Mathlib.Data.List.Forall2

/-!
# What readers give

`Yields` says what a reader gives if it does not fail.  Its rules run a reader step by
step.  `Cursor.At` says that a cursor stands at the first of some pieces that end a source.
-/

namespace ComponentDocs.Script

namespace Parser

variable {α β : Type}

/-- If the reader does not fail from here, it gives such a value and stands so then. -/
def Yields (reader : Parser α) (context : Context) (cursor : Cursor)
    (post : α → Cursor → Prop) : Prop :=
  ∀ value moved, reader context cursor = some (value, moved) → post value moved

variable {context : Context} {cursor : Cursor} {post : α → Cursor → Prop}

theorem Yields.mono {reader : Parser α} {weaker : α → Cursor → Prop}
    (h : Yields reader context cursor post) (hpost : ∀ value moved, post value moved →
      weaker value moved) : Yields reader context cursor weaker :=
  fun value moved heq => hpost value moved (h value moved heq)

theorem yields_forall {ι : Type} {reader : Parser α} {post : ι → α → Cursor → Prop} :
    Yields reader context cursor (fun value moved => ∀ index, post index value moved) ↔
      ∀ index, Yields reader context cursor (post index) :=
  ⟨fun h index value moved heq => h value moved heq index,
    fun h value moved heq index => h index value moved heq⟩

@[congr] theorem yields_congr {reader other : Parser α} (h : reader = other) :
    Yields reader context cursor post ↔ Yields other context cursor post := by
  rw [h]

theorem yields_of_eq {reader : Parser α} {value : α} {moved : Cursor}
    (h : reader context cursor = some (value, moved)) :
    Yields reader context cursor post ↔ post value moved := by
  rw [Yields, h]
  constructor
  · intro hpost
    exact hpost value moved rfl
  · rintro hpost _ _ heq
    cases heq
    exact hpost

@[simp] theorem yields_pure (value : α) :
    Yields (pure value) context cursor post ↔ post value cursor :=
  yields_of_eq rfl

@[simp] theorem yields_failure : Yields (failure : Parser α) context cursor post := by
  rintro value moved heq
  cases heq

theorem bind_apply (reader : Parser β) (next : β → Parser α) :
    (reader >>= next) context cursor =
      (reader context cursor).bind fun pair => next pair.1 context pair.2 := rfl

@[simp] theorem yields_bind (reader : Parser β) (next : β → Parser α) :
    Yields (reader >>= next) context cursor post ↔
      Yields reader context cursor fun value moved => Yields (next value) context moved post := by
  constructor
  · intro h value moved heq result final hnext
    refine h result final ?_
    rw [bind_apply, heq]
    exact hnext
  · intro h result final heq
    rw [bind_apply] at heq
    obtain ⟨⟨value, moved⟩, hreader, hnext⟩ := Option.bind_eq_some_iff.mp heq
    exact h value moved hreader result final hnext

theorem Yields.bind {reader : Parser β} {next : β → Parser α} {middle : β → Cursor → Prop}
    (h : Yields reader context cursor middle) (hnext : ∀ value moved, middle value moved →
      Yields (next value) context moved post) : Yields (reader >>= next) context cursor post :=
  (yields_bind reader next).mpr (h.mono hnext)

@[simp] theorem yields_map (f : β → α) (reader : Parser β) :
    Yields (f <$> reader) context cursor post ↔
      Yields reader context cursor fun value moved => post (f value) moved := by
  rw [map_eq_pure_bind, yields_bind]
  simp only [yields_pure]

@[simp] theorem yields_discard {post : Unit → Cursor → Prop} (reader : Parser β) :
    Yields (discard reader) context cursor post ↔
      Yields reader context cursor fun _ moved => post () moved :=
  yields_map _ reader

@[simp] theorem yields_ite (condition : Prop) [Decidable condition] (first second : Parser α) :
    Yields (if condition then first else second) context cursor post ↔
      if condition then Yields first context cursor post
      else Yields second context cursor post := by
  split <;> rfl

@[simp] theorem yields_read {post : Context → Cursor → Prop} :
    Yields (read : Parser Context) context cursor post ↔ post context cursor :=
  yields_of_eq rfl

@[simp] theorem yields_withReader (change : Context → Context) (reader : Parser α) :
    Yields (withReader change reader) context cursor post ↔
      Yields reader (change context) cursor post :=
  Iff.rfl

@[simp] theorem yields_get {post : Cursor → Cursor → Prop} :
    Yields (get : Parser Cursor) context cursor post ↔ post cursor cursor :=
  yields_of_eq rfl

@[simp] theorem yields_modify {post : Unit → Cursor → Prop} (change : Cursor → Cursor) :
    Yields (modify change) context cursor post ↔ post () (change cursor) :=
  yields_of_eq rfl

@[simp] theorem yields_token {post : Token → Cursor → Prop} :
    Yields token context cursor post ↔ post cursor.token cursor := by
  simp [token]

@[simp] theorem yields_nextToken {post : Token → Cursor → Prop} :
    Yields nextToken context cursor post ↔ post cursor.advance.token cursor := by
  simp [nextToken]

@[simp] theorem yields_position {post : Nat → Cursor → Prop} :
    Yields position context cursor post ↔ post cursor.token.span.start cursor := by
  simp [position]

@[simp] theorem yields_spanFrom {post : Span → Cursor → Prop} (start : Nat) :
    Yields (spanFrom start) context cursor post ↔ post ⟨start, cursor.previousStop⟩ cursor := by
  simp [spanFrom]

@[simp] theorem yields_advance {post : Unit → Cursor → Prop} :
    Yields advance context cursor post ↔ post () cursor.advance := by
  simp [advance]

@[simp] theorem yields_atMark {post : Bool → Cursor → Prop} (mark : Punctuator) :
    Yields (atMark mark) context cursor post ↔ post (cursor.token.is mark) cursor := by
  simp [atMark]

@[simp] theorem yields_atWord {post : Bool → Cursor → Prop} (word : Keyword) :
    Yields (atWord word) context cursor post ↔ post (cursor.token.isKeyword word) cursor := by
  simp [atWord]

@[simp] theorem yields_eat {post : Bool → Cursor → Prop} (mark : Punctuator) :
    Yields (eat mark) context cursor post ↔
      if cursor.token.is mark then post true cursor.advance else post false cursor := by
  simp [eat]

@[simp] theorem yields_eatWord {post : Bool → Cursor → Prop} (word : Keyword) :
    Yields (eatWord word) context cursor post ↔
      if cursor.token.isKeyword word then post true cursor.advance else post false cursor := by
  simp [eatWord]

@[simp] theorem yields_expect {post : Unit → Cursor → Prop} (mark : Punctuator) :
    Yields (expect mark) context cursor post ↔
      (cursor.token.is mark = true → post () cursor.advance) := by
  simp [expect]

@[simp] theorem yields_expectWord {post : Unit → Cursor → Prop} (word : Keyword) :
    Yields (expectWord word) context cursor post ↔
      (cursor.token.isKeyword word = true → post () cursor.advance) := by
  simp [expectWord]

theorem yields_rescanLess {post : Unit → Cursor → Prop} (h : cursor.token.is .less = true) :
    Yields rescanLess context cursor post ↔ post () cursor := by
  rw [Token.is, beq_iff_eq] at h
  simp [rescanLess, h]

theorem yields_rescanGreater {post : Unit → Cursor → Prop}
    (h : cursor.token.is .greater = false) :
    Yields rescanGreater context cursor post ↔ post () cursor := by
  simp [rescanGreater, h]

end Parser

def Cursor.flawIf (cursor : Cursor) (condition : Bool) : Cursor :=
  { cursor with flawed := condition || cursor.flawed }

namespace Cursor

variable (cursor : Cursor) (condition : Bool)

@[simp] theorem flawIf_false : cursor.flawIf false = cursor := rfl

@[simp] theorem flawIf_token : (cursor.flawIf condition).token = cursor.token := rfl

@[simp] theorem flawIf_previousStop :
    (cursor.flawIf condition).previousStop = cursor.previousStop := rfl

@[simp] theorem flawIf_advance :
    (cursor.flawIf condition).advance = cursor.advance.flawIf condition := rfl

end Cursor

namespace Parser

variable {α β : Type} {context : Context} {cursor : Cursor} {post : α → Cursor → Prop}

@[simp] theorem yields_flawIf {post : Unit → Cursor → Prop} (condition : Bool) :
    Yields (flawIf condition) context cursor post ↔ post () (cursor.flawIf condition) := by
  cases condition <;> simp [flawIf, flaw, Cursor.flawIf]

@[simp] theorem yields_needsTypes {post : Unit → Cursor → Prop} :
    Yields needsTypes context cursor post ↔ post () (cursor.flawIf !context.typed) := by
  simp [needsTypes]

theorem Yields.ahead {reader : Parser α} {post : Option α → Cursor → Prop} (found : α → Prop)
    (h : Yields reader context cursor fun value _ => found value)
    (hpost : ∀ result : Option α, (∀ value ∈ result, found value) → post result cursor) :
    Yields (Parser.ahead reader) context cursor post := by
  rintro result moved heq
  cases heq
  refine hpost _ fun value hvalue => ?_
  obtain ⟨⟨found, final⟩, hreader, rfl⟩ := Option.map_eq_some_iff.mp hvalue
  exact h found final hreader

theorem Yields.isAhead_false {reader : Parser Bool} {post : Bool → Cursor → Prop}
    (h : Yields reader context cursor fun value _ => value = false) (hpost : post false cursor) :
    Yields (isAhead reader) context cursor post := by
  simp only [isAhead, bind_pure_comp, yields_map]
  refine Yields.ahead _ h fun result hresult => ?_
  cases result with
  | none => exact hpost
  | some value =>
      cases hresult value rfl
      exact hpost

theorem pure_apply (value : α) :
    (pure value : Parser α) context cursor = some (value, cursor) := rfl

theorem token_apply : token context cursor = some (cursor.token, cursor) := rfl

theorem nextToken_apply : nextToken context cursor = some (cursor.advance.token, cursor) := rfl

theorem atModifier_apply (word : Keyword) (context : Context) (cursor : Cursor) :
    atModifier word context cursor = some (modifies word cursor.advance.token, cursor) :=
  rfl

theorem modifiers_apply_nil
    (h : ∀ word, cursor.token.kind = .name (some word) → isModifier word = false)
    (hbound : 0 < context.itemBound) : modifiers context cursor = some ([], cursor) := by
  have hitem : modifierItem context cursor = some (none, cursor) := by
    simp only [modifierItem, bind_apply, token_apply, Option.bind_some]
    cases hkind : cursor.token.kind with
    | name word =>
        cases word with
        | none => rfl
        | some word =>
            simp only [bind_apply, atModifier_apply, Option.bind_some, h word hkind,
              Bool.false_and, Bool.false_eq_true, ↓reduceIte, pure_apply]
    | _ => rfl
  obtain ⟨fuel, hfuel⟩ := Nat.exists_eq_add_of_lt hbound
  change collectFrom modifierItem context.itemBound context cursor = _
  simp only [hfuel, collectFrom, bind_apply, hitem, Option.bind_some, pure_apply]

theorem Yields.isAhead_true {reader : Parser Bool} (moved : Cursor)
    {post : Bool → Cursor → Prop} (h : reader context cursor = some (true, moved))
    (hpost : post true cursor) : Yields (isAhead reader) context cursor post := by
  have hahead : Parser.ahead reader context cursor = some (some true, cursor) := by
    rw [Parser.ahead, h, Option.map_some]
  rw [isAhead, bind_pure_comp, yields_map, yields_of_eq hahead]
  exact hpost

theorem Yields.collectFrom {item : Parser (Option α)} {post : List α → Cursor → Prop}
    (h : Yields item context cursor fun value moved =>
      match value with
      | none => post [] moved
      | some value => ∀ fuel, Yields (Parser.collectFrom item fuel) context moved
          fun values final => post (value :: values) final)
    (fuel : Nat) : Yields (Parser.collectFrom item fuel) context cursor post := by
  cases fuel with
  | zero => exact yields_failure
  | succ fuel =>
      rw [Parser.collectFrom, yields_bind]
      refine h.mono fun value moved hvalue => ?_
      cases value with
      | none => simpa using hvalue
      | some value => simpa using hvalue fuel

theorem yields_collect {item : Parser (Option α)} {post : List α → Cursor → Prop} :
    Yields (collect item) context cursor post ↔
      Yields (collectFrom item context.itemBound) context cursor post := by
  simp only [collect, yields_bind, yields_read]

theorem Yields.collect {item : Parser (Option α)} {post : List α → Cursor → Prop}
    (h : Yields item context cursor fun value moved =>
      match value with
      | none => post [] moved
      | some value => ∀ fuel, Yields (Parser.collectFrom item fuel) context moved
          fun values final => post (value :: values) final) :
    Yields (Parser.collect item) context cursor post := by
  rw [yields_collect]
  exact Yields.collectFrom h _

theorem Yields.extendFrom {step : α → Parser (Option α)} {value : α}
    (h : Yields (step value) context cursor fun next moved =>
      match next with
      | none => post value moved
      | some next => ∀ fuel, Yields (Parser.extendFrom step fuel next) context moved post)
    (fuel : Nat) : Yields (Parser.extendFrom step fuel value) context cursor post := by
  cases fuel with
  | zero => exact yields_failure
  | succ fuel =>
      rw [Parser.extendFrom, yields_bind]
      refine h.mono fun next moved hnext => ?_
      cases next with
      | none => simpa using hnext
      | some next => exact hnext fuel

theorem yields_extend {step : α → Parser (Option α)} {value : α} :
    Yields (extend step value) context cursor post ↔
      Yields (extendFrom step context.itemBound value) context cursor post := by
  simp only [extend, yields_bind, yields_read]

theorem Yields.extend {step : α → Parser (Option α)} {value : α}
    (h : Yields (step value) context cursor fun next moved =>
      match next with
      | none => post value moved
      | some next => ∀ fuel, Yields (Parser.extendFrom step fuel next) context moved post) :
    Yields (Parser.extend step value) context cursor post := by
  rw [yields_extend]
  exact Yields.extendFrom h _

theorem Yields.commaList_one {close : Punctuator} {item : Parser α}
    {post : List α → Cursor → Prop} (hopen : cursor.token.is close = false)
    (hitem : Yields item context cursor fun value moved =>
      moved.token.is .comma = false ∧ (moved.token.is close = true → post [value] moved)) :
    Yields (commaList close item) context cursor post := by
  simp only [commaList, yields_bind, yields_atMark, hopen, Bool.false_eq_true, ↓reduceIte]
  refine hitem.mono fun value moved hmoved => ?_
  refine Yields.collect ?_
  simp only [yields_bind, yields_atMark, yields_ite, yields_pure, yields_expect, hmoved.1]
  split
  · next hclose => exact hmoved.2 hclose
  · exact nofun

end Parser

/-! ## Cursors at pieces -/

def tokenAt (length : Nat) : List Piece → Token
  | [] => { kind := .endOfSource, span := ⟨length, length⟩, spelled := TokenKind.allows_nil _ }
  | piece :: rest => piece.token length (written rest).length

/-- The cursor stands at the first of the pieces, with which the source ends. -/
structure Cursor.At (source : Text) (pieces : List Piece) (cursor : Cursor) : Prop where
  isSuffix : written pieces <:+ source
  lexes : Lexes pieces
  token_eq : cursor.token = tokenAt source.length pieces
  rest_eq : cursor.rest = written pieces.tail
  previousStop_eq : cursor.previousStop = source.length - (written pieces).length
  docs_eq : cursor.docs = []

namespace Cursor.At

variable {source : Text} {cursor : Cursor} {pieces rest : List Piece} {piece : Piece}

theorem flawIf (h : cursor.At source pieces) (condition : Bool) :
    (cursor.flawIf condition).At source pieces :=
  ⟨h.isSuffix, h.lexes, h.token_eq, h.rest_eq, h.previousStop_eq, h.docs_eq⟩

theorem advance (h : cursor.At source (piece :: rest)) : cursor.advance.At source rest := by
  have hsuffix : written rest <:+ source := by
    refine List.IsSuffix.trans ⟨piece.gap.text ++ piece.body.chars, ?_⟩ h.isSuffix
    simp
  have hstop : cursor.token.span.stop = source.length - (written rest).length := by
    rw [h.token_eq]
    rfl
  have hlexed : ∀ behindOpener, Lexed.next { behindOpener }
      (source.length - (written rest).length) (written rest) =
        { token := tokenAt source.length rest, doc := none, rest := written rest.tail } := by
    intro behindOpener
    obtain ⟨-, hnext, hlexes⟩ := h.lexes
    cases rest with
    | nil => rfl
    | cons next rest =>
        exact Lexed.next_written hlexes.1 (hnext next rfl) behindOpener hsuffix.length_le
  have hadvance : cursor.advance =
      { cursor with
        token := tokenAt source.length rest
        rest := written rest.tail
        previousStop := source.length - (written rest).length } := by
    simp only [Cursor.advance, Cursor.accept, hstop, h.rest_eq, List.tail_cons, hlexed]
  rw [hadvance]
  exact ⟨hsuffix, h.lexes.2.2, rfl, rfl, rfl, h.docs_eq⟩

theorem kind_eq (h : cursor.At source (piece :: rest)) :
    cursor.token.kind = piece.body.lexeme.kind := by
  rw [h.token_eq]
  rfl

theorem onNewLine_eq (h : cursor.At source (piece :: rest)) :
    cursor.token.onNewLine = piece.gap.breaks := by
  rw [h.token_eq]
  rfl

theorem text_eq (h : cursor.At source (piece :: rest)) :
    cursor.token.text = piece.body.lexeme.text := by
  rw [h.token_eq]
  rfl

theorem escaped_eq (h : cursor.At source (piece :: rest)) : cursor.token.escaped = false := by
  rw [h.token_eq]
  obtain ⟨gap, body⟩ := piece
  cases body <;> rfl

theorem is_eq (h : cursor.At source (piece :: rest)) (mark : Punctuator) :
    cursor.token.is mark = decide (piece.body.lexeme.kind = .punctuator mark) := by
  rw [Token.is, h.kind_eq]
  rfl

theorem isKeyword_eq (h : cursor.At source (piece :: rest)) (word : Keyword) :
    cursor.token.isKeyword word = decide (piece.body.lexeme.kind = .name (some word)) := by
  rw [Token.isKeyword, h.kind_eq, h.escaped_eq, Bool.not_false, Bool.and_true]
  rfl

theorem is_sign {gap : Gap} {sign : Sign} (h : cursor.At source (⟨gap, .mark sign⟩ :: rest))
    (other : Sign) : cursor.token.is other.mark = decide (sign = other) := by
  simp [h.is_eq, Sign.mark_inj]

theorem is_sign_eq_false {gap : Gap} {sign : Sign} {signs : List Sign}
    (h : cursor.At source (⟨gap, .mark sign⟩ :: rest)) (other : Sign) (hsign : sign ∈ signs)
    (hother : other ∉ signs) : cursor.token.is other.mark = false := by
  rw [h.is_sign, decide_eq_false_iff_not]
  rintro rfl
  exact hother hsign

theorem is_eq_false {mark : Punctuator} (hmark : Sign.all.all (·.mark != mark) = true)
    (h : cursor.At source pieces) : cursor.token.is mark = false := by
  cases pieces with
  | nil =>
      rw [h.token_eq]
      rfl
  | cons piece rest =>
      rw [h.is_eq, decide_eq_false_iff_not]
      obtain ⟨gap, body⟩ := piece
      cases body with
      | mark sign =>
          have hne := List.all_eq_true.mp hmark sign sign.mem_all
          simpa [Body.lexeme] using hne
      | word | string | number => exact TokenKind.noConfusion

theorem span_text {moved : Cursor} {ahead : List Piece} {text : Text}
    (h : cursor.At source (piece :: rest)) (hmoved : moved.At source ahead)
    (htext : piece.body.chars ++ written rest = text ++ written ahead) :
    Span.text ⟨cursor.token.span.start, moved.previousStop⟩ source = text := by
  have hstart : cursor.token.span.start =
      source.length - (piece.body.chars ++ written rest).length := by
    rw [h.token_eq, List.length_append]
    rfl
  obtain ⟨front, rfl⟩ := h.isSuffix
  rw [Span.text, hstart, hmoved.previousStop_eq, written_cons, htext]
  have hcut : (front ++ (piece.gap.text ++ (text ++ written ahead))).length -
      (text ++ written ahead).length = (front ++ piece.gap.text).length := by
    simp only [List.length_append]
    omega
  rw [hcut, ← List.append_assoc, List.drop_left]
  refine (congrArg (List.take · _) ?_).trans List.take_left
  simp only [List.length_append]
  omega

theorem start {body : Body} (hlexes : Lexes (⟨.opening, body⟩ :: rest))
    (hopen : openSource (written (⟨.opening, body⟩ :: rest)) =
      (0, written (⟨.opening, body⟩ :: rest))) :
    (Cursor.start (written (⟨.opening, body⟩ :: rest))).At
      (written (⟨.opening, body⟩ :: rest)) (⟨.opening, body⟩ :: rest) := by
  have hlexed := Lexed.next_opening hlexes.1
  dsimp only at hlexed
  simp only [Cursor.start, hopen, hlexed, Cursor.accept]
  exact ⟨List.suffix_rfl, hlexes, rfl, rfl, (Nat.sub_self _).symm, rfl⟩

end Cursor.At

namespace Cursor.At

open ComponentDocs.Script.Parser

variable {source : Text} {context : Context} {cursor : Cursor} {rest : List Piece} {gap : Gap}

theorem yields_identifier {name : Name} (h : cursor.At source (⟨gap, .word name⟩ :: rest)) :
    Yields identifier context cursor fun identifier moved =>
      identifier.text = name.text ∧ moved.At source rest := by
  simp only [identifier, yields_bind, yields_token]
  split
  · simp only [yields_bind, yields_read, yields_flawIf, yields_advance, yields_pure]
    exact ⟨h.text_eq, (h.flawIf _ |>.flawIf _).advance⟩
  · exact yields_failure

theorem yields_identifier_other {piece : Piece} {post : Identifier → Cursor → Prop}
    (h : cursor.At source (piece :: rest)) (hbody : ∀ name, piece.body ≠ .word name) :
    Yields identifier context cursor post := by
  have hname : isBindingName cursor.token = false := by
    obtain ⟨gap, body⟩ := piece
    cases body with
    | word name => exact absurd rfl (hbody name)
    | _ => simp [isBindingName, h.kind_eq]
  simp [identifier, hname]

theorem yields_variableName {name : Name} (h : cursor.At source (⟨gap, .word name⟩ :: rest)) :
    Yields variableName context cursor fun text moved =>
      text = name.text ∧ moved.At source rest := by
  simp only [variableName, bind_pure_comp, yields_map]
  exact h.yields_identifier

theorem yields_variableName_other {piece : Piece} {post : Text → Cursor → Prop}
    (h : cursor.At source (piece :: rest)) (hbody : ∀ name, piece.body ≠ .word name) :
    Yields variableName context cursor post := by
  simp only [variableName, bind_pure_comp, yields_map]
  exact h.yields_identifier_other hbody

theorem yields_anyName {name : Name} (h : cursor.At source (⟨gap, .word name⟩ :: rest)) :
    Yields anyName context cursor fun text moved => text = name.text ∧ moved.At source rest := by
  have hword : isWord cursor.token = true := by simp [isWord, h.kind_eq]
  simp only [anyName, yields_bind, yields_token, hword, ↓reduceIte, yields_advance, yields_pure]
  exact ⟨h.text_eq, h.advance⟩

theorem yields_anyName_mark {sign : Sign} {post : Text → Cursor → Prop}
    (h : cursor.At source (⟨gap, .mark sign⟩ :: rest)) :
    Yields anyName context cursor post := by
  have hword : isWord cursor.token = false := by simp [isWord, h.kind_eq]
  simp [anyName, hword]

end Cursor.At

end ComponentDocs.Script
