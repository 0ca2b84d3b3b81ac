import ComponentDocs.Proofs.TypeText.Mirrors
import ComponentDocs.Proofs.TypeText.Shape
import Mathlib.Data.Option.Basic
import Mathlib.Data.List.Forall2

/-!
# Readers that do the same in two places

`Tracks` says that a reader does within a source what it does where the text stands alone, as long
as it does not go beyond the punctuator there.  `Matches` says so of a reader that looks ahead, and
that it fails in both places or in none.  Both are classes, as is what they say of values: the
readers of the grammar are put together from a few, and so are the proofs.
-/

namespace ComponentDocs.Script

open ComponentDocs.Script.Parser

namespace Parser

variable {α : Type}

theorem collectFrom_succ (item : Parser (Option α)) (fuel : Nat) :
    collectFrom item (fuel + 1) =
      item >>= fun found => found.elim (pure []) fun value =>
        (value :: ·) <$> collectFrom item fuel := by
  rw [collectFrom]
  congr
  funext found
  cases found with
  | none => rfl
  | some value => simp

theorem extendFrom_succ (step : α → Parser (Option α)) (fuel : Nat) (value : α) :
    extendFrom step (fuel + 1) value =
      step value >>= fun found => found.elim (pure value) (extendFrom step fuel) := by
  rw [extendFrom]
  congr
  funext found
  cases found <;> rfl

end Parser

/-- The reader does not come back from the end of the source. -/
class Parser.Stable {α : Type} (reader : Parser α) : Prop where
  stays : ∀ {context : Context} {cursor : Cursor}, cursor.AtEnd →
    Yields reader context cursor fun _ moved => moved.AtEnd

section Stable

set_option synthInstance.maxSize 4000

variable {α β : Type}

namespace Parser.Stable

instance (value : α) : Stable (pure value : Parser α) :=
  ⟨fun h => (yields_pure value).mpr h⟩

instance : Stable (failure : Parser α) :=
  ⟨fun _ => yields_failure⟩

instance (reader : Parser β) (next : β → Parser α) [Stable reader] [∀ value, Stable (next value)] :
    Stable (reader >>= next) where
  stays h := (yields_bind reader next).mpr
    ((stays h : Yields reader _ _ _).mono fun _ _ hmoved => stays hmoved)

instance (f : β → α) (reader : Parser β) [Stable reader] : Stable (f <$> reader) where
  stays h := (yields_map f reader).mpr (stays h)

instance (reader : Parser α) [Stable reader] : Stable (discard reader) where
  stays h := (yields_discard reader).mpr (stays h)

instance (condition : Prop) [Decidable condition] (first second : Parser α) [Stable first]
    [Stable second] : Stable (if condition then first else second) := by
  split <;> infer_instance

instance (condition : Prop) [Decidable condition] (first : condition → Parser α)
    (second : ¬condition → Parser α) [∀ h, Stable (first h)] [∀ h, Stable (second h)] :
    Stable (if h : condition then first h else second h) := by
  split <;> infer_instance

instance : Stable (read : Parser Context) :=
  ⟨fun h => yields_read.mpr h⟩

instance (change : Context → Context) (reader : Parser α) [Stable reader] :
    Stable (withReader change reader : Parser α) :=
  ⟨fun h => (stays h : Yields reader _ _ _)⟩

instance : Stable token :=
  ⟨fun h => yields_token.mpr h⟩

instance : Stable nextToken :=
  ⟨fun h => yields_nextToken.mpr h⟩

instance : Stable position :=
  ⟨fun h => yields_position.mpr h⟩

instance (start : Nat) : Stable (spanFrom start) :=
  ⟨fun h => (yields_spanFrom start).mpr h⟩

instance : Stable advance :=
  ⟨fun h => yields_advance.mpr h.advance⟩

instance (mark : Punctuator) : Stable (atMark mark) :=
  ⟨fun h => (yields_atMark mark).mpr h⟩

instance (word : Keyword) : Stable (atWord word) :=
  ⟨fun h => (yields_atWord word).mpr h⟩

instance (mark : Punctuator) : Stable (eat mark) := by
  unfold eat
  infer_instance

instance (word : Keyword) : Stable (eatWord word) := by
  unfold eatWord
  infer_instance

instance (mark : Punctuator) : Stable (expect mark) := by
  unfold expect
  infer_instance

instance (word : Keyword) : Stable (expectWord word) := by
  unfold expectWord
  infer_instance

instance (condition : Bool) : Stable (flawIf condition) :=
  ⟨fun h => (yields_flawIf condition).mpr ⟨h.kind_eq, h.rest_eq⟩⟩

instance : Stable needsTypes :=
  ⟨fun h => yields_needsTypes.mpr ⟨h.kind_eq, h.rest_eq⟩⟩

instance : Stable rescanLess :=
  ⟨fun h => by simpa [rescanLess, h.kind_eq] using h⟩

instance (reader : Parser Bool) : Stable (isAhead reader) := by
  refine ⟨fun h => ?_⟩
  rintro _ _ ⟨⟩
  exact h

instance (reader : Parser α) [Stable reader] : Stable (attempt reader) := by
  refine ⟨fun {context cursor} h => ?_⟩
  intro value moved heq
  rw [attempt] at heq
  split at heq
  · next result final hrun =>
      cases heq
      exact stays h _ _ hrun
  · cases heq
    exact h

instance (found : Option β) (reader : Parser α) (next : β → Parser α) [Stable reader]
    [∀ value, Stable (next value)] : Stable (found.elim reader next) := by
  cases found <;> simp only [Option.elim] <;> infer_instance

theorem collectFrom {item : Parser (Option α)} [Stable item] (fuel : Nat) :
    Stable (Parser.collectFrom item fuel) := by
  induction fuel with
  | zero => exact inferInstanceAs (Stable failure)
  | succ fuel ih =>
      rw [collectFrom_succ]
      infer_instance

instance (item : Parser (Option α)) [Stable item] : Stable (collect item) := by
  have := @collectFrom α item _
  unfold collect
  infer_instance

theorem extendFrom {step : α → Parser (Option α)} [∀ value, Stable (step value)] (fuel : Nat)
    (value : α) : Stable (Parser.extendFrom step fuel value) := by
  induction fuel generalizing value with
  | zero => exact inferInstanceAs (Stable failure)
  | succ fuel ih =>
      rw [extendFrom_succ]
      infer_instance

instance (step : α → Parser (Option α)) (value : α) [∀ value, Stable (step value)] :
    Stable (extend step value) := by
  have := @extendFrom α step _
  unfold extend
  infer_instance

instance (close : Punctuator) (item : Parser α) [Stable item] : Stable (commaList close item) := by
  unfold commaList
  infer_instance

instance : Stable anyName := by
  unfold anyName
  infer_instance

instance : Stable variableName := by
  unfold variableName identifier
  infer_instance

end Parser.Stable

end Stable

/-- The same is allowed, and no fewer items. -/
structure Context.Agrees (context other : Context) : Prop where
  eq : other = { context with itemBound := other.itemBound }
  pos : 0 < context.itemBound
  le : context.itemBound ≤ other.itemBound

/-! ## Values -/

/-- What it is for a value to be the same in both places. -/
class Likeness (α : Type) where
  Alike : Twins → α → α → Prop

class Same (twins : Twins) {α : Type} [Likeness α] (value result : α) : Prop where
  alike : Likeness.Alike twins value result

/-- A value in both places. -/
structure Paired (twins : Twins) (α : Type) [Likeness α] where
  value : α
  result : α
  same : Same twins value result

section Values

variable {α β : Type} [Likeness α] [Likeness β]

instance : Likeness Unit := ⟨fun _ _ _ => True⟩

instance : Likeness Bool := ⟨fun _ value result => result = value⟩

instance : Likeness Text := ⟨fun _ value result => result = value⟩

instance : Likeness Keyword := ⟨fun _ value result => result = value⟩

instance : Likeness Key := ⟨fun _ value result => result = value⟩

/-- Expressions are not looked at. -/
instance : Likeness Expr := ⟨fun _ _ _ => True⟩

instance : Likeness Identifier := ⟨fun _ value result => result.text = value.text⟩

instance : Likeness Binding := ⟨fun _ value result => result.name? = value.name?⟩

instance : Likeness Nat := ⟨fun twins value result => result = value + twins.front.length⟩

instance : Likeness Span :=
  ⟨fun twins value result => result.text twins.source = value.text twins.alone⟩

instance : Likeness Token := ⟨fun _ => Token.Alike⟩

instance : Likeness Context := ⟨fun _ => Context.Agrees⟩

instance : Likeness (Option α) := ⟨fun twins => Option.Rel (Likeness.Alike twins)⟩

instance : Likeness (List α) := ⟨fun twins => List.Forall₂ (Likeness.Alike twins)⟩

instance : Likeness (α × β) :=
  ⟨fun twins value result =>
    Likeness.Alike twins value.1 result.1 ∧ Likeness.Alike twins value.2 result.2⟩

instance : Likeness SignatureHead :=
  ⟨fun twins value result => result.shape twins.source = value.shape twins.alone⟩

instance : Likeness TypeNode :=
  ⟨fun twins value result => result.shape twins.source = value.shape twins.alone⟩

instance : Likeness Parameter :=
  ⟨fun twins value result => result.shape twins.source = value.shape twins.alone⟩

instance : Likeness Member :=
  ⟨fun twins value result => result.shape twins.source = value.shape twins.alone⟩

/-- Members are the same in both places as soon as their texts are. -/
instance : Likeness (Span → Member) :=
  ⟨fun twins build build' => ∀ span span' : Span,
    span'.memberText twins.source = span.memberText twins.alone →
      (build' span').shape twins.source = (build span).shape twins.alone⟩

instance : Likeness Signature :=
  ⟨fun twins value result => Likeness.Alike twins value.head result.head ∧
    Likeness.Alike twins value.parameters result.parameters ∧
      Likeness.Alike twins value.rest result.rest ∧
        Likeness.Alike twins value.result result.result⟩

end Values

namespace Same

variable {twins : Twins} {α β : Type} [Likeness α] [Likeness β]

instance (pair : Paired twins α) : Same twins pair.value pair.result := pair.same

instance : Same twins () () := ⟨trivial⟩

instance (value : Bool) : Same twins value value := ⟨rfl⟩

instance (word : Keyword) : Same twins word word := ⟨rfl⟩

instance (key : Key) : Same twins key key := ⟨rfl⟩

section Conditions

variable {first second first' second' : Bool} [h : Same twins first first']
  [h' : Same twins second second']

instance : Same twins (!first) (!first') := ⟨congrArg _ h.alike⟩

instance : Same twins (first && second) (first' && second') := ⟨congrArg₂ _ h.alike h'.alike⟩

instance : Same twins (first || second) (first' || second') := ⟨congrArg₂ _ h.alike h'.alike⟩

instance (condition : Bool) : Same twins (if condition = true then first else second)
    (if condition = true then first' else second') := by
  split
  · exact h
  · exact h'

end Conditions

theorem of_eq {value result : Bool} (h : result = value) : Same twins value result := ⟨h⟩

section Tokens

variable {token token' : Token} [h : Same twins token token']

include h

theorem kind_eq : token'.kind = token.kind := h.alike.kind_eq

instance : Same twins token.text token'.text := ⟨h.alike.text_eq⟩

instance : Same twins token.onNewLine token'.onNewLine := ⟨h.alike.onNewLine_eq⟩

instance (mark : Punctuator) : Same twins (token.is mark) (token'.is mark) :=
  of_eq (by rw [Token.is, h.kind_eq, Token.is])

instance (word : Keyword) : Same twins (token.isKeyword word) (token'.isKeyword word) :=
  of_eq (by rw [Token.isKeyword, h.kind_eq, h.alike.escaped_eq, Token.isKeyword])

instance (kind : TokenKind) : Same twins (token.kind == kind) (token'.kind == kind) :=
  of_eq (by rw [h.kind_eq])

instance : Same twins (isWord token) (isWord token') :=
  of_eq (by simp only [isWord, h.kind_eq])

instance : Same twins (isPlainName token) (isPlainName token') :=
  of_eq (by simp only [isPlainName, h.kind_eq])

instance : Same twins (isBindingName token) (isBindingName token') :=
  of_eq (by simp only [isBindingName, h.kind_eq])

instance : Same twins (isNumeral token) (isNumeral token') :=
  of_eq (by simp only [isNumeral, h.kind_eq])

instance : Same twins (startsType token) (startsType token') :=
  of_eq (by simp only [startsType, h.kind_eq])

instance : Same twins (endsUnknownType token) (endsUnknownType token') :=
  of_eq (by simp only [endsUnknownType, h.kind_eq])

end Tokens

instance {name name' : Identifier} [h : Same twins name name'] : Same twins name.text name'.text :=
  ⟨h.alike⟩

instance {text text' : Text} [h : Same twins text text'] :
    Same twins (Binding.name text) (Binding.name text') :=
  ⟨congrArg some h.alike⟩

section Contexts

variable {context within : Context} [h : Same twins context within]

instance : Same twins context.typed within.typed := of_eq (by rw [h.alike.eq])

instance : Same twins context.allowConditional within.allowConditional :=
  of_eq (by rw [h.alike.eq])

end Contexts

section Containers

variable {value result : α} {value' result' : β} {values results : List α}

instance : Same twins (none : Option α) none := ⟨.none⟩

instance [h : Same twins value result] : Same twins (some value) (some result) := ⟨.some h.alike⟩

instance {found found' : Option α} [h : Same twins found found'] :
    Same twins found.isSome found'.isSome := by
  obtain ⟨_ | _⟩ := h <;> exact ⟨rfl⟩

instance {found found' : Option α} [h : Same twins found found'] :
    Same twins found.isNone found'.isNone := by
  obtain ⟨_ | _⟩ := h <;> exact ⟨rfl⟩

instance : Same twins ([] : List α) [] := ⟨.nil⟩

instance [h : Same twins value result] [h' : Same twins values results] :
    Same twins (value :: values) (result :: results) := ⟨.cons h.alike h'.alike⟩

instance [h : Same twins values results] : Same twins values.isEmpty results.isEmpty := by
  obtain ⟨_ | _⟩ := h <;> exact ⟨rfl⟩

instance [h : Same twins values results] (count : Nat) :
    Same twins (values.length != count) (results.length != count) :=
  of_eq (by rw [List.Forall₂.length_eq h.alike])

instance {words words' : List Keyword} [h : Same twins words words'] (test : Keyword → Bool) :
    Same twins (words.any test) (words'.any test) := by
  obtain ⟨h⟩ := h
  induction h with
  | nil => infer_instance
  | cons h _ ih =>
      cases (show _ = _ from h)
      exact inferInstanceAs (Same twins (_ || _) (_ || _))

instance [h : Same twins value result] [h' : Same twins value' result'] :
    Same twins (value, value') (result, result') := ⟨h.alike, h'.alike⟩

theorem of_mk (h : Same twins (value, value') (result, result')) :
    Same twins value result ∧ Same twins value' result' :=
  ⟨⟨h.alike.1⟩, ⟨h.alike.2⟩⟩

end Containers

section Nodes

variable {types types' : List TypeNode} {type type' : Option TypeNode}
  {parameters parameters' : List Parameter} {rest rest' : Option Parameter}
  {members members' : List Member}

theorem shapes_eq (h : Same twins types types') :
    TypeNode.shapes twins.source types' = TypeNode.shapes twins.alone types := by
  obtain ⟨h⟩ := h
  induction h with
  | nil => rfl
  | cons h _ ih => simp only [TypeNode.shapes, ih, show _ = _ from h]

theorem shape?_eq (h : Same twins type type') :
    TypeNode.shape? twins.source type' = TypeNode.shape? twins.alone type := by
  obtain ⟨h | _⟩ := h
  · exact congrArg some h
  · rfl

theorem parameterShapes_eq (h : Same twins parameters parameters') :
    Parameter.shapes twins.source parameters' = Parameter.shapes twins.alone parameters := by
  obtain ⟨h⟩ := h
  induction h with
  | nil => rfl
  | cons h _ ih => simp only [Parameter.shapes, ih, show _ = _ from h]

theorem parameterShape?_eq (h : Same twins rest rest') :
    Parameter.shape? twins.source rest' = Parameter.shape? twins.alone rest := by
  obtain ⟨h | _⟩ := h
  · exact congrArg some h
  · rfl

theorem memberShapes_eq (h : Same twins members members') :
    Member.shapes twins.source members' = Member.shapes twins.alone members := by
  obtain ⟨h⟩ := h
  induction h with
  | nil => rfl
  | cons h _ ih => simp only [Member.shapes, ih, show _ = _ from h]

theorem tokens_eq {span span' : Span} (h : Same twins span span') :
    span'.tokens twins.source = span.tokens twins.alone :=
  congrArg tokensOf h.alike

theorem map_tokens_eq {span span' : Option Span} (h : Same twins span span') :
    span'.map (Span.tokens twins.source) = span.map (Span.tokens twins.alone) := by
  obtain ⟨h | _⟩ := h
  · exact congrArg some (tokens_eq ⟨h⟩)
  · rfl

instance {span span' : Span} [h : Same twins span span'] :
    Same twins (TypeNode.other span) (TypeNode.other span') :=
  ⟨congrArg TypeShape.quoted h.tokens_eq⟩

instance [h : Same twins types types'] : Same twins (TypeNode.union types) (.union types') :=
  ⟨congrArg (TypeShape.joined .union) h.shapes_eq⟩

instance [h : Same twins types types'] :
    Same twins (TypeNode.intersection types) (.intersection types') :=
  ⟨congrArg (TypeShape.joined .intersection) h.shapes_eq⟩

instance {type type' : TypeNode} [h : Same twins type type'] :
    Same twins (TypeNode.array type) (.array type') :=
  ⟨congrArg TypeShape.array h.alike⟩

instance {type type' : TypeNode} [h : Same twins type type'] :
    Same twins (TypeNode.parenthesized type) (.parenthesized type') :=
  ⟨congrArg TypeShape.parenthesized h.alike⟩

instance [h : Same twins members members'] :
    Same twins (TypeNode.object members) (.object members') :=
  ⟨congrArg TypeShape.object h.memberShapes_eq⟩

instance {first second first' second' : Option Span} [h : Same twins first first']
    [h' : Same twins second second'] :
    Same twins (SignatureHead.mk first second) (.mk first' second') :=
  ⟨congrArg₂ HeadShape.mk h.map_tokens_eq h'.map_tokens_eq⟩

variable {head head' : SignatureHead} [hhead : Same twins head head']
  [hparameters : Same twins parameters parameters'] [hrest : Same twins rest rest']

include hhead hparameters hrest

instance {type type' : TypeNode} [h : Same twins type type'] :
    Same twins (TypeNode.function head parameters rest type)
      (.function head' parameters' rest' type') where
  alike := by
    change TypeNode.shape _ _ = TypeNode.shape _ _
    simp only [TypeNode.shape, show _ = _ from hhead.alike, hparameters.parameterShapes_eq,
      hrest.parameterShape?_eq, show _ = _ from h.alike]

instance [h : Same twins type type'] :
    Same twins (Signature.mk head parameters rest type) (.mk head' parameters' rest' type') :=
  ⟨hhead.alike, hparameters.alike, hrest.alike, h.alike⟩

end Nodes

section Signatures

variable {signature signature' : Signature} [h : Same twins signature signature']

instance : Same twins signature.head signature'.head := ⟨h.alike.1⟩

instance : Same twins signature.parameters signature'.parameters := ⟨h.alike.2.1⟩

instance : Same twins signature.rest signature'.rest := ⟨h.alike.2.2.1⟩

instance : Same twins signature.result signature'.result := ⟨h.alike.2.2.2⟩

end Signatures

instance : Same twins Member.other Member.other :=
  ⟨fun _ _ h => congrArg (MemberShape.quoted ∘ tokensOf) h⟩

section Members

variable {key key' : Key} {readonly readonly' optional optional' : Bool}
  {type type' : Option TypeNode} [hkey : Same twins key key']
  [hoptional : Same twins optional optional'] [htype : Same twins type type']

include hoptional htype

instance {span span' : Span} {binding binding' : Binding} {fallback fallback' : Option Expr}
    [hspan : Same twins span span'] [hbinding : Same twins binding binding'] :
    Same twins (Parameter.mk span binding optional type fallback)
      (.mk span' binding' optional' type' fallback') where
  alike := by
    change Parameter.shape _ _ = Parameter.shape _ _
    simp only [Parameter.shape, hspan.tokens_eq, show _ = _ from hbinding.alike,
      show _ = _ from hoptional.alike, htype.shape?_eq]

include hkey

instance [hreadonly : Same twins readonly readonly'] :
    Same twins (fun span => Member.property span key readonly optional type)
      (fun span => .property span key' readonly' optional' type') where
  alike span span' hspan := by
    cases (show key' = key from hkey.alike)
    cases key with
    | static name =>
        simp only [Member.shape, show _ = _ from hreadonly.alike, show _ = _ from hoptional.alike,
          htype.shape?_eq]
    | computed => simp only [Member.shape, hspan]

instance {kind : MethodKind} {head head' : SignatureHead} {parameters parameters' : List Parameter}
    {rest rest' : Option Parameter} [hhead : Same twins head head']
    [hparameters : Same twins parameters parameters'] [hrest : Same twins rest rest'] :
    Same twins (fun span => Member.method span kind key optional head parameters rest type)
      (fun span => .method span kind key' optional' head' parameters' rest' type') where
  alike span span' hspan := by
    cases (show key' = key from hkey.alike)
    cases key with
    | static name =>
        simp only [Member.shape, show _ = _ from hoptional.alike, show _ = _ from hhead.alike,
          hparameters.parameterShapes_eq, hrest.parameterShape?_eq, htype.shape?_eq]
    | computed => simp only [Member.shape, hspan]

end Members

end Same

/-! ## Readers -/

/-- What the reader does where the text stands alone, the other one does within the source, unless
the first goes beyond the punctuator there. -/
def TracksAt (twins : Twins) {α : Type} [Likeness α] (reader other : Parser α)
    (context within : Context) (cursor copy : Cursor) : Prop :=
  Yields reader context cursor fun value moved =>
    twins.Past moved ∨ Reaches other within copy fun result final =>
      Same twins value result ∧ twins.Mirrors moved final

class Tracks (twins : Twins) {α : Type} [Likeness α] (reader other : Parser α) : Prop where
  tracksAt : ∀ {context within : Context} {cursor copy : Cursor}, context.Agrees within →
    twins.Mirrors cursor copy → TracksAt twins reader other context within cursor copy

/-- The reader and the other one fail both, or do the same and stay in front of the punctuator. -/
def MatchesAt (twins : Twins) {α : Type} [Likeness α] (reader other : Parser α)
    (context within : Context) (cursor copy : Cursor) : Prop :=
  Option.Rel (fun run copied => Same twins run.1 copied.1 ∧ twins.Mirrors run.2 copied.2)
    (reader context cursor) (other within copy)

class Matches (twins : Twins) {α : Type} [Likeness α] (reader other : Parser α) : Prop where
  matchesAt : ∀ {context within : Context} {cursor copy : Cursor}, context.Agrees within →
    twins.Mirrors cursor copy → MatchesAt twins reader other context within cursor copy

variable {twins : Twins} {α β : Type} [Likeness α] [Likeness β] {reader other : Parser β}
  {next next' : β → Parser α}

namespace Twins.Mirrors

variable {cursor copy : Cursor}

theorem same_token (h : twins.Mirrors cursor copy) : Same twins cursor.token copy.token := by
  obtain ⟨scraps, hmirror⟩ := h
  exact ⟨hmirror.alike⟩

theorem advance (h : twins.Mirrors cursor copy) :
    twins.Past cursor.advance ∨ twins.Mirrors cursor.advance copy.advance := by
  obtain ⟨scraps, hmirror⟩ := h
  exact hmirror.advance

theorem flawIf (h : twins.Mirrors cursor copy) (condition : Bool) :
    twins.Mirrors (cursor.flawIf condition) (copy.flawIf condition) := by
  obtain ⟨scraps, hmirror⟩ := h
  exact ⟨scraps, hmirror.plain, hmirror.alone.flawIf _, hmirror.within.flawIf _,
    (congrArg (condition || ·) hmirror.flawed_eq).trans (Bool.or_assoc ..).symm,
    hmirror.openCovers_eq⟩

theorem advance_inner (h : twins.Mirrors cursor copy) (hinner : cursor.token.IsInner) :
    twins.Mirrors cursor.advance copy.advance := by
  obtain ⟨scraps, hmirror⟩ := h
  exact hmirror.advance_inner hinner

theorem kind_isPlain (h : twins.Mirrors cursor copy) : cursor.token.kind.isPlain = true := by
  obtain ⟨scraps, hmirror⟩ := h
  exact hmirror.kind_isPlain

theorem same_start (h : twins.Mirrors cursor copy) :
    Same twins cursor.token.span.start copy.token.span.start := by
  obtain ⟨scraps, hmirror⟩ := h
  exact ⟨hmirror.start_eq⟩

/-- The next token is looked at only behind one that does not end the text. -/
theorem same_next (h : twins.Mirrors cursor copy) (guard test : Token → Bool)
    (hinner : ∀ token, guard token = true → token.IsInner)
    [hguard : ∀ pair : Paired twins Token, Same twins (guard pair.value) (guard pair.result)]
    [htest : ∀ pair : Paired twins Token, Same twins (test pair.value) (test pair.result)] :
    Same twins (guard cursor.token && test cursor.advance.token)
      (guard copy.token && test copy.advance.token) := by
  have hsame := hguard ⟨_, _, h.same_token⟩
  cases hyes : guard cursor.token with
  | false =>
      have hno : guard copy.token = false := hsame.alike.trans hyes
      rw [hno]
      exact .of_eq rfl
  | true =>
      have := htest ⟨_, _, (h.advance_inner (hinner _ hyes)).same_token⟩
      rw [hyes] at hsame
      infer_instance

end Twins.Mirrors

theorem Token.isInner_of_is {token : Token} {mark : Punctuator} (h : token.is mark = true)
    (hmark : mark ∉ stopMarks) : token.IsInner := by
  rw [Token.is, beq_iff_eq] at h
  intro other hother hkind
  rw [h] at hkind
  cases hkind
  exact hmark hother

theorem Token.isInner_of_isWord {token : Token} (h : isWord token = true) : token.IsInner := by
  intro other hother hkind
  simp [isWord, hkind] at h

theorem Token.isInner_of_isKeyword {word : Keyword} (token : Token)
    (h : token.isKeyword word = true) : token.IsInner := by
  rw [Token.isKeyword, Bool.and_eq_true, beq_iff_eq] at h
  exact Token.isInner_of_isWord (by simp [isWord, h.1])

namespace TracksAt

variable {context within : Context} {cursor copy : Cursor}

theorem bind [∀ value, Stable (next value)]
    (h : TracksAt twins reader other context within cursor copy)
    (hnext : ∀ {value result moved final}, Same twins value result → twins.Mirrors moved final →
      TracksAt twins (next value) (next' result) context within moved final) :
    TracksAt twins (reader >>= next) (other >>= next') context within cursor copy := by
  rw [TracksAt, yields_bind]
  refine Yields.mono h fun value moved hmoved => ?_
  rcases hmoved with hpast | ⟨result, final, hrun, hvalue, hfinal⟩
  · exact (Stable.stays hpast.2).mono fun _ _ hend => .inl ⟨hpast.1, hend⟩
  · refine Yields.mono (hnext hvalue hfinal) fun _ _ => Or.imp_right fun hreaches => ?_
    rw [reaches_bind]
    exact ⟨result, final, hrun, hreaches⟩

omit [Likeness β] in
/-- A reader that only looks at where it stands. -/
theorem peek {f : Context → Cursor → β}
    (hreader : ∀ context cursor, reader context cursor = some (f context cursor, cursor))
    (h : TracksAt twins (next (f context cursor)) (next' (f within copy)) context within cursor
      copy) : TracksAt twins (reader >>= next) (reader >>= next') context within cursor copy := by
  simp only [TracksAt, yields_bind, yields_of_eq (hreader _ _), reaches_bind,
    reaches_of_eq (hreader _ _)]
  exact h

theorem ite {first second first' second' : Parser α} {condition condition' : Bool}
    (hcondition : Same twins condition condition')
    (h : condition = true → TracksAt twins first first' context within cursor copy)
    (h' : condition = false → TracksAt twins second second' context within cursor copy) :
    TracksAt twins (if condition = true then first else second)
      (if condition' = true then first' else second') context within cursor copy := by
  cases (show condition' = condition from hcondition.alike)
  cases condition with
  | true => exact h rfl
  | false => exact h' rfl

end TracksAt

namespace Parser

theorem expect_eq (mark : Punctuator) : expect mark = (do
    if ← eat mark then pure () else failure) := by
  simp only [expect, eat, atMark, bind_assoc, pure_bind]
  congr
  funext token
  split <;> simp

theorem expectWord_eq (word : Keyword) : expectWord word = (do
    if ← eatWord word then pure () else failure) := by
  simp only [expectWord, eatWord, atWord, bind_assoc, pure_bind]
  congr
  funext token
  split <;> simp

variable {context : Context} {cursor : Cursor}

theorem expect_apply {mark : Punctuator} (h : cursor.token.is mark = true) :
    expect mark context cursor = some ((), cursor.advance) := by
  change (if cursor.token.is mark = true then advance else failure) context cursor = _
  rw [if_pos h]
  rfl

theorem eat_apply (mark : Punctuator) : eat mark context cursor = some
    (cursor.token.is mark, if cursor.token.is mark = true then cursor.advance else cursor) := by
  change (if cursor.token.is mark = true then advance >>= fun _ => pure true else pure false)
    context cursor = _
  cases cursor.token.is mark <;> rfl

theorem flawIf_apply (condition : Bool) :
    flawIf condition context cursor = some ((), cursor.flawIf condition) := by
  cases condition <;> rfl

theorem identifier_apply : identifier context cursor =
    if h : isBindingName cursor.token = true then
      some (bindingName cursor.token h, ((cursor.flawIf (cursor.token.kind ==
        .name (some .awaitWord) && context.allowAwait)).flawIf (cursor.token.kind ==
        .name (some .yieldWord) && context.allowYield)).advance)
    else none := by
  rw [identifier, bind_apply, token_apply, Option.bind_some]
  split
  · simp only [bind_apply, flawIf_apply]
    rfl
  · rfl

end Parser

section Rules

set_option synthInstance.maxSize 4000

/-! ## Readers that match -/

namespace MatchesAt

variable {context within : Context} {cursor copy : Cursor}

omit [Likeness β] in
theorem run {value result : β} {moved final : Cursor}
    (hreader : reader context cursor = some (value, moved))
    (hother : other within copy = some (result, final))
    (h : MatchesAt twins (next value) (next' result) context within moved final) :
    MatchesAt twins (reader >>= next) (other >>= next') context within cursor copy := by
  rw [MatchesAt, bind_apply, bind_apply, hreader, hother]
  exact h

omit [Likeness β] in
theorem peek {f : Context → Cursor → β}
    (hreader : ∀ context cursor, reader context cursor = some (f context cursor, cursor))
    (h : MatchesAt twins (next (f context cursor)) (next' (f within copy)) context within cursor
      copy) : MatchesAt twins (reader >>= next) (reader >>= next') context within cursor copy :=
  run (hreader _ _) (hreader _ _) h

theorem ite {first second first' second' : Parser α} {condition condition' : Bool}
    (hcondition : Same twins condition condition')
    (h : condition = true → MatchesAt twins first first' context within cursor copy)
    (h' : condition = false → MatchesAt twins second second' context within cursor copy) :
    MatchesAt twins (if condition = true then first else second)
      (if condition' = true then first' else second') context within cursor copy := by
  cases (show condition' = condition from hcondition.alike)
  cases condition with
  | true => exact h rfl
  | false => exact h' rfl

/-- A reader that says whether it has taken the token. -/
theorem skip {reader other : Parser Bool} {next next' : Bool → Parser α} {found found' : Bool}
    (hfound : Same twins found found')
    (hreader : reader context cursor =
      some (found, if found = true then cursor.advance else cursor))
    (hother : other within copy = some (found', if found' = true then copy.advance else copy))
    (htaken : MatchesAt twins (next true) (next' true) context within cursor.advance copy.advance)
    (hleft : MatchesAt twins (next false) (next' false) context within cursor copy) :
    MatchesAt twins (reader >>= next) (other >>= next') context within cursor copy := by
  cases (show found' = found from hfound.alike)
  refine run hreader hother ?_
  cases found with
  | true => exact htaken
  | false => exact hleft

theorem advance {reader other : Parser α} [h : Matches twins reader other]
    (hcontext : context.Agrees within) (hmirrors : twins.Mirrors cursor copy)
    (hinner : cursor.token.IsInner) :
    MatchesAt twins (Parser.advance >>= fun _ => reader) (Parser.advance >>= fun _ => other)
      context within cursor copy :=
  h.matchesAt hcontext (hmirrors.advance_inner hinner)

theorem isAhead {reader other : Parser Bool} (hmirrors : twins.Mirrors cursor copy)
    (h : MatchesAt twins reader other context within cursor copy) :
    MatchesAt twins (Parser.isAhead reader) (Parser.isAhead other) context within cursor copy := by
  refine .some ⟨?_, hmirrors⟩
  rw [MatchesAt] at h
  simp only
  generalize reader context cursor = run at h ⊢
  generalize other within copy = copied at h ⊢
  cases h with
  | some h => exact h.1
  | none => infer_instance

theorem attempt (hmirrors : twins.Mirrors cursor copy)
    (h : MatchesAt twins reader other context within cursor copy) :
    MatchesAt twins (Parser.attempt reader) (Parser.attempt other) context within cursor copy := by
  rw [MatchesAt] at h
  rw [MatchesAt, Parser.attempt, Parser.attempt]
  generalize reader context cursor = run at h ⊢
  generalize other within copy = copied at h ⊢
  cases h with
  | some h => exact .some ⟨⟨.some h.1.alike⟩, h.2⟩
  | none => exact .some ⟨inferInstance, hmirrors⟩

theorem tracksAt (h : MatchesAt twins reader other context within cursor copy) :
    TracksAt twins reader other context within cursor copy := by
  intro value moved hrun
  rw [MatchesAt, hrun] at h
  generalize hcopied : other within copy = copied at h
  cases h with
  | some h => exact .inr ⟨_, _, hcopied, h⟩

end MatchesAt

namespace Matches

theorem of_apply {f : Cursor → α} {reader : Parser α}
    (hreader : ∀ context cursor, reader context cursor = some (f cursor, cursor))
    (h : ∀ {cursor copy}, twins.Mirrors cursor copy → Same twins (f cursor) (f copy)) :
    Matches twins reader reader where
  matchesAt _ hmirrors := by
    rw [MatchesAt, hreader, hreader]
    exact .some ⟨h hmirrors, hmirrors⟩

instance {value result : α} [h : Same twins value result] :
    Matches twins (pure value : Parser α) (pure result) where
  matchesAt _ hmirrors := .some ⟨h, hmirrors⟩

instance : Matches twins (failure : Parser α) failure where
  matchesAt _ _ := .none

instance bind [h : Matches twins reader other]
    [hnext : ∀ pair : Paired twins β, Matches twins (next pair.value) (next' pair.result)] :
    Matches twins (reader >>= next) (other >>= next') where
  matchesAt {context within cursor copy} hcontext hmirrors := by
    have hrelated := h.matchesAt hcontext hmirrors
    rw [MatchesAt, bind_apply, bind_apply]
    rw [MatchesAt] at hrelated
    cases hrun : reader context cursor <;> cases hcopied : other within copy <;>
      rw [hrun, hcopied] at hrelated
    case none.none => exact .none
    case some.some run copied =>
      obtain ⟨⟨hvalue, hmoved⟩⟩ := hrelated
      exact (hnext ⟨_, _, hvalue⟩).matchesAt hcontext hmoved
    all_goals contradiction

instance {first second first' second' : Parser α} {condition condition' : Bool}
    [hcondition : Same twins condition condition'] [h : Matches twins first first']
    [h' : Matches twins second second'] :
    Matches twins (if condition = true then first else second)
      (if condition' = true then first' else second') := by
  cases (show condition' = condition from hcondition.alike)
  split
  · exact h
  · exact h'

instance {f f' : β → α} [Matches twins reader other]
    [∀ pair : Paired twins β, Same twins (f pair.value) (f' pair.result)] :
    Matches twins (f <$> reader) (f' <$> other) := by
  rw [map_eq_pure_bind, map_eq_pure_bind]
  infer_instance

instance [Matches twins reader other] : Matches twins (discard reader) (discard other) := by
  change Matches twins ((fun _ => ()) <$> reader) ((fun _ => ()) <$> other)
  infer_instance

instance : Matches twins (read : Parser Context) read where
  matchesAt hcontext hmirrors := .some ⟨⟨hcontext⟩, hmirrors⟩

instance : Matches twins token token :=
  of_apply (fun _ _ => rfl) fun h => h.same_token

instance : Matches twins position position :=
  of_apply (fun _ _ => rfl) fun ⟨_, h⟩ => ⟨h.start_eq⟩

instance {start start' : Nat} [h : Same twins start start'] :
    Matches twins (spanFrom start) (spanFrom start') where
  matchesAt _ hmirrors := by
    obtain ⟨scraps, hmirror⟩ := hmirrors
    obtain ⟨hstop, hle⟩ := hmirror.previousStop_eq
    refine .some ⟨⟨?_⟩, scraps, hmirror⟩
    simp only [Likeness.Alike, hstop, show start' = _ from h.alike]
    exact twins.span_text_eq hle

instance (mark : Punctuator) : Matches twins (atMark mark) (atMark mark) := by
  unfold atMark
  infer_instance

instance (word : Keyword) : Matches twins (atWord word) (atWord word) := by
  unfold atWord
  infer_instance

instance {condition condition' : Bool} [h : Same twins condition condition'] :
    Matches twins (flawIf condition) (flawIf condition') where
  matchesAt _ hmirrors := by
    cases (show condition' = condition from h.alike)
    rw [MatchesAt, flawIf_apply, flawIf_apply]
    exact .some ⟨inferInstance, hmirrors.flawIf condition⟩

instance : Matches twins needsTypes needsTypes := by
  unfold needsTypes
  infer_instance

/-- What is taken is not the punctuator in front of which the text stands. -/
theorem take (test : Token → Bool) {taken left taken' left' : Token → Parser α}
    (hinner : ∀ token, test token = true → token.IsInner)
    [htest : ∀ pair : Paired twins Token, Same twins (test pair.value) (test pair.result)]
    [htaken : ∀ pair : Paired twins Token, Matches twins (taken pair.value) (taken' pair.result)]
    [hleft : ∀ pair : Paired twins Token, Matches twins (left pair.value) (left' pair.result)] :
    Matches twins
      (token >>= fun token => if test token = true then advance >>= fun _ => taken token
        else left token)
      (token >>= fun token => if test token = true then advance >>= fun _ => taken' token
        else left' token) where
  matchesAt hcontext hmirrors := by
    have hsame := hmirrors.same_token
    refine .peek (fun _ _ => rfl) (.ite (htest ⟨_, _, hsame⟩) (fun hyes => ?_) fun _ => ?_)
    · have := htaken ⟨_, _, hsame⟩
      exact .advance hcontext hmirrors (hinner _ hyes)
    · exact (hleft ⟨_, _, hsame⟩).matchesAt hcontext hmirrors

instance (word : Keyword) : Matches twins (eatWord word) (eatWord word) := by
  simp only [eatWord, atWord, bind_assoc, pure_bind]
  exact take (·.isKeyword word) Token.isInner_of_isKeyword

instance (mark : Punctuator) [hmark : Fact (mark ∉ stopMarks)] :
    Matches twins (eat mark) (eat mark) := by
  simp only [eat, atMark, bind_assoc, pure_bind]
  exact take (·.is mark) fun _ h => Token.isInner_of_is h hmark.out

instance (word : Keyword) : Matches twins (expectWord word) (expectWord word) := by
  rw [expectWord_eq]
  infer_instance

instance (mark : Punctuator) [Fact (mark ∉ stopMarks)] :
    Matches twins (expect mark) (expect mark) := by
  rw [expect_eq]
  infer_instance

instance : Matches twins anyName anyName :=
  take isWord fun _ => Token.isInner_of_isWord

instance : Matches twins identifier identifier where
  matchesAt {context within cursor copy} hcontext hmirrors := by
    have hsame := hmirrors.same_token
    have hallowed : Same twins context within := ⟨hcontext⟩
    have hname : isBindingName copy.token = isBindingName cursor.token :=
      (inferInstance : Same twins (isBindingName cursor.token) _).alike
    rw [MatchesAt, identifier_apply, identifier_apply]
    by_cases hyes : isBindingName cursor.token = true
    · rw [dif_pos hyes, dif_pos (hname.trans hyes), hsame.kind_eq,
        show within.allowAwait = context.allowAwait by rw [hcontext.eq],
        show within.allowYield = context.allowYield by rw [hcontext.eq]]
      refine .some ⟨⟨hsame.alike.text_eq⟩, ?_⟩
      refine ((hmirrors.flawIf _).flawIf _).advance_inner ?_
      exact Token.isInner_of_isWord (isWord_of_isBindingName hyes)
    · rw [dif_neg hyes, dif_neg (hname ▸ hyes)]
      exact .none

instance : Matches twins variableName variableName := by
  unfold variableName
  infer_instance

instance {reader other : Parser Bool} [h : Matches twins reader other] :
    Matches twins (isAhead reader) (isAhead other) :=
  ⟨fun hcontext hmirrors => .isAhead hmirrors (h.matchesAt hcontext hmirrors)⟩

instance [h : Matches twins reader other] : Matches twins (attempt reader) (attempt other) :=
  ⟨fun hcontext hmirrors => .attempt hmirrors (h.matchesAt hcontext hmirrors)⟩

end Matches

/-! ## Readers that track -/

/-- The change does not depend on how many items are allowed. -/
class Neutral (change : Context → Context) : Prop where
  agrees : ∀ {context within : Context}, context.Agrees within →
    (change context).Agrees (change within)

instance (allow : Bool) : Neutral fun context => { context with allowConditional := allow } :=
  ⟨fun h => ⟨by rw [h.eq], h.pos, h.le⟩⟩

instance (allow : Bool) : Neutral fun context => { context with allowIn := allow } :=
  ⟨fun h => ⟨by rw [h.eq], h.pos, h.le⟩⟩

instance (index await : Bool) :
    Neutral fun context => { context with allowIndex := index, allowAwait := await } :=
  ⟨fun h => ⟨by rw [h.eq], h.pos, h.le⟩⟩

namespace Tracks

instance (priority := low) [h : Matches twins reader other] : Tracks twins reader other :=
  ⟨fun hcontext hmirrors => (h.matchesAt hcontext hmirrors).tracksAt⟩

instance {other : Parser α} : Tracks twins (failure : Parser α) other where
  tracksAt _ _ := yields_failure

instance bind [h : Tracks twins reader other] [∀ value, Stable (next value)]
    [hnext : ∀ pair : Paired twins β, Tracks twins (next pair.value) (next' pair.result)] :
    Tracks twins (reader >>= next) (other >>= next') where
  tracksAt hcontext hmirrors := (h.tracksAt hcontext hmirrors).bind fun hvalue hmoved =>
    (hnext ⟨_, _, hvalue⟩).tracksAt hcontext hmoved

theorem step [Tracks twins reader other] [∀ value, Stable (next value)]
    (hnext : ∀ pair : Paired twins β, Tracks twins (next pair.value) (next' pair.result)) :
    Tracks twins (reader >>= next) (other >>= next') :=
  inferInstance

instance {first second first' second' : Parser α} {condition condition' : Bool}
    [hcondition : Same twins condition condition'] [h : Tracks twins first first']
    [h' : Tracks twins second second'] :
    Tracks twins (if condition = true then first else second)
      (if condition' = true then first' else second') := by
  cases (show condition' = condition from hcondition.alike)
  split
  · exact h
  · exact h'

instance {f f' : β → α} [Tracks twins reader other]
    [∀ pair : Paired twins β, Same twins (f pair.value) (f' pair.result)] :
    Tracks twins (f <$> reader) (f' <$> other) := by
  rw [map_eq_pure_bind, map_eq_pure_bind]
  infer_instance

instance [Tracks twins reader other] : Tracks twins (discard reader) (discard other) := by
  change Tracks twins ((fun _ => ()) <$> reader) ((fun _ => ()) <$> other)
  infer_instance

instance {change : Context → Context} [hchange : Neutral change] [h : Tracks twins reader other] :
    Tracks twins (withReader change reader : Parser β) (withReader change other : Parser β) where
  tracksAt hcontext hmirrors := h.tracksAt (hchange.agrees hcontext) hmirrors

instance : Tracks twins advance advance where
  tracksAt _ hmirrors := by
    rw [TracksAt, yields_advance, reaches_advance]
    exact hmirrors.advance.imp_right fun hmoved => ⟨inferInstance, hmoved⟩

instance (mark : Punctuator) : Tracks twins (eat mark) (eat mark) := by
  unfold eat
  infer_instance

instance (mark : Punctuator) : Tracks twins (expect mark) (expect mark) := by
  unfold expect
  infer_instance

instance {found found' : Option β} {first first' : Parser α} [hfound : Same twins found found']
    [h : Tracks twins first first']
    [hnext : ∀ pair : Paired twins β, Tracks twins (next pair.value) (next' pair.result)] :
    Tracks twins (found.elim first next) (found'.elim first' next') := by
  obtain ⟨hvalue | _⟩ := hfound
  · exact hnext ⟨_, _, ⟨hvalue⟩⟩
  · exact h

theorem collectFrom {item item' : Parser (Option β)} [Stable item] [h : Tracks twins item item']
    {fuel fuel' : Nat} (hfuel : fuel ≤ fuel') :
    Tracks twins (Parser.collectFrom item fuel) (Parser.collectFrom item' fuel') := by
  induction fuel generalizing fuel' with
  | zero => exact inferInstanceAs (Tracks twins failure _)
  | succ fuel ih =>
      obtain ⟨fuel', rfl⟩ : ∃ smaller, fuel' = smaller + 1 := ⟨fuel' - 1, by omega⟩
      have htail := ih (Nat.le_of_succ_le_succ hfuel)
      have hstable : Stable (Parser.collectFrom item fuel) := Stable.collectFrom fuel
      rw [collectFrom_succ, collectFrom_succ]
      infer_instance

instance {item item' : Parser (Option β)} [Stable item] [Tracks twins item item'] :
    Tracks twins (collect item) (collect item') where
  tracksAt hcontext hmirrors := (collectFrom hcontext.le).tracksAt hcontext hmirrors

theorem extendFrom {step step' : β → Parser (Option β)} [∀ value, Stable (step value)]
    [∀ pair : Paired twins β, Tracks twins (step pair.value) (step' pair.result)] {fuel fuel' : Nat}
    (hfuel : fuel ≤ fuel') (pair : Paired twins β) :
    Tracks twins (Parser.extendFrom step fuel pair.value)
      (Parser.extendFrom step' fuel' pair.result) := by
  induction fuel generalizing fuel' pair with
  | zero => exact inferInstanceAs (Tracks twins failure _)
  | succ fuel ih =>
      obtain ⟨fuel', rfl⟩ : ∃ smaller, fuel' = smaller + 1 := ⟨fuel' - 1, by omega⟩
      have htail := fun pair => ih (Nat.le_of_succ_le_succ hfuel) pair
      have hstable : ∀ value, Stable (Parser.extendFrom step fuel value) := Stable.extendFrom fuel
      rw [extendFrom_succ, extendFrom_succ]
      infer_instance

instance {step step' : β → Parser (Option β)} [∀ value, Stable (step value)]
    [∀ pair : Paired twins β, Tracks twins (step pair.value) (step' pair.result)]
    {value value' : β} [h : Same twins value value'] :
    Tracks twins (extend step value) (extend step' value') where
  tracksAt hcontext hmirrors :=
    (extendFrom hcontext.le ⟨value, value', h⟩).tracksAt hcontext hmirrors

instance {close : Punctuator} {item item' : Parser β} [Stable item] [Tracks twins item item'] :
    Tracks twins (commaList close item) (commaList close item') := by
  unfold commaList
  infer_instance

end Tracks

end Rules

end ComponentDocs.Script
