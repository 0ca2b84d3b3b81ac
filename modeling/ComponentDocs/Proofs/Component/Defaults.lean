import ComponentDocs.Component.Fallback.Brackets
import ComponentDocs.Component.Literal
import ComponentDocs.Document.Decode
import ComponentDocs.Proofs.Text.Trim
import ComponentDocs.Script.Parse

/-!
# Values of defaults

A default that is a literal is to be evaluated, and any other one is to be kept as it is written.
Evaluation goes into arrays and objects that are no literals as well, and quotes are taken from
every text that they stand around.
-/

namespace ComponentDocs.Component

open Script

mutual

/-- The value of a literal: a string, a number, a truth value, null, or an array or object of
literals. -/
def literal? : Expr → Option Json
  | .string value _ => some (.string value)
  | .number value _ => some (numberValue value)
  | .boolean value _ => some (.bool value)
  | .null _ => some .null
  | .array elements _ => (literals? elements).map .array
  | .object properties _ => (literalFields? properties).map Json.ofFields
  | .parenthesized inner _ | .cast inner _ => literal? inner
  | .template _ _ | .identifier _ _ | .annotated _ _ | .call _ _ | .member _ | .assignment _
  | .logical _ _ | .other _ => none

def literals? : List Script.Element → Option (List Json)
  | [] => some []
  | .item value :: rest =>
      (literal? value).bind fun item => (literals? rest).map (item :: ·)
  | .hole _ :: _ | .spread _ _ :: _ => none

def literalFields? : List Property → Option (List (Text × Json))
  | [] => some []
  | .entry (.static name) value _ :: rest =>
      (literal? value).bind fun field => (literalFields? rest).map ((name, field) :: ·)
  | .entry .computed _ _ :: _ | .spread _ :: _ => none

end

mutual

theorem exprValue_of_literal? (source : Text) {expr : Expr} {value : Json}
    (h : literal? expr = some value) : exprValue source expr = value := by
  cases expr with
  | string | number | boolean | null =>
      rw [literal?, Option.some.injEq] at h
      rw [exprValue, h]
  | array elements =>
      rw [literal?, Option.map_eq_some_iff] at h
      obtain ⟨items, hitems, rfl⟩ := h
      rw [exprValue, elementValues_of_literals? source hitems]
  | object properties =>
      rw [literal?, Option.map_eq_some_iff] at h
      obtain ⟨fields, hfields, rfl⟩ := h
      rw [exprValue, propertyValues_of_literalFields? source hfields]
  | parenthesized inner | cast inner =>
      rw [literal?] at h
      rw [exprValue, exprValue_of_literal? source h]
  | template | identifier | annotated | call | member | assignment | logical | other =>
      simp [literal?] at h

theorem elementValues_of_literals? (source : Text) {elements : List Script.Element}
    {items : List Json} (h : literals? elements = some items) :
    elementValues source elements = items := by
  match elements with
  | [] =>
      rw [literals?, Option.some.injEq] at h
      rw [elementValues, h]
  | .item value :: rest =>
      rw [literals?, Option.bind_eq_some_iff] at h
      obtain ⟨item, hitem, h⟩ := h
      obtain ⟨others, hothers, rfl⟩ := Option.map_eq_some_iff.mp h
      rw [elementValues, exprValue_of_literal? source hitem,
        elementValues_of_literals? source hothers]
  | .hole _ :: _ | .spread _ _ :: _ => simp [literals?] at h

theorem propertyValues_of_literalFields? (source : Text) {properties : List Property}
    {fields : List (Text × Json)} (h : literalFields? properties = some fields) :
    propertyValues source properties = fields := by
  match properties with
  | [] =>
      rw [literalFields?, Option.some.injEq] at h
      rw [propertyValues, h]
  | .entry (.static name) value _ :: rest =>
      rw [literalFields?, Option.bind_eq_some_iff] at h
      obtain ⟨field, hfield, h⟩ := h
      obtain ⟨others, hothers, rfl⟩ := Option.map_eq_some_iff.mp h
      rw [propertyValues, exprValue_of_literal? source hfield,
        propertyValues_of_literalFields? source hothers]
  | .entry .computed _ _ :: _ | .spread _ :: _ => simp [literalFields?] at h

end

def bare : Expr → Expr
  | .parenthesized inner _ | .cast inner _ => bare inner
  | expr => expr

def isComposite (expr : Expr) : Bool :=
  match bare expr with
  | .array _ _ | .object _ _ => true
  | _ => false

/-- The value that a default is to have: that of a literal, the text of a template without
substitutions, or what is written. -/
def documentedValue (source : Text) (expr : Expr) : Json :=
  match literal? expr with
  | some value => value
  | none =>
      match bare expr with
      | .template false span => .string (stripGraves (span.text source))
      | inner => quotedValue (inner.span.text source)

theorem bare_ne (expr inner : Expr) (span : Span) :
    bare expr ≠ .parenthesized inner span ∧ bare expr ≠ .cast inner span := by
  fun_induction bare expr with
  | case1 _ _ ih | case2 _ _ ih => exact ih
  | case3 expr hparenthesized hcast => exact ⟨hparenthesized inner span, hcast inner span⟩

theorem literal?_bare (expr : Expr) : literal? (bare expr) = literal? expr := by
  fun_induction bare expr with
  | case1 inner _ ih | case2 inner _ ih => rw [ih, literal?]
  | case3 => rfl

theorem exprValue_bare (source : Text) (expr : Expr) :
    exprValue source (bare expr) = exprValue source expr := by
  fun_induction bare expr with
  | case1 inner _ ih | case2 inner _ ih => rw [ih, exprValue]
  | case3 => rfl

theorem numberValue_cases (number : Option Number.Binary64) :
    numberValue number = .null ∨ (∃ value, numberValue number = .integer value) ∨
      ∃ value, numberValue number = .float value := by
  unfold numberValue
  split
  · exact .inl rfl
  · split
    · split
      · exact .inr (.inl ⟨_, rfl⟩)
      · exact .inr (.inr ⟨_, rfl⟩)
    · exact .inr (.inr ⟨_, rfl⟩)

theorem quotedValue_ne (text : Text) :
    (∀ items, quotedValue text ≠ .array items) ∧ ∀ fields, quotedValue text ≠ .object fields := by
  unfold quotedValue
  dsimp only
  split
  · next number _ =>
      rcases numberValue_cases (some number) with h | ⟨value, h⟩ | ⟨value, h⟩ <;> simp [h]
  · simp

theorem exprValue_eq_documentedValue_iff (source : Text) (expr : Expr) :
    exprValue source expr = documentedValue source expr ↔
      (isComposite expr = true → (literal? expr).isSome = true) := by
  unfold documentedValue
  cases hliteral : literal? expr with
  | some value => simp [exprValue_of_literal? source hliteral]
  | none =>
      rw [← literal?_bare] at hliteral
      rw [← exprValue_bare source expr, isComposite]
      have hquoted := quotedValue_ne ((bare expr).span.text source)
      cases hbare : bare expr with
      | string | number | boolean | null => simp [hbare, literal?] at hliteral
      | array elements span =>
          rw [hbare] at hquoted
          simp [exprValue, Ne.symm (hquoted.1 _)]
      | object properties span =>
          rw [hbare] at hquoted
          simp [exprValue, Json.ofFields, Ne.symm (hquoted.2 _)]
      | template hasSubstitutions span =>
          cases hasSubstitutions <;> simp [exprValue, Expr.span]
      | parenthesized inner span => exact absurd hbare (bare_ne expr inner span).1
      | cast inner span => exact absurd hbare (bare_ne expr inner span).2
      | identifier | annotated | call | member | assignment | logical | other =>
          simp [exprValue, Expr.span]

def isStatic : Property → Bool
  | .entry (.static _) _ _ => true
  | .entry .computed _ _ | .spread _ => false

theorem propertyValues_filter (source : Text) (properties : List Property) :
    propertyValues source (properties.filter isStatic) = propertyValues source properties := by
  induction properties with
  | nil => rfl
  | cons property properties ih =>
      match property with
      | .entry (.static name) value _ =>
          rw [List.filter_cons_of_pos rfl, propertyValues, propertyValues, ih]
      | .entry .computed _ _ | .spread _ =>
          rw [List.filter_cons_of_neg Bool.false_ne_true, propertyValues, ih]

def wholeExpr? (text : Text) : Option Expr :=
  (parse? Language.ofComponents ("let x = " ++ text)).bind fun script =>
    match script.statements.map Statement.form with
    | [.bindings _ [declarator]] =>
        declarator.init.filter fun expr => expr.span == ⟨8, 8 + text.length⟩
    | _ => none

def isLiteralText (text : Text) : Bool :=
  (wholeExpr? text).any fun
    | .string _ _ | .template _ _ => true
    | _ => false

example : isLiteralText "'x' + 'y'" = false := by decide +kernel
example : isLiteralText "\x60a $\x7b\x60b\x60\x7d\x60" = true := by decide +kernel

def IsDelimited (text inner : Text) : Prop :=
  ∃ quote, isQuote quote = true ∧ text = quote :: (inner ++ [quote])

theorem unquoted?_eq_some_iff {text inner : Text} :
    unquoted? text = some inner ↔ IsDelimited text inner := by
  constructor
  · intro h
    match text with
    | [] | [_] => simp [unquoted?] at h
    | first :: second :: rest =>
        rw [unquoted?, Option.ite_none_right_eq_some, Bool.and_eq_true, beq_iff_eq,
          Option.some.injEq] at h
        obtain ⟨⟨hquote, hlast⟩, rfl⟩ := h
        obtain ⟨inner, hinner⟩ := List.getLast?_eq_some_iff.mp hlast
        exact ⟨first, hquote, by rw [hinner, List.dropLast_concat]⟩
  · rintro ⟨quote, hquote, rfl⟩
    rw [isQuote] at hquote
    cases inner with
    | nil => simp [unquoted?, hquote]
    | cons c inner => simp [unquoted?, hquote, List.getLast?_cons, List.dropLast_cons_of_ne_nil]

def plainTextValue (text : Text) : Json :=
  if text == "true".toList then .bool true
  else if text == "false".toList then .bool false
  else if text == "null".toList then .null
  else
    (if opensBracket text then Json.read? Json.nestingLimit text else none).getD
      (quotedValue text)

/-- The value that a default is to have of which only the text is known.  Quotes are taken from
strings and templates only. -/
def documentedTextValue (text : Text) : Json :=
  match unquoted? (Text.trim text) with
  | some inner =>
      if isLiteralText (Text.trim text) then .string inner else plainTextValue (Text.trim text)
  | none => plainTextValue (Text.trim text)

theorem eq_of_isQuote {quote : Char} (h : isQuote quote = true) :
    quote = '"' ∨ quote = '\'' ∨ quote = '\x60' := by
  simpa [isQuote, or_assoc] using h

theorem readDecimal?_quote {quote : Char} (h : isQuote quote = true) (rest : Text) :
    Number.readDecimal? (quote :: rest) = none := by
  rcases eq_of_isQuote h with rfl | rfl | rfl <;> rfl

theorem IsDelimited.plainTextValue_eq {text inner : Text} (h : IsDelimited text inner) :
    plainTextValue text = .string text := by
  obtain ⟨quote, hquote, rfl⟩ := h
  have hspace : Text.isSpace quote = false := by
    rcases eq_of_isQuote hquote with rfl | rfl | rfl <;> decide
  have htrim : Text.trim (quote :: (inner ++ [quote])) = quote :: (inner ++ [quote]) := by
    rw [Text.trim_eq_self_iff]
    constructor
    · rintro c ⟨⟩
      exact hspace
    · intro c hc
      rw [← List.cons_append, List.getLast?_concat] at hc
      cases hc
      exact hspace
  have hquoted : quotedValue (quote :: (inner ++ [quote])) =
      .string (quote :: (inner ++ [quote])) := by
    simp only [quotedValue, htrim, readDecimal?_quote hquote]
  rw [plainTextValue, hquoted]
  rcases eq_of_isQuote hquote with rfl | rfl | rfl <;> rfl

theorem textValue_of_not_delimited {text : Text} (h : unquoted? (Text.trim text) = none) :
    textValue text = plainTextValue (Text.trim text) := by
  simp only [textValue, h, plainTextValue]
  cases (if opensBracket (Text.trim text) then
    Json.read? Json.nestingLimit (Text.trim text) else none) <;> rfl

theorem textValue_of_delimited {text inner : Text} (h : IsDelimited (Text.trim text) inner) :
    textValue text = .string inner := by
  have hinner := unquoted?_eq_some_iff.mpr h
  obtain ⟨quote, hquote, htext⟩ := h
  rw [htext] at hinner
  simp only [textValue, htext, hinner]
  rcases eq_of_isQuote hquote with rfl | rfl | rfl <;> rfl

theorem textValue_eq_documentedTextValue_iff (text : Text) :
    textValue text = documentedTextValue text ↔
      ∀ inner, IsDelimited (Text.trim text) inner → isLiteralText (Text.trim text) = true := by
  unfold documentedTextValue
  cases hinner : unquoted? (Text.trim text) with
  | none =>
      refine iff_of_true (textValue_of_not_delimited hinner) fun inner hdelimited => ?_
      rw [unquoted?_eq_some_iff.mpr hdelimited] at hinner
      contradiction
  | some inner =>
      have hdelimited := unquoted?_eq_some_iff.mp hinner
      rw [textValue_of_delimited hdelimited]
      dsimp only
      rw [hdelimited.plainTextValue_eq]
      cases hliteral : isLiteralText (Text.trim text) with
      | true => simp
      | false =>
          obtain ⟨quote, hquote, htext⟩ := hdelimited
          have hne : inner ≠ Text.trim text := by
            intro heq
            have hlength := congrArg List.length (heq.trans htext)
            rw [List.length_cons, List.length_append] at hlength
            omega
          simp only [Bool.false_eq_true, ↓reduceIte, Json.string.injEq, hne, false_iff]
          exact fun hall => hall inner ⟨quote, hquote, htext⟩

/--
A default is evaluated where it is a literal and kept as it is written where it is none, except
for arrays and objects that are no literals: these are evaluated too, and an object loses its
spreads and computed properties.  A default of which only the text is known loses the quotes at
its ends, and it has the value that it is to have unless it is no string or template as a whole.
-/
theorem defaults_documented (source : Text) (expr : Expr) (text : Text) :
    (exprValue source expr = documentedValue source expr ↔
      (isComposite expr = true → (literal? expr).isSome = true)) ∧
    (∀ properties span, exprValue source (.object properties span) =
      exprValue source (.object (properties.filter isStatic) span)) ∧
    (∀ inner, IsDelimited (Text.trim text) inner → textValue text = .string inner) ∧
    (textValue text = documentedTextValue text ↔
      ∀ inner, IsDelimited (Text.trim text) inner → isLiteralText (Text.trim text) = true) := by
  refine ⟨exprValue_eq_documentedValue_iff source expr, fun properties span => ?_,
    fun inner => textValue_of_delimited, textValue_eq_documentedTextValue_iff text⟩
  rw [exprValue, exprValue, propertyValues_filter]

/-- A spread is lost, and so are the quotes of two strings that are added. -/
theorem spread_and_quotes_lost :
    (∃ expr, wholeExpr? "\x7b ...a, b: 1 \x7d" = some expr ∧
      let source : Text := "let x = \x7b ...a, b: 1 \x7d"
      (documentedValue source expr).text? = some "\x7b ...a, b: 1 \x7d".toList ∧
      (exprValue source expr).text? = none ∧ ((exprValue source expr).field? "b").isSome = true) ∧
    (documentedTextValue "'x' + 'y'").text? = some "'x' + 'y'".toList ∧
    (textValue "'x' + 'y'").text? = some "x' + 'y".toList := by
  have hexpr : ((wholeExpr? "\x7b ...a, b: 1 \x7d").any fun expr =>
      (documentedValue "let x = \x7b ...a, b: 1 \x7d" expr).text? ==
          some "\x7b ...a, b: 1 \x7d".toList &&
        ((exprValue "let x = \x7b ...a, b: 1 \x7d" expr).text?.isNone &&
          ((exprValue "let x = \x7b ...a, b: 1 \x7d" expr).field? "b").isSome)) = true := by
    decide +kernel
  obtain ⟨expr, hwhole, hvalues⟩ := (Option.any_eq_true _ _).mp hexpr
  rw [Bool.and_eq_true, Bool.and_eq_true, beq_iff_eq, Option.isNone_iff_eq_none] at hvalues
  exact ⟨⟨expr, hwhole, hvalues⟩, by decide +kernel, by decide +kernel⟩

end ComponentDocs.Component
