import ComponentDocs.Proofs.TypeText.Readings

/-!
# Reading function types back

Parameters that are read back make up function types that are.
-/

namespace ComponentDocs.Script

open ComponentDocs.Script.Parser

def parameterStops : List Punctuator :=
  [.comma, .closeParen]

/-- The text is read as a parameter of the shape, and one is recognised where it begins. -/
structure ReadsParameter (text : Text) (shape : ParameterShape) : Prop where
  leads : ∀ {source after : Text} {cursor : Cursor} {spacing : Spacing},
    Stops parameterStops after → cursor.Faces source (spacing.text ++ (text ++ after)) →
      cursor.token.is .closeParen = false ∧ cursor.token.is .ellipsis = false ∧
        cursor.token.isKeyword .thisWord = false
  starts : ∀ {source after : Text} {cursor : Cursor} {spacing : Spacing} {depth : Nat},
    Stops parameterStops after → cursor.Faces source (spacing.text ++ (text ++ after)) →
      8 * text.length ≤ depth →
        Reaches (skipParameterStart (grammar depth)) (typedContext source) cursor
          fun found moved => found = true ∧ (moved.Faces source after ∨
            ∃ mark ∈ [Punctuator.colon, .question, .assign], moved.token.is mark = true)
  reads : ∀ {source after : Text} {cursor : Cursor} {spacing : Spacing} {depth : Nat},
    Stops parameterStops after → cursor.Before source (spacing.text ++ (text ++ after)) →
      8 * text.length ≤ depth →
        Reaches (parameter (grammar depth)) (typedContext source) cursor fun parameter moved =>
          parameter.shape source = shape ∧ moved.Before source after

/-- The text is read as a parameter of the shape that takes all further arguments. -/
structure ReadsRest (text : Text) (shape : ParameterShape) : Prop where
  leads : ∀ {source after : Text} {cursor : Cursor} {spacing : Spacing},
    cursor.Faces source (spacing.text ++ (text ++ ')' :: after)) →
      cursor.token.is .ellipsis = true
  reads : ∀ {source after : Text} {cursor : Cursor} {spacing : Spacing} {depth : Nat},
    cursor.Before source (spacing.text ++ (text ++ ')' :: after)) → 8 * text.length ≤ depth →
      Reaches (restParameter (grammar depth)) (typedContext source) cursor
        fun parameter moved => parameter.shape source = shape ∧ moved.Before source (')' :: after)

structure ParameterTexts where
  plain : List (Text × ParameterShape)
  rest : Option (Text × ParameterShape)

namespace ParameterTexts

variable (parameters : ParameterTexts)

def texts : List Text :=
  parameters.plain.map Prod.fst ++ (parameters.rest.map Prod.fst).toList

def text : Text :=
  Text.join ", " parameters.texts

structure Read : Prop where
  plain : ∀ parameter ∈ parameters.plain, ReadsParameter parameter.1 parameter.2
  rest : ∀ parameter ∈ parameters.rest, ReadsRest parameter.1 parameter.2

def behind (after : Text) : Text :=
  if parameters.texts.isEmpty then ')' :: after
  else ',' :: (Spacing.loose.text ++ (parameters.text ++ ')' :: after))

theorem text_cons (first : Text × ParameterShape) (more : List (Text × ParameterShape))
    (rest : Option (Text × ParameterShape)) (after : Text) :
    (ParameterTexts.mk (first :: more) rest).text ++ ')' :: after =
      first.1 ++ (ParameterTexts.mk more rest).behind after := by
  cases hothers : (ParameterTexts.mk more rest).texts with
  | nil =>
      have htexts : (ParameterTexts.mk (first :: more) rest).texts = [first.1] :=
        congrArg (first.1 :: ·) hothers
      simp [behind, text, htexts, hothers, Text.join]
  | cons second others =>
      have htexts : (ParameterTexts.mk (first :: more) rest).texts = first.1 :: second :: others :=
        congrArg (first.1 :: ·) hothers
      simp [behind, text, htexts, hothers, Text.join]

theorem length_text_cons (first : Text × ParameterShape) (more : List (Text × ParameterShape))
    (rest : Option (Text × ParameterShape)) :
    first.1.length + (ParameterTexts.mk more rest).text.length ≤
      (ParameterTexts.mk (first :: more) rest).text.length := by
  have hlengths := congrArg List.length (text_cons first more rest [])
  simp only [behind, List.length_append, List.length_cons, List.length_nil] at hlengths
  split at hlengths
  · next hempty =>
      have htext : (ParameterTexts.mk more rest).text = [] := by
        rw [text, List.isEmpty_iff.mp hempty, Text.join]
      simp only [List.length_cons, List.length_nil] at hlengths
      rw [htext, List.length_nil]
      omega
  · simp only [List.length_append, List.length_cons, List.length_nil] at hlengths
    omega

theorem length_plain_le (plain : List (Text × ParameterShape))
    (rest : Option (Text × ParameterShape)) :
    plain.length ≤ (ParameterTexts.mk plain rest).text.length + 1 := by
  induction plain with
  | nil => exact Nat.zero_le _
  | cons first more ih =>
      have hlengths := congrArg List.length (text_cons first more rest [])
      simp only [behind, List.length_append, List.length_cons, List.length_nil] at hlengths ⊢
      split at hlengths
      · next hempty =>
          have hmore : more = [] := by
            simpa [texts] using (List.append_eq_nil_iff.mp (List.isEmpty_iff.mp hempty)).1
          simp [hmore]
      · simp only [List.length_append, List.length_cons, List.length_nil, Spacing.text_loose]
          at hlengths
        omega

theorem length_text_rest (plain : List (Text × ParameterShape))
    (parameter : Text × ParameterShape) :
    parameter.1.length ≤ (ParameterTexts.mk plain (some parameter)).text.length := by
  induction plain with
  | nil => exact Nat.le_refl _
  | cons first more ih =>
      have hlengths := length_text_cons first more (some parameter)
      omega

theorem stops_behind (after : Text) : Stops parameterStops (parameters.behind after) := by
  unfold behind
  split
  · exact Stops.sign .closeParen (by decide) (by decide) (absurd · (by decide))
  · exact Stops.sign .comma (by decide) (by decide) (absurd · (by decide))

end ParameterTexts

variable {context : Context} {g : Grammar}

section Lists

variable {source after : Text} {cursor : Cursor} {spacing : Spacing} {depth : Nat}

def parameterItem (g : Grammar) : Parser (Option Parameter) := do
  if (← atMark .closeParen) || (← atMark .ellipsis) then return none
  let item ← parameter g
  if !(← atMark .closeParen) then expect .comma
  return some item

theorem reaches_parameterItem {first : Text × ParameterShape} {others : ParameterTexts}
    (hfirst : ReadsParameter first.1 first.2)
    (hcursor : cursor.Before source (spacing.text ++ (first.1 ++ others.behind after)))
    (hdepth : 8 * first.1.length ≤ depth) :
    Reaches (parameterItem (grammar depth)) (typedContext source) cursor fun item moved =>
      (∃ parameter, item = some parameter ∧ parameter.shape source = first.2) ∧
        ∃ spacing : Spacing,
          moved.Before source (spacing.text ++ (others.text ++ ')' :: after)) := by
  obtain ⟨hclose, hdots, -⟩ := hfirst.leads (others.stops_behind after) hcursor.faces
  simp only [parameterItem, reaches_bind, reaches_atMark, hclose, hdots, Bool.or_self,
    Bool.false_eq_true, ↓reduceIte]
  refine (hfirst.reads (others.stops_behind after) hcursor hdepth).mono ?_
  rintro parameter moved ⟨hshape, hmoved⟩
  unfold ParameterTexts.behind at hmoved
  split at hmoved
  · next hempty =>
      have hend := stands_close hmoved.faces
      have hyes : moved.token.is .closeParen = true := hend.is_eq .closeParen
      have htext : others.text = [] := by
        rw [ParameterTexts.text, List.isEmpty_iff.mp hempty, Text.join]
      simp only [hyes, Bool.not_true, Bool.false_eq_true, ↓reduceIte, reaches_pure]
      exact ⟨⟨parameter, rfl, hshape⟩, .tight, by simpa [htext] using hmoved⟩
  · have hcomma : moved.Stands source (Body.mark .comma).lexeme
        (Spacing.loose.text ++ (others.text ++ ')' :: after)) :=
      hmoved.faces.stands_tight (scans_sign .comma (absurd · (by decide)))
    have hno : moved.token.is .closeParen = false := hcomma.is_eq .closeParen
    simp only [hno, Bool.not_false, ↓reduceIte, reaches_bind,
      reaches_expect (hcomma.is_eq .comma), reaches_pure]
    exact ⟨⟨parameter, rfl, hshape⟩, .loose, hmoved.advance hcomma⟩

theorem reaches_parameterItem_none {rest : Option (Text × ParameterShape)}
    (hrest : ∀ parameter ∈ rest, ReadsRest parameter.1 parameter.2) (hcursor : cursor.Faces source
      (spacing.text ++ ((ParameterTexts.mk [] rest).text ++ ')' :: after))) :
    Reaches (parameterItem g) context cursor fun item moved => item = none ∧ moved = cursor := by
  have hend : (cursor.token.is .closeParen || cursor.token.is .ellipsis) = true := by
    cases rest with
    | none =>
        have hclose : cursor.token.is .closeParen = true :=
          (hcursor.sign .closeParen (absurd · (by decide))).is_eq .closeParen
        rw [hclose, Bool.true_or]
    | some parameter =>
        rw [(hrest parameter rfl).leads hcursor, Bool.or_true]
  simp only [parameterItem, reaches_bind, reaches_atMark, hend, ↓reduceIte, reaches_pure, and_self]

theorem reaches_plainParameters (plain : List (Text × ParameterShape))
    {rest : Option (Text × ParameterShape)} (h : (ParameterTexts.mk plain rest).Read)
    (hcursor : cursor.Before source
      (spacing.text ++ ((ParameterTexts.mk plain rest).text ++ ')' :: after)))
    (hdepth : 8 * (ParameterTexts.mk plain rest).text.length ≤ depth) {fuel : Nat}
    (hfuel : plain.length < fuel) :
    Reaches (collectFrom (parameterItem (grammar depth)) fuel) (typedContext source) cursor
      fun parameters moved => Parameter.shapes source parameters = plain.map Prod.snd ∧
        ∃ spacing : Spacing, moved.Before source
          (spacing.text ++ ((ParameterTexts.mk [] rest).text ++ ')' :: after)) := by
  induction plain generalizing cursor spacing fuel with
  | nil =>
      obtain ⟨fuel, rfl⟩ : ∃ smaller, fuel = smaller + 1 := ⟨fuel - 1, by omega⟩
      refine Reaches.collectFrom ((reaches_parameterItem_none h.rest hcursor.faces).mono ?_)
      rintro _ _ ⟨rfl, rfl⟩
      exact ⟨rfl, spacing, hcursor⟩
  | cons first plain ih =>
      obtain ⟨fuel, rfl⟩ : ∃ smaller, fuel = smaller + 1 := ⟨fuel - 1, by omega⟩
      rw [ParameterTexts.text_cons] at hcursor
      have hlengths := ParameterTexts.length_text_cons first plain rest
      rw [List.length_cons] at hfuel
      have hplain := List.forall_mem_cons.mp h.plain
      have hothers : (ParameterTexts.mk plain rest).Read := ⟨hplain.2, h.rest⟩
      refine Reaches.collectFrom ((reaches_parameterItem hplain.1 hcursor (by omega)).mono ?_)
      rintro _ moved ⟨⟨parameter, rfl, hshape⟩, spacing, hmoved⟩
      refine (ih hothers hmoved (by omega) (by omega)).mono ?_
      rintro parameters final ⟨hshapes, hfinal⟩
      exact ⟨by rw [Parameter.shapes, hshape, hshapes, List.map_cons], hfinal⟩

theorem ParameterTexts.Read.not_this {parameters : ParameterTexts} (h : parameters.Read)
    (hcursor : cursor.Faces source (spacing.text ++ (parameters.text ++ ')' :: after))) :
    cursor.token.isKeyword .thisWord = false := by
  obtain ⟨plain, rest⟩ := parameters
  cases plain with
  | cons first plain =>
      rw [ParameterTexts.text_cons] at hcursor
      have hfirst := h.plain first List.mem_cons_self
      exact (hfirst.leads (ParameterTexts.stops_behind _ _) hcursor).2.2
  | nil =>
      cases rest with
      | none =>
          have hclose := hcursor.sign .closeParen (absurd · (by decide))
          exact hclose.isKeyword_eq_false (by decide)
      | some parameter =>
          have hdots := (h.rest parameter rfl).leads hcursor
          rw [Token.is, beq_iff_eq] at hdots
          simp [Token.isKeyword, hdots]

theorem parameters_eq (g : Grammar) : Parser.parameters g = do
    expect .openParen
    let receiver ← receiver g
    let plain ← collect (parameterItem g)
    let rest ← if ← atMark .ellipsis then some <$> restParameter g else pure none
    expect .closeParen
    return (receiver, plain, rest) :=
  rfl

theorem reaches_receiver (hthis : cursor.token.isKeyword .thisWord = false) :
    Reaches (receiver g) context cursor fun span moved => span = none ∧ moved = cursor := by
  simp [receiver, hthis]

theorem reaches_parameters {parameters : ParameterTexts} (h : parameters.Read)
    (hcursor : cursor.Before source (spacing.text ++ (grouped parameters.text ++ after)))
    (hdepth : 8 * parameters.text.length ≤ depth) :
    Reaches (Parser.parameters (grammar depth)) (typedContext source) cursor
      fun read moved => read.1 = none ∧
        Parameter.shapes source read.2.1 = parameters.plain.map Prod.snd ∧
          Parameter.shape? source read.2.2 = parameters.rest.map Prod.snd ∧
            moved.Before source after := by
  obtain ⟨plain, rest⟩ := parameters
  have hopen := stands_grouped hcursor.faces
  have hbound := hcursor.length_le
  have hcount := ParameterTexts.length_plain_le plain rest
  simp only [List.length_append, length_grouped] at hbound
  simp only [parameters_eq, reaches_bind, reaches_expect (hopen.is_eq .openParen)]
  refine (reaches_receiver (h.not_this hopen.next)).mono ?_
  rintro _ _ ⟨rfl, rfl⟩
  rw [reaches_collect]
  refine (reaches_plainParameters plain h (hcursor.advance hopen) hdepth
    (by rw [typedContext_itemBound]; omega)).mono ?_
  rintro read moved ⟨hshapes, spacing, hmoved⟩
  simp only [reaches_atMark]
  cases rest with
  | none =>
      have hend := hmoved.faces.sign .closeParen (absurd · (by decide))
      have hno : moved.token.is .ellipsis = false := hend.is_eq .ellipsis
      simp only [hno, Bool.false_eq_true, ↓reduceIte, reaches_bind, reaches_pure,
        reaches_expect (hend.is_eq .closeParen)]
      exact ⟨trivial, hshapes, rfl, hmoved.advance hend⟩
  | some parameter =>
      have hrest := h.rest parameter rfl
      have hlast := ParameterTexts.length_text_rest plain parameter
      simp only [hrest.leads hmoved.faces, ↓reduceIte, reaches_bind, reaches_map]
      refine (hrest.reads hmoved (by omega)).mono ?_
      rintro last final ⟨hshape, hfinal⟩
      have hend := stands_close hfinal.faces
      simp only [reaches_expect (hend.is_eq .closeParen), reaches_pure]
      exact ⟨trivial, hshapes, by rw [Parameter.shape?, hshape]; rfl, hfinal.advance hend⟩

end Lists

section Functions

variable {source after : Text} {cursor : Cursor} {spacing : Spacing} {depth : Nat}
  {parameters : ParameterTexts} {result : Text} {shape : TypeShape}

theorem stands_arrow (h : cursor.Faces source ((" => " : Text) ++ after)) :
    cursor.Stands source { kind := .punctuator .arrow, count := 2 }
      (Spacing.loose.text ++ after) := by
  have hfaces : cursor.Faces source (Spacing.loose.text ++ (['=', '>'] ++ ' ' :: after)) := h
  exact (hfaces.stands (scans_arrow _)).1

theorem reaches_parameterEnd (h : (∃ others : ParameterTexts, cursor.Faces source
        (others.behind ((" => " : Text) ++ after))) ∨
      ∃ mark ∈ [Punctuator.colon, .question, .assign], cursor.token.is mark = true) :
    Reaches (do
      if (← atMark .colon) || (← atMark .comma) || (← atMark .question) || (← atMark .assign) then
        return true
      return (← eat .closeParen) && (← atMark .arrow)) context cursor
        fun found _ => found = true := by
  simp only [reaches_bind, reaches_atMark]
  rcases h with ⟨others, hfaces⟩ | ⟨mark, hmark, htoken⟩
  · unfold ParameterTexts.behind at hfaces
    split at hfaces
    · have hclose := stands_close hfaces
      have hyes : cursor.token.is .closeParen = true := hclose.is_eq .closeParen
      have harrow : cursor.advance.token.is .arrow = true :=
        (stands_arrow hclose.next).is_eq .arrow
      split <;> simp [hyes, harrow]
    · have hcomma : cursor.token.is .comma = true :=
        (hfaces.stands_tight (scans_sign .comma (absurd · (by decide)))).is_eq .comma
      simp [hcomma]
  · simp only [List.mem_cons, List.not_mem_nil, or_false] at hmark
    rcases hmark with rfl | rfl | rfl <;> simp [htoken]

theorem ParameterTexts.Read.reaches_atFunctionParameters (h : parameters.Read)
    (hcursor : cursor.Faces source
      (spacing.text ++ (grouped parameters.text ++ ((" => " : Text) ++ after))))
    (hdepth : 8 * parameters.text.length ≤ depth) :
    Reaches (atFunctionParameters (grammar depth)) (typedContext source) cursor
      fun found moved => found = true ∧ moved = cursor := by
  have hopen := stands_grouped hcursor
  refine Reaches.isAhead_true ?_ ⟨rfl, rfl⟩
  simp only [reaches_bind, reaches_expect (hopen.is_eq .openParen), reaches_atMark]
  obtain ⟨plain, rest⟩ := parameters
  cases plain with
  | nil =>
      have hend : (cursor.advance.token.is .closeParen || cursor.advance.token.is .ellipsis) =
          true := by
        cases rest with
        | none =>
            have hclose : cursor.advance.token.is .closeParen = true :=
              (hopen.next.sign .closeParen (absurd · (by decide))).is_eq .closeParen
            rw [hclose, Bool.true_or]
        | some parameter => rw [(h.rest parameter rfl).leads hopen.next, Bool.or_true]
      simp only [hend, ↓reduceIte, reaches_pure]
  | cons first plain =>
      have hnext := hopen.next
      rw [ParameterTexts.text_cons] at hnext
      have hfirst := h.plain first List.mem_cons_self
      have hlengths := ParameterTexts.length_text_cons first plain rest
      obtain ⟨hclose, hdots, -⟩ := hfirst.leads (ParameterTexts.stops_behind _ _) hnext
      simp only [hclose, hdots, Bool.or_self, Bool.false_eq_true, ↓reduceIte, reaches_bind]
      refine (hfirst.starts (ParameterTexts.stops_behind _ _) hnext (by omega)).mono ?_
      rintro _ moved ⟨rfl, hmoved⟩
      exact reaches_parameterEnd (hmoved.imp_left fun hfaces => ⟨_, hfaces⟩)

theorem functionType_eq (g : Grammar) : functionType g = do
    let start ← position
    discard <| eatWord .abstractWord
    let constructs ← eatWord .newWord
    let typeParameters ← typeParameters g
    flawIf (constructs && (← atReceiver))
    let read ← Parser.parameters g
    expect .arrow
    let result ← resultType g
    if constructs then return .other (← spanFrom start)
    else return .function ⟨typeParameters, read.1⟩ read.2.1 read.2.2 result :=
  rfl

theorem reaches_functionType {post : TypeNode → Cursor → Prop}
    (hkind : cursor.token.kind = .punctuator .openParen)
    (h : Reaches (Parser.parameters g) context cursor fun read moved =>
      moved.token.is .arrow = true ∧ Reaches (resultType g) context moved.advance
        fun result final => post (.function ⟨none, read.1⟩ read.2.1 read.2.2 result) final) :
    Reaches (functionType g) context cursor post := by
  have hword : ∀ word, cursor.token.isKeyword word = false := by simp [Token.isKeyword, hkind]
  have hless : cursor.token.is .less = false := by simp [Token.is, hkind]
  simp only [functionType_eq, reaches_bind, reaches_position, reaches_discard, reaches_eatWord,
    hword, Bool.false_eq_true, ↓reduceIte, typeParameters, reaches_atMark, hless, reaches_pure,
    atReceiver, reaches_read, reaches_nextToken, Bool.false_and, reaches_flawIf,
    Cursor.flawIf_false]
  refine h.mono fun read moved hmoved => ?_
  simp only [reaches_expect hmoved.1]
  refine hmoved.2.mono fun result final hfinal => ?_
  simpa using hfinal

theorem ReadsType.function (h : parameters.Read) (hresult : ReadsResult result shape) :
    ReadsType (arrowText (grouped parameters.text) result)
      (.function {} (parameters.plain.map Prod.snd) (parameters.rest.map Prod.snd) shape) := by
  have htext : ∀ after, arrowText (grouped parameters.text) result ++ after =
      grouped parameters.text ++ ((" => " : Text) ++ (result ++ after)) := by
    intro after
    simp only [arrowText, List.append_assoc]
  have hlength : (arrowText (grouped parameters.text) result).length =
      parameters.text.length + result.length + 6 := by
    simp only [arrowText, List.length_append, length_grouped]
    have harrow : (" => " : Text).length = 4 := rfl
    omega
  refine ⟨⟨by omega, ?_⟩, ?_⟩
  · intro source after cursor spacing hstops hcursor
    rw [htext] at hcursor
    exact yields_predicateSubject_mark (stands_grouped hcursor).kind_eq
  · intro source after cursor spacing depth hstops hcursor hdepth
    rw [htext] at hcursor
    have hopen := stands_grouped hcursor.faces
    have hkind : cursor.token.kind = .punctuator .openParen := hopen.kind_eq
    obtain ⟨depth, rfl⟩ : ∃ smaller, depth = smaller + 1 := ⟨depth - 1, by omega⟩
    change Reaches (anyType (grammar depth)) _ _ _
    have hless : cursor.token.is .less = false := hopen.is_eq .less
    have hparen : cursor.token.is .openParen = true := hopen.is_eq .openParen
    have hnew : cursor.token.isKeyword .newWord = false := by simp [Token.isKeyword, hkind]
    simp only [anyType, atFunctionType, reaches_bind, reaches_token, hless, hnew, hparen,
      Bool.or_self, Bool.false_eq_true, ↓reduceIte]
    refine (h.reaches_atFunctionParameters hcursor.faces (by omega)).mono ?_
    rintro _ _ ⟨rfl, rfl⟩
    rw [if_pos rfl]
    refine reaches_functionType hkind ((reaches_parameters h hcursor (by omega)).mono ?_)
    rintro read moved ⟨hreceiver, hplain, hrest, hmoved⟩
    have harrow := stands_arrow hmoved.faces
    refine ⟨harrow.is_eq .arrow, ?_⟩
    refine (hresult hstops (hmoved.advance harrow) (by omega)).mono ?_
    rintro type final ⟨hshape, hfinal⟩
    exact ⟨by rw [TypeNode.shape, hreceiver, hplain, hrest, hshape]; rfl, hfinal⟩

end Functions

end ComponentDocs.Script
