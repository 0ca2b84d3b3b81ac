import ComponentDocs.Proofs.TypeText.Openings
import ComponentDocs.Proofs.TypeText.Shape

/-!
# Reading types back

`Reads` says that a text is read to its end wherever it stands, and as a type of which shape.
What is put together from such texts with operators, brackets and parentheses is such a text.
-/

namespace ComponentDocs

theorem Text.join_eq_append_flatMap (separator first : Text) (others : List Text) :
    Text.join separator (first :: others) =
      first ++ others.flatMap fun text => separator ++ text := by
  induction others generalizing first with
  | nil => simp [join]
  | cons second others ih => simp [join, ih, List.append_assoc]

namespace Script

open ComponentDocs.Script.Parser

def typedContext (source : Text) : Context :=
  Language.ofComponents.context source

@[simp] theorem typedContext_typed (source : Text) : (typedContext source).typed = true := rfl

@[simp] theorem typedContext_itemBound (source : Text) :
    (typedContext source).itemBound = source.length + 3 := rfl

/-- The cursor faces the text, and nothing has been read for which a script is refused. -/
structure Cursor.Before (source text : Text) (cursor : Cursor) : Prop where
  faces : cursor.Faces source text
  sound : cursor.Sound

theorem Cursor.Before.advance {source text after : Text} {cursor : Cursor} {lexeme : Lexeme}
    (h : cursor.Before source text) (hstands : cursor.Stands source lexeme after) :
    cursor.advance.Before source after :=
  ⟨hstands.next, h.sound.advance⟩

theorem Cursor.Before.length_le {source text : Text} {cursor : Cursor}
    (h : cursor.Before source text) : text.length ≤ source.length :=
  h.faces.isSuffix.length_le

/-- Where a part of a type begins, neither a function nor an operator does. -/
structure Cursor.StartsPart (source : Text) (cursor : Cursor) : Prop where
  notFunction : ∀ depth, Reaches (atFunctionType (grammar depth)) (typedContext source) cursor
    fun found moved => found = false ∧ moved = cursor
  not_bar : cursor.token.is .bar = false
  not_ampersand : cursor.token.is .ampersand = false

/-- Wherever the text stands, the reader reads it to its end and gives a type of the shape.  It
nests no deeper than its length allows, and less so by the `levels` that have been entered. -/
def Reads (reader : Grammar → Parser TypeNode) (levels : Nat) (stops : List Punctuator)
    (text : Text) (shape : TypeShape) : Prop :=
  ∀ {source after : Text} {cursor : Cursor} {spacing : Spacing} {depth : Nat},
    Stops stops after → cursor.Before source (spacing.text ++ (text ++ after)) →
      8 * text.length ≤ depth + levels →
        Reaches (reader (grammar depth)) (typedContext source) cursor fun type moved =>
          type.shape source = shape ∧ moved.Before source after

/-- The text is not empty, and nothing is said in it of a parameter. -/
structure Leads (stops : List Punctuator) (text : Text) : Prop where
  length_pos : 0 < text.length
  notPredicate : ∀ {source after : Text} {cursor : Cursor} {spacing : Spacing},
    Stops stops after → cursor.Faces source (spacing.text ++ (text ++ after)) →
      Yields predicateSubject (typedContext source) cursor fun _ _ => False

/-- Behind a parenthesis the text does not begin like a parameter. -/
def Opens (text : Text) : Prop :=
  ∀ {source after : Text} {cursor : Cursor} {spacing : Spacing}, Stops closers after →
    cursor.Faces source (spacing.text ++ (text ++ after)) → Opening source after cursor

structure ReadsType (text : Text) (shape : TypeShape) : Prop extends Leads closers text where
  reads : Reads Grammar.type 0 closers text shape

/-- The text is read as a result type of the shape, which may be known of a parameter. -/
abbrev ReadsResult := Reads resultType 0 closers

structure ReadsPart (reader : Grammar → Parser TypeNode) (stops : List Punctuator) (text : Text)
    (shape : TypeShape) : Prop extends Leads stops text where
  starts : ∀ {source after : Text} {cursor : Cursor} {spacing : Spacing},
    Stops stops after → cursor.Faces source (spacing.text ++ (text ++ after)) →
      cursor.StartsPart source
  reads : Reads reader 1 stops text shape

def intersectionType (g : Grammar) : Parser TypeNode :=
  joinedTypes .ampersand .intersection g.typeOperand

abbrev ReadsMeet := ReadsPart intersectionType joinStops

abbrev ReadsOperand := ReadsPart Grammar.typeOperand meetStops

/-- The text is read as a type that brackets may follow.  Reading it takes some steps of those
with which the reader goes on behind a type. -/
structure ReadsUnit (text : Text) (shape : TypeShape) : Prop extends Leads unitStops text where
  starts : ∀ {source after : Text} {cursor : Cursor} {spacing : Spacing},
    Stops unitStops after → cursor.Faces source (spacing.text ++ (text ++ after)) →
      cursor.StartsPart source
  reads : ∀ {source after : Text} {cursor : Cursor} {spacing : Spacing} {depth : Nat},
    Stops unitStops after → cursor.Before source (spacing.text ++ (text ++ after)) →
      8 * text.length ≤ depth + 2 →
        ∃ type moved steps, type.shape source = shape ∧ moved.Before source after ∧
          steps ≤ text.length ∧ ∀ post : TypeNode → Cursor → Prop,
            Reaches (extendFrom (typeSuffix (grammar depth) cursor.token.span.start)
              (source.length + 3 - steps) type) (typedContext source) moved post →
            Reaches (typeOperand (grammar depth)) (typedContext source) cursor post

theorem ReadsType.result {text : Text} {shape : TypeShape} (h : ReadsType text shape) :
    ReadsResult text shape := by
  intro source after cursor spacing depth hstops hcursor hdepth
  simp only [resultType, reaches_bind, reaches_position]
  refine Reaches.attempt_none (h.notPredicate hstops hcursor.faces) ?_
  refine (h.reads hstops hcursor hdepth).mono fun type moved hmoved => ?_
  simpa using hmoved

theorem ReadsPart.type {text : Text} {shape : TypeShape}
    (h : ReadsPart unionType closers text shape) : ReadsType text shape := by
  refine ⟨h.toLeads, ?_⟩
  intro source after cursor spacing depth hstops hcursor hdepth
  have hlength := h.length_pos
  obtain ⟨depth, rfl⟩ : ∃ smaller, depth = smaller + 1 := ⟨depth - 1, by omega⟩
  change Reaches (anyType (grammar depth)) _ _ _
  simp only [anyType, reaches_bind]
  refine ((h.starts hstops hcursor.faces).notFunction depth).mono ?_
  rintro _ _ ⟨rfl, rfl⟩
  simp only [Bool.false_eq_true, ↓reduceIte, reaches_bind, reaches_position]
  refine (h.reads hstops hcursor (by omega)).mono fun type moved hmoved => ?_
  have hword := hstops.isKeyword_eq_false hmoved.2.faces .extendsWord
  simpa [hword] using hmoved

/-! ## Operators -/

structure Operator where
  mark : Punctuator
  sign : Char
  scans : ∀ after, Scans [sign] (' ' :: after) { kind := .punctuator mark, count := 1 }
  isLoose : stopSpacing mark = .loose
  notStart : ∀ {source : Text} {cursor : Cursor}, cursor.StartsPart source →
    cursor.token.is mark = false

namespace Operator

variable (operator : Operator) {source after : Text} {cursor : Cursor} {stops : List Punctuator}

def text : Text :=
  [' ', operator.sign, ' ']

theorem stands (h : cursor.Faces source (operator.text ++ after)) :
    cursor.Stands source { kind := .punctuator operator.mark, count := 1 }
      (Spacing.loose.text ++ after) := by
  have hfaces : cursor.Faces source
      (Spacing.loose.text ++ ([operator.sign] ++ (' ' :: after))) := h
  exact (hfaces.stands (operator.scans after)).1

theorem stops_text (after : Text) : Stops (operator.mark :: stops) (operator.text ++ after) := by
  have hstops : Stops (operator.mark :: stops)
      ((stopSpacing operator.mark).text ++ ([operator.sign] ++ (' ' :: after))) := by
    refine Stops.scans List.mem_cons_self (operator.scans after) ?_
    rw [operator.isLoose]
    intro c hc
    cases hc
    decide
  rw [operator.isLoose] at hstops
  exact hstops

def more (others : List (Text × TypeShape)) : Text :=
  others.flatMap fun other => operator.text ++ other.1

theorem more_cons (other : Text × TypeShape) (others : List (Text × TypeShape)) :
    operator.more (other :: others) = operator.text ++ other.1 ++ operator.more others := rfl

theorem length_le_more (others : List (Text × TypeShape)) :
    others.length ≤ (operator.more others).length := by
  induction others with
  | nil => exact Nat.zero_le _
  | cons other others ih =>
      simp only [more_cons, text, List.length_append, List.length_cons]
      omega

theorem stops_more (others : List (Text × TypeShape)) (h : Stops stops after) :
    Stops (operator.mark :: stops) (operator.more others ++ after) := by
  cases others with
  | nil => exact h.mono (List.subset_cons_self _ _)
  | cons other others =>
      simp only [more, List.flatMap_cons, List.append_assoc]
      exact operator.stops_text _

def bars : Operator where
  mark := .bar
  sign := '|'
  scans after := scans_sign .bar fun _ c hc => by cases hc; decide
  isLoose := rfl
  notStart := Cursor.StartsPart.not_bar

theorem scans_ampersands (after : Text) :
    Scans ['&'] (' ' :: after) { kind := .punctuator .ampersand, count := 1 } := by
  apply scans_ampersand
  intro c hc
  cases hc
  decide

theorem isLoose_ampersands : stopSpacing .ampersand = .loose := rfl

def ampersands : Operator where
  mark := .ampersand
  sign := '&'
  scans := scans_ampersands
  isLoose := isLoose_ampersands
  notStart := Cursor.StartsPart.not_ampersand

end Operator

variable {context : Context} {others : List (Text × TypeShape)} {first : Text × TypeShape}
  {g : Grammar}

section Joined

variable {operator : Operator} {stops : List Punctuator} {part : Grammar → Parser TypeNode}
  {source after : Text} {cursor : Cursor} {depth : Nat}

def joinedItem (mark : Punctuator) (part : Parser TypeNode) : Parser (Option TypeNode) := do
  if ← eat mark then return some (← part) else return none

theorem reaches_joinedItem_some {mark : Punctuator} {reader : Parser TypeNode}
    {post : TypeNode → Cursor → Prop} (hmark : cursor.token.is mark = true)
    (h : Reaches reader context cursor.advance post) :
    Reaches (joinedItem mark reader) context cursor fun type moved =>
      ∃ value, type = some value ∧ post value moved := by
  simp only [joinedItem, reaches_bind, reaches_eat, hmark, ↓reduceIte, reaches_pure]
  exact h.mono fun value moved hmoved => ⟨value, rfl, hmoved⟩

theorem reaches_joinedItem_none {mark : Punctuator} {reader : Parser TypeNode}
    (hmark : cursor.token.is mark = false) :
    Reaches (joinedItem mark reader) context cursor fun type moved =>
      type = none ∧ moved = cursor := by
  simp [joinedItem, hmark]

theorem reaches_joinedItems (others : List (Text × TypeShape))
    (hothers : ∀ other ∈ others, ReadsPart part (operator.mark :: stops) other.1 other.2)
    (hmark : operator.mark ∉ stops) (hstops : Stops stops after)
    (hcursor : cursor.Before source (operator.more others ++ after))
    (hdepth : 8 * (operator.more others).length ≤ depth + 1) {fuel : Nat}
    (hfuel : others.length < fuel) :
    Reaches (collectFrom (joinedItem operator.mark (part (grammar depth))) fuel)
      (typedContext source) cursor fun types moved =>
        TypeNode.shapes source types = others.map Prod.snd ∧ moved.Before source after := by
  induction others generalizing cursor fuel with
  | nil =>
      obtain ⟨fuel, rfl⟩ : ∃ smaller, fuel = smaller + 1 := ⟨fuel - 1, by omega⟩
      have hno := hstops.is_eq_false hcursor.faces operator.mark hmark
      refine Reaches.collectFrom ((reaches_joinedItem_none hno).mono ?_)
      rintro _ _ ⟨rfl, rfl⟩
      exact ⟨rfl, hcursor⟩
  | cons other others ih =>
      obtain ⟨fuel, rfl⟩ : ∃ smaller, fuel = smaller + 1 := ⟨fuel - 1, by omega⟩
      rw [List.forall_mem_cons] at hothers
      rw [operator.more_cons, List.append_assoc, List.append_assoc] at hcursor
      simp only [operator.more_cons, List.length_append, List.length_cons] at hdepth hfuel
      have hstands := operator.stands hcursor.faces
      have hyes : cursor.token.is operator.mark = true := by simp [hstands.is_eq]
      have hpart : Reaches (part (grammar depth)) (typedContext source) cursor.advance
          fun type moved => type.shape source = other.2 ∧
            moved.Before source (operator.more others ++ after) :=
        hothers.1.reads (operator.stops_more others hstops) (hcursor.advance hstands) (by omega)
      refine Reaches.collectFrom ((reaches_joinedItem_some hyes hpart).mono ?_)
      rintro _ moved ⟨type, rfl, hshape, hmoved⟩
      refine (ih hothers.2 hmoved (by omega) (by omega)).mono fun types final hfinal => ?_
      exact ⟨by simp [TypeNode.shapes, hshape, hfinal.1], hfinal.2⟩

theorem ReadsPart.joined (operator : Operator) (stops : List Punctuator)
    (join : List TypeNode → TypeNode) {joinShapes : List TypeShape → TypeShape}
    (hparts : ∀ other ∈ first :: others, ReadsPart part (operator.mark :: stops) other.1 other.2)
    (hmark : operator.mark ∉ stops) (hjoin : ∀ source types,
      (join types).shape source = .joined joinShapes (TypeNode.shapes source types)) :
    ReadsPart (fun g => joinedTypes operator.mark join (part g)) stops
      (first.1 ++ operator.more others)
      (.joined joinShapes (first.2 :: others.map Prod.snd)) := by
  rw [List.forall_mem_cons] at hparts
  obtain ⟨hfirst, hothers⟩ := hparts
  have hlength : 0 < (first.1 ++ operator.more others).length := by
    rw [List.length_append]
    exact Nat.add_pos_left hfirst.length_pos _
  refine ⟨⟨hlength, ?_⟩, ?_, ?_⟩
  · intro source after cursor spacing hstops hcursor
    rw [List.append_assoc] at hcursor
    exact hfirst.notPredicate (operator.stops_more others hstops) hcursor
  · intro source after cursor spacing hstops hcursor
    rw [List.append_assoc] at hcursor
    exact hfirst.starts (operator.stops_more others hstops) hcursor
  · intro source after cursor spacing depth hstops hcursor hdepth
    rw [List.append_assoc] at hcursor
    rw [List.length_append] at hdepth
    have hlength := hcursor.length_le
    have hno := operator.notStart (hfirst.starts (operator.stops_more others hstops) hcursor.faces)
    simp only [joinedTypes, reaches_bind, reaches_eat, hno, Bool.false_eq_true, ↓reduceIte,
      Bool.false_or]
    refine (hfirst.reads (operator.stops_more others hstops) hcursor (by omega)).mono ?_
    rintro type moved ⟨hshape, hmoved⟩
    rw [reaches_collect]
    have hcount := operator.length_le_more others
    simp only [List.length_append] at hlength
    refine (reaches_joinedItems others hothers hmark hstops hmoved (by omega)
      (by simp only [typedContext_itemBound]; omega)).mono ?_
    rintro types final ⟨hshapes, hfinal⟩
    cases types with
    | nil =>
        simp only [List.isEmpty_nil, Bool.not_true, Bool.false_eq_true, ↓reduceIte, reaches_pure]
        exact ⟨by rw [hshape, ← hshapes]; rfl, hfinal⟩
    | cons second types =>
        simp only [List.isEmpty_cons, Bool.not_false, ↓reduceIte, reaches_pure]
        exact ⟨by rw [hjoin, TypeNode.shapes, hshape, hshapes], hfinal⟩

end Joined

theorem Operator.join_eq (operator : Operator) (first : Text × TypeShape)
    (others : List (Text × TypeShape)) :
    Text.join operator.text ((first :: others).map Prod.fst) =
      first.1 ++ operator.more others := by
  rw [List.map_cons, Text.join_eq_append_flatMap, Operator.more, List.flatMap_map]

theorem ReadsPart.intersection (h : ∀ other ∈ first :: others, ReadsOperand other.1 other.2) :
    ReadsMeet (Text.join " & " ((first :: others).map Prod.fst))
      (.joined .intersection ((first :: others).map Prod.snd)) := by
  have hjoined := ReadsPart.joined .ampersands joinStops .intersection h (by decide)
    fun source types => TypeNode.shape.eq_2 source types
  rw [← Operator.join_eq] at hjoined
  exact hjoined

theorem ReadsPart.union (h : ∀ other ∈ first :: others, ReadsMeet other.1 other.2) :
    ReadsPart unionType closers (Text.join " | " ((first :: others).map Prod.fst))
      (.joined .union ((first :: others).map Prod.snd)) := by
  have hjoined := ReadsPart.joined .bars closers .union h (by decide)
    fun source types => TypeNode.shape.eq_1 source types
  rw [← Operator.join_eq] at hjoined
  exact hjoined

theorem ReadsPart.meet {text : Text} {shape : TypeShape} (h : ReadsOperand text shape) :
    ReadsMeet text shape := by
  have hone : ∀ other ∈ [(text, shape)], ReadsOperand other.1 other.2 := by simpa using h
  exact ReadsPart.intersection hone

theorem ReadsPart.join {text : Text} {shape : TypeShape} (h : ReadsMeet text shape) :
    ReadsType text shape := by
  have hone : ∀ other ∈ [(text, shape)], ReadsMeet other.1 other.2 := by simpa using h
  exact (ReadsPart.union hone).type

/-! ## Brackets -/

theorem reaches_typeSuffix_none {source after : Text} {cursor : Cursor} {start : Nat}
    {type : TypeNode} (hstops : Stops meetStops after) (hcursor : cursor.Faces source after) :
    Reaches (typeSuffix g start type) context cursor fun next moved =>
      next = none ∧ moved = cursor := by
  have hline := hstops.onNewLine_eq hcursor
  simp only [typeSuffix, reaches_bind, reaches_token, hline, Bool.false_eq_true, ↓reduceIte]
  rcases hstops.kind_eq hcursor with hkind | ⟨mark, hmark, hkind⟩
  · simp [hkind]
  · have hne : ∀ mark ∈ meetStops, mark ≠ .bang ∧ mark ≠ .question ∧ mark ≠ .openBracket := by
      decide
    obtain ⟨hbang, hquestion, hbracket⟩ := hne mark hmark
    rw [hkind]
    split <;> simp_all

theorem ReadsUnit.operand {text : Text} {shape : TypeShape} (h : ReadsUnit text shape) :
    ReadsOperand text shape := by
  have hmono : ∀ {after : Text}, Stops meetStops after → Stops unitStops after :=
    fun hstops => hstops.mono (List.subset_cons_self _ _)
  refine ⟨⟨h.length_pos, fun hstops => h.notPredicate (hmono hstops)⟩,
    fun hstops => h.starts (hmono hstops), ?_⟩
  intro source after cursor spacing depth hstops hcursor hdepth
  have hlength := h.length_pos
  have hbound := hcursor.length_le
  simp only [List.length_append] at hbound
  obtain ⟨depth, rfl⟩ : ∃ smaller, depth = smaller + 1 := ⟨depth - 1, by omega⟩
  have hunit : 8 * text.length ≤ depth + 2 := by omega
  obtain ⟨type, moved, steps, hshape, hmoved, hsteps, hrun⟩ := h.reads (hmono hstops) hcursor hunit
  refine hrun _ ?_
  obtain ⟨fuel, hfuel⟩ : ∃ fuel, source.length + 3 - steps = fuel + 1 :=
    ⟨source.length + 2 - steps, by omega⟩
  rw [hfuel]
  refine Reaches.extendFrom ((reaches_typeSuffix_none hstops hmoved.faces).mono ?_)
  rintro _ _ ⟨rfl, rfl⟩
  exact ⟨hshape, hmoved⟩

theorem reaches_typeSuffix_array {source after : Text} {cursor : Cursor} {start : Nat}
    {type : TypeNode} (hcursor : cursor.Before source ('[' :: ']' :: after)) :
    Reaches (typeSuffix g start type) context cursor fun next moved =>
      next = some (.array type) ∧ moved.Before source after := by
  have hopen : cursor.Stands source (Body.mark .openBracket).lexeme (']' :: after) :=
    hcursor.faces.stands_tight (scans_sign .openBracket (absurd · (by decide)))
  have hclose : cursor.advance.Stands source (Body.mark .closeBracket).lexeme after :=
    hopen.next.stands_tight (scans_sign .closeBracket (absurd · (by decide)))
  have hkind : cursor.advance.token.kind = .punctuator .closeBracket := hclose.kind_eq
  have hstart : startsType cursor.advance.token = false := by
    rw [startsType, hkind]
    decide
  simp only [typeSuffix, reaches_bind, reaches_token, hopen.onNewLine_eq, Bool.false_eq_true,
    ↓reduceIte, hopen.kind_eq, Body.kind_mark, Sign.mark, reaches_advance, hstart,
    reaches_expect (hclose.is_eq .closeBracket), reaches_pure, true_and]
  exact (hcursor.advance hopen).advance hclose

theorem stops_brackets (after : Text) : Stops unitStops (("[]" : Text) ++ after) :=
  Stops.sign .openBracket (by decide) (by decide) (absurd · (by decide))

theorem ReadsUnit.array {text : Text} {shape : TypeShape} (h : ReadsUnit text shape) :
    ReadsUnit (text ++ "[]") (.array shape) := by
  have hlength : (text ++ ("[]" : Text)).length = text.length + 2 := List.length_append
  refine ⟨⟨by omega, ?_⟩, ?_, ?_⟩
  · intro source after cursor spacing hstops hcursor
    rw [List.append_assoc] at hcursor
    exact h.notPredicate (stops_brackets after) hcursor
  · intro source after cursor spacing hstops hcursor
    rw [List.append_assoc] at hcursor
    exact h.starts (stops_brackets after) hcursor
  · intro source after cursor spacing depth hstops hcursor hdepth
    rw [List.append_assoc] at hcursor
    have hunit : 8 * text.length ≤ depth + 2 := by omega
    obtain ⟨type, moved, steps, hshape, hmoved, hsteps, hrun⟩ :=
      h.reads (stops_brackets after) hcursor hunit
    have hbound := hcursor.length_le
    simp only [List.length_append] at hbound
    have hstep : Reaches (typeSuffix (grammar depth) cursor.token.span.start type)
        (typedContext source) moved fun next final =>
          next = some (.array type) ∧ final.Before source after :=
      reaches_typeSuffix_array hmoved
    obtain ⟨_, final, hsuffix, rfl, hfinal⟩ := hstep
    refine ⟨.array type, final, steps + 1, by rw [TypeNode.shape, hshape], hfinal, by omega, ?_⟩
    intro post hpost
    refine hrun post ?_
    have hfuel : source.length + 3 - steps = source.length + 3 - (steps + 1) + 1 := by omega
    rw [hfuel]
    exact Reaches.extendFrom ⟨_, _, hsuffix, hpost⟩

def TokenKind.leadsType : TokenKind → Bool
  | .name (some word) =>
      [Keyword.keyofWord, .uniqueWord, .readonlyWord, .inferWord].contains word
  | _ => false

theorem reaches_typeOperand {source : Text} {cursor : Cursor} {post : TypeNode → Cursor → Prop}
    (hkind : cursor.token.kind.leadsType = false) :
    Reaches (typeOperand g) (typedContext source) cursor post ↔
      Reaches (simpleType g) (typedContext source) cursor fun first moved =>
        Reaches (extendFrom (typeSuffix g cursor.token.span.start) (source.length + 3) first)
          (typedContext source) moved post := by
  simp only [typeOperand, reaches_bind, reaches_position, reaches_token]
  split
  case h_5 =>
    rw [reaches_withReader, reaches_bind]
    simp only [reaches_extend]
    rfl
  all_goals
    next h =>
      rw [h] at hkind
      contradiction

theorem ReadsUnit.of_simpleType {text : Text} {shape : TypeShape} (hleads : Leads unitStops text)
    (hstarts : ∀ {source after : Text} {cursor : Cursor} {spacing : Spacing},
      Stops unitStops after → cursor.Faces source (spacing.text ++ (text ++ after)) →
        cursor.StartsPart source ∧ cursor.token.kind.leadsType = false)
    (hreads : ∀ {source after : Text} {cursor : Cursor} {spacing : Spacing} {depth : Nat},
      Stops unitStops after → cursor.Before source (spacing.text ++ (text ++ after)) →
        8 * text.length ≤ depth + 2 →
          Reaches (simpleType (grammar depth)) (typedContext source) cursor fun type moved =>
            type.shape source = shape ∧ moved.Before source after) :
    ReadsUnit text shape := by
  refine ⟨hleads, fun hstops hcursor => (hstarts hstops hcursor).1, ?_⟩
  intro source after cursor spacing depth hstops hcursor hdepth
  obtain ⟨type, moved, hrun, hshape, hmoved⟩ := hreads hstops hcursor hdepth
  refine ⟨type, moved, 0, hshape, hmoved, Nat.zero_le _, fun post hpost => ?_⟩
  rw [reaches_typeOperand (hstarts hstops hcursor.faces).2]
  exact ⟨type, moved, hrun, hpost⟩

section Group

variable {text source after : Text} {shape : TypeShape} {cursor : Cursor} {spacing : Spacing}

def grouped (text : Text) : Text :=
  "(" ++ text ++ ")"

theorem length_grouped : (grouped text).length = text.length + 2 := by
  simp [grouped]

theorem stands_grouped (h : cursor.Faces source (spacing.text ++ (grouped text ++ after))) :
    cursor.Stands source (Body.mark .openParen).lexeme
      (Spacing.tight.text ++ (text ++ ')' :: after)) := by
  have hfaces : cursor.Faces source (spacing.text ++ '(' :: (text ++ ')' :: after)) := by
    simpa [grouped] using h
  exact hfaces.sign .openParen (absurd · (by decide))

theorem stands_close (h : cursor.Faces source (')' :: after)) :
    cursor.Stands source (Body.mark .closeParen).lexeme after :=
  h.stands_tight (scans_sign .closeParen (absurd · (by decide)))

theorem stops_close (after : Text) : Stops closers (')' :: after) :=
  Stops.sign .closeParen (by decide) (by decide) (absurd · (by decide))

theorem Opens.notParameters (h : Opens text) (hstops : Stops unitStops after)
    (hcursor : cursor.Faces source (spacing.text ++ (grouped text ++ after))) (depth : Nat) :
    Reaches (atFunctionParameters (grammar depth)) (typedContext source) cursor
      fun found moved => found = false ∧ moved = cursor := by
  have hopen := stands_grouped hcursor
  have hopening := h (stops_close after) hopen.next
  have hbound : 0 < (typedContext source).itemBound := Nat.succ_pos _
  refine Reaches.isAhead_false ?_ ⟨rfl, rfl⟩
  simp only [yields_bind, yields_expect, yields_atMark, Bool.or_self, Bool.false_eq_true,
    hopening.is_eq_false .closeParen (by decide), hopening.is_eq_false .ellipsis (by decide),
    yields_of_eq (skipParameterStart_apply _ hbound hopening.isPlain), ↓reduceIte]
  intro _
  split
  · next hname =>
      simp only [yields_bind, yields_atMark]
      rcases hopening.goesOn (isWord_of_plain hname) with hfaces | hgoesOn
      · have hclose := stands_close hfaces
        have his : ∀ mark, cursor.advance.advance.token.is mark = decide (mark = .closeParen) :=
          fun mark => by simp [hclose.is_eq, eq_comm, Sign.mark]
        have harrow : cursor.advance.advance.advance.token.is .arrow = false :=
          hstops.is_eq_false hclose.next .arrow (by decide)
        simp [his, harrow]
      · simp [hgoesOn .colon (by decide), hgoesOn .comma (by decide),
          hgoesOn .question (by decide), hgoesOn .assign (by decide),
          hgoesOn .closeParen (by decide)]
  · simp

theorem ReadsType.group (h : ReadsType text shape) (hopens : Opens text) :
    ReadsUnit (grouped text) (.parenthesized shape) := by
  refine ReadsUnit.of_simpleType ⟨by simp [length_grouped], ?_⟩ ?_ ?_
  · intro source after cursor spacing hstops hcursor
    exact yields_predicateSubject_mark (stands_grouped hcursor).kind_eq
  · intro source after cursor spacing hstops hcursor
    have hopen := stands_grouped hcursor
    have hkind : cursor.token.kind = .punctuator .openParen := hopen.kind_eq
    refine ⟨⟨fun depth => ?_, hopen.is_eq .bar, hopen.is_eq .ampersand⟩, by rw [hkind]; rfl⟩
    have hless : cursor.token.is .less = false := hopen.is_eq .less
    have hparen : cursor.token.is .openParen = true := hopen.is_eq .openParen
    have hnew : cursor.token.isKeyword .newWord = false := by simp [Token.isKeyword, hkind]
    simp only [atFunctionType, reaches_bind, reaches_token, hless, hnew, hparen, Bool.or_self,
      Bool.false_eq_true, ↓reduceIte]
    exact hopens.notParameters hstops hcursor depth
  · intro source after cursor spacing depth hstops hcursor hdepth
    have hopen := stands_grouped hcursor.faces
    have hkind : cursor.token.kind = .punctuator .openParen := hopen.kind_eq
    rw [length_grouped] at hdepth
    simp only [simpleType, reaches_bind, reaches_token, hkind, parenthesizedType,
      reaches_expect (hopen.is_eq .openParen)]
    refine (h.reads (stops_close after) (hcursor.advance hopen) (by omega)).mono ?_
    rintro type moved ⟨hshape, hmoved⟩
    have hclose := stands_close hmoved.faces
    simp only [reaches_expect (hclose.is_eq .closeParen), reaches_pure]
    exact ⟨by rw [TypeNode.shape, hshape], hmoved.advance hclose⟩

end Group

end Script

end ComponentDocs
