import ComponentDocs.Proofs.TypeText.Legible

/-!
# Aliases of written types

The text of a type behind a name for it is a script of one statement.
-/

namespace ComponentDocs.Script

open ComponentDocs.Script.Parser

def aliasScript (type : Text) : Text :=
  "type T = " ++ type

structure Cursor.Begins (source : Text) (word : Word) (after : Text) (cursor : Cursor) : Prop where
  kind_eq : cursor.token.kind = .name word.keyword
  escaped_eq : cursor.token.escaped = false
  next : cursor.advance.Before source after

theorem Cursor.start_begins (word : Word) {after : Text} (hafter : Text.EndsName after)
    (hopen : openSource (word.text ++ after) = (0, word.text ++ after)) :
    (Cursor.start (word.text ++ after)).Begins (word.text ++ after) word after := by
  have hlexed := next_spacing (word.scans hafter) .tight
    (show Trivia.closed { onNewLine := true, sawBreak := true } = true from rfl) 0
  simp only [Spacing.text_tight, List.nil_append, List.length_nil, Nat.add_zero] at hlexed
  have hfaces : (Cursor.start (word.text ++ after)).advance.Faces (word.text ++ after) after := by
    refine faces_advance (List.suffix_append _ _) ?_ ?_
    · simp only [Cursor.start, hopen, hlexed, Cursor.accept]
    · simp only [Cursor.start, hopen, hlexed, Cursor.accept, List.length_append]
      omega
  refine ⟨?_, ?_, hfaces, ?_, ?_⟩
  all_goals simp only [Cursor.advance, Cursor.start, hopen, hlexed, Cursor.accept]
  · rfl
  · rfl

section Statement

variable {source after text : Text} {shape : TypeShape} {cursor : Cursor} {context : Context}

theorem reaches_expectWord {post : Unit → Cursor → Prop} {word : Keyword}
    (h : cursor.token.isKeyword word = true) :
    Reaches (expectWord word) context cursor post ↔ post () cursor.advance := by
  simp [expectWord, h]

theorem reaches_modifiers_word {word : Keyword} (hkind : cursor.token.kind = .name (some word))
    (hword : isModifier word = false) :
    Reaches modifiers (typedContext source) cursor fun words moved =>
      words = [] ∧ moved = cursor := by
  have hmodifier : ∀ other, cursor.token.kind = .name (some other) → isModifier other = false := by
    intro other hother
    rw [hkind] at hother
    cases hother
    exact hword
  have hbound : 0 < (typedContext source).itemBound := Nat.succ_pos _
  exact ⟨_, _, modifiers_apply_nil hmodifier hbound, rfl, rfl⟩

theorem reaches_decorators_nil {g : Grammar} (hat : cursor.token.is .atSign = false) :
    Reaches (decorators g) (typedContext source) cursor fun _ moved => moved = cursor := by
  rw [decorators, reaches_discard, reaches_collect, typedContext_itemBound]
  refine Reaches.collectFrom ?_
  simp [hat]

theorem reaches_identifier (hkind : cursor.token.kind = .name none) :
    Reaches identifier context cursor fun _ moved => moved = cursor.advance := by
  have hname : isBindingName cursor.token = true := by simp [isBindingName, hkind]
  have hword : ∀ word, (cursor.token.kind == .name (some word)) = false := by simp [hkind]
  simp [identifier, hname, hword]

def typeWord : Word where
  text := "type"
  isName := by decide

theorem typeWord_keyword : typeWord.keyword = some .typeWord := by
  decide

def aliasName : Word where
  text := "T"
  isName := by decide

theorem aliasName_kind : aliasName.lexeme.kind = .name none := by
  decide

def aliasRest (type : Text) : Text :=
  Spacing.loose.text ++ (aliasName.text ++ (Spacing.loose.text ++
    ([Sign.assign.char] ++ (Spacing.loose.text ++ (type ++ [])))))

theorem aliasScript_eq (type : Text) : aliasScript type = typeWord.text ++ aliasRest type := by
  rw [aliasRest, List.append_nil]
  rfl

theorem Cursor.Begins.alias (h : cursor.Begins source typeWord (aliasRest text)) :
    cursor.token.isKeyword .typeWord = true ∧
      cursor.advance.Stands source aliasName.lexeme (Spacing.loose.text ++
        ([Sign.assign.char] ++ (Spacing.loose.text ++ (text ++ [])))) ∧
      cursor.advance.advance.Stands source (Body.mark .assign).lexeme
        (Spacing.loose.text ++ (text ++ [])) := by
  have hname : cursor.advance.Stands source aliasName.lexeme _ :=
    h.next.faces.word fun c hc => by cases hc; decide
  have hassign := (hname.next.stands (scans_sign .assign fun _ c hc => by cases hc; decide)).1
  refine ⟨?_, hname, hassign⟩
  simp [Token.isKeyword, h.kind_eq, h.escaped_eq, typeWord_keyword]

theorem reaches_endStatement (h : cursor.Before source []) :
    Reaches endStatement context cursor fun _ moved => moved = cursor := by
  have hkind := h.faces.nil.1
  have hmark : cursor.token.is .semicolon = false := by simp [Token.is, hkind]
  simp [endStatement, atStatementEnd, hkind, hmark]

theorem reaches_aliasDeclaration {depth : Nat} (htype : ReadsType text shape)
    (h : cursor.Begins source typeWord (aliasRest text)) (hdepth : 8 * text.length ≤ depth) :
    Reaches (aliasDeclaration (grammar depth)) (typedContext source) cursor fun form moved =>
      (∃ type, form.aliased? = some type ∧ type.shape source = shape) ∧
        moved.Before source [] := by
  obtain ⟨hword, hname, hassign⟩ := h.alias
  have hless : cursor.advance.advance.token.is .less = false := hassign.is_eq .less
  have hbefore := (h.next.advance hname).advance hassign
  simp only [aliasDeclaration, reaches_bind, reaches_expectWord hword]
  refine (reaches_identifier (hname.kind_eq.trans aliasName_kind)).mono ?_
  rintro _ _ rfl
  simp only [typeParameters, reaches_bind, reaches_discard, reaches_atMark, hless,
    Bool.false_eq_true, ↓reduceIte, reaches_pure, reaches_expect (hassign.is_eq .assign)]
  refine (htype.reads Stops.nil hbefore hdepth).mono ?_
  rintro type moved ⟨hshape, hmoved⟩
  refine (reaches_endStatement hmoved).mono ?_
  rintro _ _ rfl
  split <;> simp only [reaches_pure] <;> exact ⟨⟨_, rfl, hshape⟩, hmoved⟩

theorem Cursor.Begins.kind_typeWord (h : cursor.Begins source typeWord after) :
    cursor.token.kind = .name (some .typeWord) := by
  rw [h.kind_eq, typeWord_keyword]

theorem reaches_declaration {depth : Nat} (htype : ReadsType text shape)
    (h : cursor.Begins source typeWord (aliasRest text)) (hdepth : 8 * text.length ≤ depth) :
    Reaches (declaration (grammar depth)) (typedContext source) cursor fun declared moved =>
      (∃ type, declared.1.aliased? = some type ∧ type.shape source = shape) ∧
        moved.Before source [] := by
  have hkind := h.kind_typeWord
  have hat : cursor.token.is .atSign = false := by simp [Token.is, hkind]
  simp only [declaration, reaches_bind, reaches_position]
  refine (reaches_decorators_nil hat).mono ?_
  rintro _ _ rfl
  refine (reaches_modifiers_word hkind rfl).mono ?_
  rintro _ _ ⟨rfl, rfl⟩
  simp only [reaches_read, reaches_flawIf, List.contains_nil, Bool.false_and, Cursor.flawIf_false,
    Bool.or_false, reaches_withReader, declarationForm, reaches_bind, reaches_token, hkind,
    reaches_needsTypes, typedContext_typed, Bool.not_true, List.any_nil]
  refine (reaches_aliasDeclaration htype h hdepth).mono fun form moved hform => ?_
  simp only [reaches_spanFrom, reaches_pure]
  exact hform

theorem reaches_atDeclaration (h : cursor.Begins source typeWord (aliasRest text)) :
    Reaches (atDeclaration .typeWord) (typedContext source) cursor fun found moved =>
      found = true ∧ moved = cursor := by
  obtain ⟨-, hname, -⟩ := h.alias
  have hkind := h.kind_typeWord
  have hfunction : cursor.token.isKeyword .functionWord = false := by simp [Token.isKeyword, hkind]
  have hasync : cursor.token.isKeyword .asyncWord = false := by simp [Token.isKeyword, hkind]
  have hplain : isPlainName cursor.advance.token = true := by
    simp [isPlainName, hname.kind_eq, aliasName_kind]
  simp only [atDeclaration, reaches_bind, reaches_nextToken, atFunction, reaches_atWord, hfunction,
    hasync, Bool.false_eq_true, ↓reduceIte, Bool.false_and, reaches_pure, Bool.false_or,
    atTypedDeclaration, reaches_read, typedContext_typed, Bool.not_true]
  refine Reaches.isAhead_true ?_ ⟨rfl, rfl⟩
  simp only [reaches_bind]
  refine (reaches_modifiers_word hkind rfl).mono ?_
  rintro _ _ ⟨rfl, rfl⟩
  simp [hkind, hplain, hname.onNewLine_eq]

theorem reaches_statement {depth : Nat} (htype : ReadsType text shape)
    (h : cursor.Begins source typeWord (aliasRest text)) (hdepth : 8 * text.length < depth) :
    Reaches (grammar depth).statement (typedContext source) cursor fun statement moved =>
      (∃ type, statement.form.aliased? = some type ∧ type.shape source = shape) ∧
        moved.Before source [] := by
  obtain ⟨depth, rfl⟩ : ∃ smaller, depth = smaller + 1 := ⟨depth - 1, by omega⟩
  change Reaches (Parser.statement (grammar depth)) _ _ _
  simp only [Parser.statement, reaches_bind, reaches_position, reaches_token, h.kind_typeWord,
    reaches_nextToken, h.escaped_eq, Bool.false_eq_true, ↓reduceIte, governedBy?]
  have hexport : (Keyword.typeWord == .exportWord) = false := rfl
  have himport : (Keyword.typeWord == .importWord) = false := rfl
  simp only [hexport, himport, Bool.false_and, Bool.false_eq_true, ↓reduceIte, reaches_bind]
  refine (reaches_atDeclaration h).mono ?_
  rintro _ _ ⟨rfl, rfl⟩
  simp only [↓reduceIte, declarationStatement, reaches_bind, reaches_position]
  refine (reaches_declaration htype h (by omega)).mono fun declared moved hdeclared => ?_
  simp only [reaches_pure]
  exact hdeclared

theorem reaches_script {depth : Nat} (htype : ReadsType text shape)
    (h : cursor.Begins source typeWord (aliasRest text)) (hdepth : 8 * text.length < depth) :
    Reaches (script (grammar depth)) (typedContext source) cursor fun statements moved =>
      (∃ statement type, statements = [statement] ∧ statement.form.aliased? = some type ∧
        type.shape source = shape) ∧ moved.Sound := by
  have hkind := h.kind_typeWord
  have hstring : (cursor.token.kind == .string) = false := by simp [hkind]
  have hmore : (cursor.token.kind == .endOfSource) = false := by simp [hkind]
  rw [script, reaches_bind, directives, reaches_discard, reaches_collect, typedContext_itemBound]
  refine Reaches.collectFrom ?_
  simp only [reaches_bind, reaches_token, hstring]
  refine reaches_isAhead fun _ => ?_
  simp only [Bool.false_and, Bool.false_eq_true, ↓reduceIte, reaches_pure]
  rw [reaches_collect, typedContext_itemBound]
  refine Reaches.collectFrom ?_
  simp only [reaches_bind, reaches_token, hmore, Bool.false_eq_true, ↓reduceIte]
  refine (reaches_statement htype h hdepth).mono ?_
  rintro statement moved ⟨⟨type, haliased, hshape⟩, hmoved⟩
  simp only [reaches_pure]
  refine Reaches.collectFrom ?_
  simp only [reaches_bind, reaches_token, hmoved.faces.nil.1, beq_self_eq_true, ↓reduceIte,
    reaches_pure]
  exact ⟨⟨statement, type, rfl, haliased, hshape⟩, hmoved.sound⟩

end Statement

theorem ReadsType.parse {text : Text} {shape : TypeShape} (h : ReadsType text shape) :
    ∃ program statement type, parse? Language.ofComponents (aliasScript text) = some program ∧
      program.statements = [statement] ∧ statement.form.aliased? = some type ∧
      type.shape (aliasScript text) = shape := by
  have hopen : openSource (typeWord.text ++ aliasRest text) =
      (0, typeWord.text ++ aliasRest text) := by
    simp [openSource, typeWord]
  have hbegins : (Cursor.start (aliasScript text)).Begins (aliasScript text) typeWord
      (aliasRest text) := by
    rw [aliasScript_eq]
    exact Cursor.start_begins typeWord (fun c hc => by cases hc; decide) hopen
  have hdepth : 8 * text.length < depthBound (aliasScript text) := by
    have hlength : text.length ≤ (aliasScript text).length :=
      (List.suffix_append _ text).length_le
    rw [depthBound]
    omega
  obtain ⟨statements, moved, hrun, ⟨statement, type, rfl, haliased, hshape⟩, hsound⟩ :=
    reaches_script h hbegins hdepth
  refine ⟨⟨[statement], moved.docs⟩, statement, type, ?_, rfl, haliased, hshape⟩
  rw [typedContext] at hrun
  simp only [parse?, hrun]
  simp [hsound.flawed_eq, hsound.openCovers_eq]

end ComponentDocs.Script
