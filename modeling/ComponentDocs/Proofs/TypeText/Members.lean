import ComponentDocs.Proofs.TypeText.Readings

/-!
# Reading object types back

Members that are read back make up object types that are.
-/

namespace ComponentDocs.Script

open ComponentDocs.Script.Parser

inductive MemberEnds : Text → Text → Prop
  | separator (rest : Text) : MemberEnds (';' :: ' ' :: rest) (' ' :: rest)
  | last (rest : Text) : MemberEnds (' ' :: '\x7d' :: rest) (' ' :: '\x7d' :: rest)

def mappedStart : Parser Bool := do
  if (← eat .plus) || (← eat .minus) then return ← atWord .readonlyWord
  discard <| eatWord .readonlyWord
  expect .openBracket
  discard anyName
  atWord .inWord

/-- The text is read as a member of the shape, and where it begins neither the end of an object
type nor a mapped type is recognised. -/
structure ReadsMember (text : Text) (shape : MemberShape) : Prop where
  leads : ∀ {source after rest : Text} {cursor : Cursor} {spacing : Spacing},
    MemberEnds after rest → cursor.Faces source (spacing.text ++ (text ++ after)) →
      cursor.token.is .closeBrace = false
  notMapped : ∀ {source after rest : Text} {cursor : Cursor} {spacing : Spacing},
    MemberEnds after rest → cursor.Faces source (spacing.text ++ (text ++ after)) →
      Yields mappedStart (typedContext source) cursor fun found _ => found = false
  reads : ∀ {source after rest : Text} {cursor : Cursor} {spacing : Spacing} {depth : Nat},
    MemberEnds after rest → cursor.Before source (spacing.text ++ (text ++ after)) →
      8 * text.length ≤ depth →
        Reaches (bareMember (grammar depth)) (typedContext source) cursor fun build moved =>
          (build ⟨cursor.token.span.start, source.length - rest.length⟩).shape source = shape ∧
            moved.Before source after

theorem MemberEnds.stops {after rest : Text} (h : MemberEnds after rest) : Stops closers after := by
  cases h with
  | separator rest =>
      exact Stops.sign .semicolon (by decide) (by decide) (absurd · (by decide))
  | last rest => exact Stops.sign .closeBrace (by decide) (by decide) (absurd · (by decide))

theorem MemberEnds.reaches_endMember {source after rest : Text} {cursor : Cursor}
    {context : Context} (h : MemberEnds after rest) (hcursor : cursor.Before source after) :
    Reaches endMember context cursor fun _ moved => moved.Before source rest := by
  cases h with
  | separator rest =>
      have hstands := hcursor.faces.stands_tight (scans_sign .semicolon (absurd · (by decide)))
      have hcomma : cursor.token.is .comma = false := hstands.is_eq .comma
      have hsemicolon : cursor.token.is .semicolon = true := hstands.is_eq .semicolon
      simp only [endMember, reaches_bind, reaches_eat, hcomma, Bool.false_eq_true, ↓reduceIte,
        Bool.not_false, reaches_discard, hsemicolon]
      exact hcursor.advance hstands
  | last rest =>
      have hfaces : cursor.Faces source (Spacing.loose.text ++ '\x7d' :: rest) := hcursor.faces
      have hstands := hfaces.sign .closeBrace (absurd · (by decide))
      have hcomma : cursor.token.is .comma = false := hstands.is_eq .comma
      have hsemicolon : cursor.token.is .semicolon = false := hstands.is_eq .semicolon
      simp only [endMember, reaches_bind, reaches_eat, hcomma, Bool.false_eq_true, ↓reduceIte,
        Bool.not_false, reaches_discard, hsemicolon]
      exact hcursor

theorem ReadsMember.reaches_typeMember {text source after rest : Text} {shape : MemberShape}
    {cursor : Cursor} {spacing : Spacing} {depth : Nat} (h : ReadsMember text shape)
    (hends : MemberEnds after rest)
    (hcursor : cursor.Before source (spacing.text ++ (text ++ after)))
    (hdepth : 8 * text.length ≤ depth) :
    Reaches (typeMember (grammar depth)) (typedContext source) cursor fun member moved =>
      member.shape source = shape ∧ moved.Before source rest := by
  simp only [typeMember, reaches_bind, reaches_position]
  refine (h.reads hends hcursor hdepth).mono ?_
  rintro build moved ⟨hshape, hmoved⟩
  refine (hends.reaches_endMember hmoved).mono fun _ last hlast => ?_
  simp only [reaches_spanFrom, reaches_pure, hlast.faces.previousStop_eq]
  exact ⟨hshape, hlast⟩

variable {g : Grammar}

section Keys

variable {source after : Text} {cursor : Cursor} {context : Context} {word : Word}

def optionMark (optional : Bool) : Text :=
  if optional then "?" else []

def keyEnd (optional : Bool) (rest : Text) : Text :=
  optionMark optional ++ ':' :: (Spacing.loose.text ++ rest)

theorem endsName_keyEnd (optional : Bool) (rest : Text) : Text.EndsName (keyEnd optional rest) := by
  cases optional <;> (intro c hc; cases hc; decide)

def readonlyWord : Word where
  text := "readonly"
  isName := by decide

theorem readonlyWord_kind : readonlyWord.lexeme.kind = .name (some .readonlyWord) := by
  decide

theorem memberText_append (readonly : Bool) (name : Text) (optional : Bool) (type after : Text) :
    memberText readonly name optional type ++ after =
      (if readonly then readonlyWord.text ++ Spacing.loose.text else []) ++
        (name ++ keyEnd optional (type ++ after)) := by
  have hreadonly : ("readonly " : Text) = readonlyWord.text ++ Spacing.loose.text := rfl
  have hcolon : (": " : Text) = [':'] ++ Spacing.loose.text := rfl
  simp only [memberText, keyEnd, optionMark, hreadonly, hcolon, List.append_assoc,
    List.cons_append, List.nil_append]

theorem Cursor.Faces.keyEnd_kind {optional : Bool} {rest : Text}
    (h : cursor.Faces source (keyEnd optional rest)) :
    cursor.token.kind = .punctuator (if optional then .question else .colon) := by
  cases optional with
  | true =>
      have hmeets : ∀ c ∈ (':' :: (Spacing.loose.text ++ rest)).head?, c ∉ extenders := by
        intro c hc
        cases hc
        decide
      exact (h.stands_tight (scans_sign .question fun _ => hmeets)).kind_eq
  | false =>
      have hcolon : cursor.Faces source ([':'] ++ (Spacing.loose.text ++ rest)) := h
      exact (hcolon.stands_tight (scans_sign .colon (absurd · (by decide)))).kind_eq

theorem Cursor.Faces.keyEnd_is {optional : Bool} {rest : Text}
    (h : cursor.Faces source (keyEnd optional rest)) {mark : Punctuator}
    (hcolon : mark ≠ .colon) (hquestion : mark ≠ .question) : cursor.token.is mark = false := by
  rw [Token.is, h.keyEnd_kind]
  cases optional
  · simpa using hcolon.symm
  · simpa using hquestion.symm

theorem Cursor.Faces.keyEnd_modifies {optional : Bool} {rest : Text}
    (h : cursor.Faces source (keyEnd optional rest)) (word : Keyword) :
    modifies word cursor.token = false := by
  have hkind := h.keyEnd_kind
  have hfollows : followsModifier cursor.token = false := by
    cases optional <;> simp_all [followsModifier, startsKey, Token.is]
  have henum : cursor.token.isKeyword .enumWord = false := by
    simp [Token.isKeyword, hkind]
  cases word <;> simp [modifies, hfollows, henum]

theorem Cursor.Stands.word_is (h : cursor.Stands source word.lexeme after) (mark : Punctuator) :
    cursor.token.is mark = false :=
  h.is_eq mark

theorem propertyKey_apply (h : cursor.Stands source word.lexeme after) (g : Grammar)
    (context : Context) :
    propertyKey g context cursor = some (.static word.text, cursor.advance) := by
  simp only [propertyKey, bind_apply, token_apply, Option.bind_some, h.kind_eq, h.text_eq]
  rfl

theorem Cursor.Before.reaches_eat_question {optional : Bool} {rest : Text}
    (h : cursor.Before source (Script.keyEnd optional rest)) :
    Reaches (eat .question) context cursor fun found moved => found = optional ∧
      moved.Before source ([':'] ++ (Spacing.loose.text ++ rest)) := by
  have hkind := h.faces.keyEnd_kind
  simp only [reaches_eat, Token.is, hkind]
  cases optional with
  | true =>
      have hmeets : ∀ c ∈ (':' :: (Spacing.loose.text ++ rest)).head?, c ∉ extenders := by
        intro c hc
        cases hc
        decide
      exact ⟨rfl, h.advance (h.faces.stands_tight (scans_sign .question fun _ => hmeets))⟩
  | false => exact ⟨rfl, h⟩

theorem reaches_atModifier {post : Bool → Cursor → Prop} (word : Keyword) :
    Reaches (atModifier word) context cursor post ↔
      post (modifies word cursor.advance.token) cursor :=
  reaches_of_eq (atModifier_apply word context cursor)

theorem reaches_modifierItem_none (hmodifies : ∀ word, modifies word cursor.advance.token = false) :
    Reaches modifierItem context cursor fun item moved => item = none ∧ moved = cursor := by
  simp only [modifierItem, reaches_bind, reaches_token]
  split
  · simp [reaches_atModifier, hmodifies]
  · simp

theorem reaches_modifiers_nil (hmodifies : ∀ word, modifies word cursor.advance.token = false)
    {fuel : Nat} : Reaches (collectFrom modifierItem (fuel + 1)) context cursor
      fun words moved => words = [] ∧ moved = cursor := by
  refine Reaches.collectFrom ((reaches_modifierItem_none hmodifies).mono ?_)
  rintro _ _ ⟨rfl, rfl⟩
  exact ⟨rfl, rfl⟩

end Keys

/-! ## Properties -/

section Properties

variable {source after rest type : Text} {shape : TypeShape} {cursor : Cursor}
  {context : Context} {spacing : Spacing} {depth : Nat} {key : Word} {readonly optional : Bool}

theorem stands_memberText (h : cursor.Faces source
      (spacing.text ++ (memberText readonly key.text optional type ++ after))) :
    if readonly then
      cursor.Stands source readonlyWord.lexeme
          (Spacing.loose.text ++ (key.text ++ keyEnd optional (type ++ after))) ∧
        cursor.advance.Stands source key.lexeme (keyEnd optional (type ++ after))
    else cursor.Stands source key.lexeme (keyEnd optional (type ++ after)) := by
  rw [memberText_append] at h
  cases readonly with
  | true =>
      simp only [↓reduceIte, List.append_assoc] at h ⊢
      have hword := h.word (by intro c hc; cases hc; decide)
      exact ⟨hword, hword.next.word (endsName_keyEnd _ _)⟩
  | false => exact h.word (endsName_keyEnd _ _)

theorem is_memberText (h : cursor.Faces source
      (spacing.text ++ (memberText readonly key.text optional type ++ after))) :
    (∀ mark, cursor.token.is mark = false) ∧
      cursor.advance.token.is .openParen = false ∧ cursor.advance.token.is .less = false := by
  have hstands := stands_memberText h
  cases readonly with
  | true => exact ⟨hstands.1.word_is, hstands.2.word_is _, hstands.2.word_is _⟩
  | false =>
      exact ⟨hstands.word_is, hstands.next.keyEnd_is (by decide) (by decide),
        hstands.next.keyEnd_is (by decide) (by decide)⟩

theorem reaches_memberModifiers (h : cursor.Before source
      (spacing.text ++ (memberText readonly key.text optional type ++ after))) :
    Reaches modifiers (typedContext source) cursor fun words moved =>
      words = (if readonly then [.readonlyWord] else []) ∧ moved.Sound ∧
        moved.Stands source key.lexeme (keyEnd optional (type ++ after)) := by
  have hstands := stands_memberText h.faces
  rw [modifiers, reaches_collect, typedContext_itemBound]
  cases readonly with
  | true =>
      obtain ⟨hword, hkey⟩ := hstands
      have hkind : cursor.token.kind = .name (some .readonlyWord) :=
        hword.kind_eq.trans readonlyWord_kind
      have hescaped : cursor.token.escaped = false := hword.escaped_eq
      have hmodifies : modifies .readonlyWord cursor.advance.token = true := by
        have hstarts : startsKey cursor.advance.token = true := by
          rw [startsKey, hkey.kind_eq]
          rfl
        simp [modifies, followsModifier, hstarts, hkey.onNewLine_eq]
      have hitem : Reaches modifierItem (typedContext source) cursor fun item moved =>
          item = some .readonlyWord ∧ moved = cursor.advance := by
        simp [modifierItem, hkind, hescaped, reaches_atModifier, hmodifies, isModifier]
      refine Reaches.collectFrom (hitem.mono ?_)
      rintro _ _ ⟨rfl, rfl⟩
      refine (reaches_modifiers_nil hkey.next.keyEnd_modifies).mono ?_
      rintro _ _ ⟨rfl, rfl⟩
      exact ⟨rfl, h.sound.advance, hkey⟩
  | false =>
      have hkey : cursor.Stands source key.lexeme (keyEnd optional (type ++ after)) := hstands
      refine (reaches_modifiers_nil hkey.next.keyEnd_modifies).mono ?_
      rintro _ _ ⟨rfl, rfl⟩
      exact ⟨rfl, h.sound, hkey⟩

theorem reaches_declaredType? (htype : ReadsType type shape)
    (hstops : Stops closers after)
    (hcursor : cursor.Before source ([':'] ++ (Spacing.loose.text ++ (type ++ after))))
    (hdepth : 8 * type.length ≤ depth) :
    Reaches (declaredType? (grammar depth)) (typedContext source) cursor fun declared moved =>
      TypeNode.shape? source declared = some shape ∧ moved.Before source after := by
  have hcolon := hcursor.faces.stands_tight (scans_sign .colon (absurd · (by decide)))
  have his : cursor.token.is .colon = true := hcolon.is_eq .colon
  simp only [declaredType?, reaches_bind, reaches_atMark, his, ↓reduceIte, reaches_needsTypes,
    typedContext_typed, Bool.not_true, Cursor.flawIf_false, reaches_advance]
  refine (htype.reads hstops (hcursor.advance hcolon) (by omega)).mono ?_
  rintro node final ⟨hshape, hfinal⟩
  simp only [reaches_pure]
  exact ⟨by rw [TypeNode.shape?, hshape], hfinal⟩

theorem reaches_keyedMember (htype : ReadsType type shape) (hstops : Stops closers after)
    (hsound : cursor.Sound)
    (hkey : cursor.Stands source key.lexeme (keyEnd optional (type ++ after)))
    (hdepth : 8 * type.length ≤ depth) :
    Reaches (keyedMember (grammar depth) readonly) (typedContext source) cursor
      fun build moved =>
        (∀ span, (build span).shape source = .property readonly key.text optional shape) ∧
          moved.Before source after := by
  have hread := propertyKey_apply hkey (grammar depth) (typedContext source)
  simp only [keyedMember, reaches_bind, reaches_of_eq hread]
  have hend : cursor.advance.Before source (keyEnd optional (type ++ after)) :=
    ⟨hkey.next, hsound.advance⟩
  refine hend.reaches_eat_question.mono ?_
  rintro _ moved ⟨rfl, hmoved⟩
  have hcolon := hmoved.faces.stands_tight (scans_sign .colon (absurd · (by decide)))
  have hparen : moved.token.is .openParen = false := hcolon.is_eq .openParen
  have hless : moved.token.is .less = false := hcolon.is_eq .less
  simp only [reaches_bind, reaches_atMark, hparen, hless, Bool.or_self, Bool.false_eq_true,
    ↓reduceIte]
  refine (reaches_declaredType? htype hstops hmoved hdepth).mono ?_
  rintro declared final ⟨hshape, hfinal⟩
  rw [reaches_pure]
  exact ⟨fun span => by simp [Member.shape, hshape], hfinal⟩

theorem reaches_bareMember (htype : ReadsType type shape) (hstops : Stops closers after)
    (hcursor : cursor.Before source
      (spacing.text ++ (memberText readonly key.text optional type ++ after)))
    (hdepth : 8 * type.length ≤ depth) :
    Reaches (bareMember (grammar depth)) (typedContext source) cursor
      fun build moved =>
        (∀ span, (build span).shape source = .property readonly key.text optional shape) ∧
          moved.Before source after := by
  obtain ⟨hmark, hparen, hless⟩ := is_memberText hcursor.faces
  simp only [bareMember, reaches_bind, reaches_atMark, hmark, Bool.or_self, Bool.false_eq_true,
    ↓reduceIte, reaches_nextToken, reaches_atWord, hparen, hless, Bool.and_false]
  refine (reaches_memberModifiers hcursor).mono ?_
  rintro words moved ⟨rfl, hsound, hkey⟩
  have hwords : (if readonly then [Keyword.readonlyWord] else []).any (· != .readonlyWord) =
      false := by
    cases readonly <;> rfl
  have hreadonly : (!(if readonly then [Keyword.readonlyWord] else []).isEmpty) = readonly := by
    cases readonly <;> rfl
  have hmodifies := hkey.next.keyEnd_modifies
  have hbracket : moved.token.is .openBracket = false := hkey.word_is _
  simp only [hwords, reaches_flawIf, Cursor.flawIf_false, eatModifier, reaches_bind,
    reaches_atWord, reaches_atModifier, hmodifies, Bool.and_false, Bool.false_eq_true, ↓reduceIte,
    reaches_pure, atIndexSignature, reaches_atMark, hbracket, Bool.not_false]
  rw [hreadonly]
  exact reaches_keyedMember htype hstops hsound hkey hdepth

theorem yields_mappedStart (hcursor : cursor.Faces source
      (spacing.text ++ (memberText readonly key.text optional type ++ after))) :
    Yields mappedStart context cursor fun found _ => found = false := by
  have hstands := stands_memberText hcursor
  have hmark := (is_memberText hcursor).1
  have hnext : cursor.advance.token.is .openBracket = false := by
    cases readonly with
    | true => exact hstands.2.word_is _
    | false =>
        have hkey : cursor.Stands source key.lexeme (keyEnd optional (type ++ after)) := hstands
        exact hkey.next.keyEnd_is (by decide) (by decide)
  simp only [mappedStart, yields_bind, yields_eat, hmark, Bool.false_eq_true, ↓reduceIte,
    Bool.or_self, yields_discard, yields_eatWord, yields_expect, hnext, false_imp_iff, ite_self]

theorem ReadsMember.property (key : Word) (readonly optional : Bool)
    (htype : ReadsType type shape) :
    ReadsMember (memberText readonly key.text optional type)
      (.property readonly key.text optional shape) where
  leads _ hcursor := (is_memberText hcursor).1 _
  notMapped _ hcursor := yields_mappedStart hcursor
  reads hends hcursor hdepth := by
    have hlength := congrArg List.length (memberText_append readonly key.text optional type [])
    simp only [keyEnd, List.append_nil, List.length_append, List.length_cons] at hlength
    refine (reaches_bareMember htype hends.stops hcursor (by omega)).mono ?_
    exact fun build moved hread => ⟨hread.1 _, hread.2⟩

end Properties

/-! ## Object types -/

section Objects

variable {source after : Text} {cursor : Cursor} {context : Context} {depth : Nat}

def membersFrom (after : Text) : List (Text × MemberShape) → Text
  | [] => ' ' :: '\x7d' :: after
  | [last] => ' ' :: (last.1 ++ ' ' :: '\x7d' :: after)
  | first :: others => ' ' :: (first.1 ++ ';' :: membersFrom after others)

def memberEnd (after : Text) (others : List (Text × MemberShape)) : Text :=
  if others.isEmpty then membersFrom after [] else ';' :: membersFrom after others

theorem membersFrom_cons (first : Text × MemberShape) (others : List (Text × MemberShape)) :
    membersFrom after (first :: others) =
      Spacing.loose.text ++ (first.1 ++ memberEnd after others) := by
  cases others <;> rfl

theorem exists_membersFrom (after : Text) (others : List (Text × MemberShape)) :
    ∃ rest, membersFrom after others = ' ' :: rest := by
  cases others with
  | nil => exact ⟨_, rfl⟩
  | cons first others => exact ⟨_, membersFrom_cons first others⟩

theorem memberEnds (others : List (Text × MemberShape)) :
    MemberEnds (memberEnd after others) (membersFrom after others) := by
  cases others with
  | nil => exact .last after
  | cons first others =>
      obtain ⟨rest, hrest⟩ := exists_membersFrom after (first :: others)
      rw [memberEnd, List.isEmpty_cons, if_neg Bool.false_ne_true, hrest]
      exact .separator rest

def objectBody (after : Text) (members : List (Text × MemberShape)) : Text :=
  if members.isEmpty then '\x7d' :: after else membersFrom after members

theorem join_members_append (first : Text × MemberShape) (others : List (Text × MemberShape)) :
    ' ' :: (Text.join "; " ((first :: others).map Prod.fst) ++ ' ' :: '\x7d' :: after) =
      membersFrom after (first :: others) := by
  induction others generalizing first with
  | nil => rfl
  | cons second others ih =>
      have hseparator : ("; " : Text) = [';', ' '] := rfl
      rw [membersFrom_cons, memberEnd, List.isEmpty_cons, if_neg Bool.false_ne_true, ← ih]
      simp [Text.join, hseparator]

theorem bracedMembers_append (members : List (Text × MemberShape)) (after : Text) :
    bracedMembers (members.map Prod.fst) ++ after = '\x7b' :: objectBody after members := by
  cases members with
  | nil => rfl
  | cons first others =>
      have hopen : ("\x7b " : Text) = ['\x7b', ' '] := rfl
      have hclose : (" \x7d" : Text) = [' ', '\x7d'] := rfl
      rw [objectBody, List.isEmpty_cons, if_neg Bool.false_ne_true, ← join_members_append]
      simp [bracedMembers, hopen, hclose]

def memberItem (g : Grammar) : Parser (Option Member) := do
  if ← atMark .closeBrace then return none
  return some (← typeMember g)

theorem reaches_memberItem_none {spacing : Spacing}
    (h : cursor.Faces source (spacing.text ++ '\x7d' :: after)) :
    Reaches (memberItem g) context cursor fun item moved => item = none ∧ moved = cursor := by
  have hclose : cursor.token.is .closeBrace = true :=
    (h.sign .closeBrace (absurd · (by decide))).is_eq .closeBrace
  simp [memberItem, hclose]

theorem reaches_membersFrom (members : List (Text × MemberShape))
    (h : ∀ member ∈ members, ReadsMember member.1 member.2)
    (hcursor : cursor.Before source (membersFrom after members))
    (hdepth : ∀ member ∈ members, 8 * member.1.length ≤ depth) {fuel : Nat}
    (hfuel : members.length < fuel) :
    Reaches (collectFrom (memberItem (grammar depth)) fuel) (typedContext source) cursor
      fun read moved => Member.shapes source read = members.map Prod.snd ∧
        moved.Before source (Spacing.loose.text ++ '\x7d' :: after) := by
  induction members generalizing cursor fuel with
  | nil =>
      obtain ⟨fuel, rfl⟩ : ∃ smaller, fuel = smaller + 1 := ⟨fuel - 1, by omega⟩
      have hend : cursor.Before source (Spacing.loose.text ++ '\x7d' :: after) := hcursor
      refine Reaches.collectFrom ((reaches_memberItem_none hend.faces).mono ?_)
      rintro _ _ ⟨rfl, rfl⟩
      exact ⟨rfl, hend⟩
  | cons first others ih =>
      obtain ⟨fuel, rfl⟩ : ∃ smaller, fuel = smaller + 1 := ⟨fuel - 1, by omega⟩
      rw [List.forall_mem_cons] at h hdepth
      rw [List.length_cons] at hfuel
      rw [membersFrom_cons] at hcursor
      have hno := h.1.leads (memberEnds others) hcursor.faces
      refine Reaches.collectFrom ?_
      simp only [memberItem, reaches_bind, reaches_atMark, hno, Bool.false_eq_true, ↓reduceIte]
      refine (h.1.reaches_typeMember (memberEnds others) hcursor hdepth.1).mono ?_
      rintro member moved ⟨hshape, hmoved⟩
      simp only [reaches_pure]
      refine (ih h.2 hmoved hdepth.2 (by omega)).mono ?_
      rintro read final ⟨hshapes, hfinal⟩
      exact ⟨by rw [Member.shapes, hshape, hshapes, List.map_cons], hfinal⟩

theorem length_le_membersFrom (after : Text) (members : List (Text × MemberShape)) :
    members.length ≤ (membersFrom after members).length := by
  induction members with
  | nil => exact Nat.zero_le _
  | cons first others ih =>
      rw [membersFrom_cons, memberEnd]
      cases others with
      | nil => simp
      | cons second others =>
          simp only [List.isEmpty_cons, Bool.false_eq_true, ↓reduceIte, List.length_append,
            List.length_cons, Spacing.text_loose, List.length_nil] at ih ⊢
          omega

variable {members : List (Text × MemberShape)}

theorem length_le_of_mem (after : Text) {member : Text × MemberShape}
    (h : member ∈ members) : member.1.length ≤ (membersFrom after members).length := by
  induction members with
  | nil => contradiction
  | cons first others ih =>
      rw [membersFrom_cons, List.length_append, List.length_append]
      rcases List.mem_cons.mp h with rfl | hmem
      · omega
      · have hothers := ih hmem
        have hend : (membersFrom after others).length ≤ (memberEnd after others).length := by
          unfold memberEnd
          split
          · next hempty =>
              obtain rfl := List.isEmpty_iff.mp hempty
              exact Nat.le_refl _
          · exact Nat.le_succ _
        omega

theorem typeMembers_eq (g : Grammar) : typeMembers g = do
    expect .openBrace
    let members ← collect (memberItem g)
    expect .closeBrace
    return members :=
  rfl

theorem reaches_typeMembers {spacing : Spacing}
    (h : ∀ member ∈ members, ReadsMember member.1 member.2)
    (hcursor : cursor.Before source (spacing.text ++ '\x7b' :: objectBody after members))
    (hdepth : ∀ member ∈ members, 8 * member.1.length ≤ depth) :
    Reaches (typeMembers (grammar depth)) (typedContext source) cursor fun read moved =>
      Member.shapes source read = members.map Prod.snd ∧ moved.Before source after := by
  have hopen := hcursor.faces.sign .openBrace (absurd · (by decide))
  have hbody := hcursor.advance hopen
  have hcollect : Reaches (collect (memberItem (grammar depth))) (typedContext source)
      cursor.advance fun read moved => Member.shapes source read = members.map Prod.snd ∧
        ∃ spacing : Spacing, moved.Before source (spacing.text ++ '\x7d' :: after) := by
    rw [reaches_collect, typedContext_itemBound]
    unfold objectBody at hbody
    split at hbody
    · next hempty =>
        have hend : cursor.advance.Before source (Spacing.tight.text ++ '\x7d' :: after) := hbody
        refine Reaches.collectFrom ((reaches_memberItem_none hend.faces).mono ?_)
        rintro _ _ ⟨rfl, rfl⟩
        exact ⟨by rw [List.isEmpty_iff.mp hempty]; rfl, .tight, hend⟩
    · have hcount := length_le_membersFrom after members
      have hbound := hbody.length_le
      refine (reaches_membersFrom members h hbody hdepth (by omega)).mono ?_
      exact fun read moved hmoved => ⟨hmoved.1, .loose, hmoved.2⟩
  simp only [typeMembers_eq, reaches_bind, reaches_expect (hopen.is_eq .openBrace)]
  refine hcollect.mono ?_
  rintro read moved ⟨hshapes, spacing, hmoved⟩
  have hclose := hmoved.faces.sign .closeBrace (absurd · (by decide))
  simp only [reaches_expect (hclose.is_eq .closeBrace), reaches_pure]
  exact ⟨hshapes, hmoved.advance hclose⟩

theorem reaches_atMappedType {spacing : Spacing}
    (h : ∀ member ∈ members, ReadsMember member.1 member.2)
    (hcursor : cursor.Faces source (spacing.text ++ '\x7b' :: objectBody after members)) :
    Reaches atMappedType (typedContext source) cursor fun found moved =>
      found = false ∧ moved = cursor := by
  have hopen := hcursor.sign .openBrace (absurd · (by decide))
  have hstart : Yields mappedStart (typedContext source) cursor.advance
      fun found _ => found = false := by
    have hbody := hopen.next
    cases members with
    | nil =>
        have hclose := hbody.stands_tight (scans_sign .closeBrace (absurd · (by decide)))
        have hkind : cursor.advance.token.kind = .punctuator .closeBrace := hclose.kind_eq
        simp [mappedStart, Token.is, Token.isKeyword, hkind]
    | cons first others =>
        rw [objectBody, List.isEmpty_cons, if_neg Bool.false_ne_true, membersFrom_cons] at hbody
        exact (h first List.mem_cons_self).notMapped (memberEnds others) hbody
  refine Reaches.isAhead_false ?_ ⟨rfl, rfl⟩
  rw [yields_bind, yields_expect]
  exact fun _ => hstart

theorem stands_object {spacing : Spacing} (h : cursor.Faces source
      (spacing.text ++ (bracedMembers (members.map Prod.fst) ++ after))) :
    cursor.token.kind = .punctuator .openBrace := by
  rw [bracedMembers_append] at h
  exact (h.sign .openBrace (absurd · (by decide))).kind_eq

theorem ReadsUnit.object (h : ∀ member ∈ members, ReadsMember member.1 member.2) :
    ReadsUnit (bracedMembers (members.map Prod.fst)) (.object (members.map Prod.snd)) := by
  have hlength := congrArg List.length (bracedMembers_append members [])
  rw [List.append_nil, List.length_cons] at hlength
  refine ReadsUnit.of_simpleType ⟨by omega, fun _ hcursor => ?_⟩ ?_ ?_
  · exact yields_predicateSubject_mark (stands_object hcursor)
  · intro source after cursor spacing hstops hcursor
    have hkind := stands_object hcursor
    refine ⟨⟨fun depth => ?_, by simp [Token.is, hkind], by simp [Token.is, hkind]⟩, ?_⟩
    · simp [atFunctionType, Token.is, Token.isKeyword, hkind]
    · rw [hkind]
      rfl
  · intro source after cursor spacing depth hstops hcursor hdepth
    have hkind := stands_object hcursor.faces
    rw [bracedMembers_append] at hcursor
    simp only [simpleType, reaches_bind, reaches_token, hkind]
    refine (reaches_atMappedType h hcursor.faces).mono ?_
    rintro _ _ ⟨rfl, rfl⟩
    simp only [Bool.false_eq_true, ↓reduceIte, reaches_bind]
    have hmembers : ∀ member ∈ members, 8 * member.1.length ≤ depth := by
      intro member hmem
      have hmember := length_le_of_mem [] hmem
      rw [objectBody, if_neg (by simpa using List.ne_nil_of_mem hmem)] at hlength
      omega
    refine (reaches_typeMembers h hcursor hmembers).mono ?_
    rintro read moved ⟨hshapes, hmoved⟩
    simp only [reaches_pure]
    exact ⟨by rw [TypeNode.shape, hshapes], hmoved⟩

end Objects

end ComponentDocs.Script
