import ComponentDocs.Proofs.Props.Bindings

/-!
# The tree of a props script

A props script that is accepted has two statements, and the interface that is read off them
is the one that the script declares.
-/

namespace ComponentDocs.Props

open ComponentDocs.Script
open ComponentDocs.Script.Parser

variable {source : Text} {context : Context} {cursor : Cursor} {g : Grammar}

theorem ofText_interface : Keyword.ofText? interfaceName.text = some .interfaceWord := by
  decide

theorem ofText_props : Keyword.ofText? propsName.text = none := by decide

variable {pieces : List Piece} {keyword : Keyword} {program : Program}

theorem yields_decorators {post : Unit → Cursor → Prop} (h : cursor.At source pieces)
    (hpost : post () cursor) :
    Yields (decorators g) context cursor post := by
  have hat : cursor.token.is .atSign = false := h.is_eq_false (by decide)
  rw [decorators, yields_discard]
  refine Yields.collect ?_
  simpa [hat] using hpost

theorem yields_atTypedDeclaration {post : Bool → Cursor → Prop}
    (hkind : cursor.token.kind = .name (some .interfaceWord))
    (hnext : isPlainName cursor.advance.token = true)
    (hline : cursor.advance.token.onNewLine = false)
    (htyped : context.typed = true) (hbound : 0 < context.itemBound) (hpost : post true cursor) :
    Yields atTypedDeclaration context cursor post := by
  have hmodifiers : modifiers context cursor = some ([], cursor) :=
    modifiers_apply_nil (by simp [hkind, isModifier]) hbound
  simp only [atTypedDeclaration, yields_bind, yields_read, htyped, Bool.not_true,
    Bool.false_eq_true, ↓reduceIte]
  refine Yields.isAhead_true cursor ?_ hpost
  simp only [bind_apply, hmodifiers, token_apply, nextToken_apply, Option.bind_some, hkind, hnext,
    hline, pure_apply]
  rfl

theorem yields_declaration {post : Form → Cursor → Prop} (h : cursor.At source pieces)
    (hkind : cursor.token.kind = .name (some keyword)) (hkeyword : isModifier keyword = false)
    (hbound : 0 < context.itemBound) (hform : Yields (declarationForm g []) context cursor post) :
    Yields (declaration g) context cursor fun result moved => post result.1 moved := by
  simp only [declaration, yields_bind, yields_position]
  refine yields_decorators h ?_
  rw [yields_of_eq (modifiers_apply_nil (by simp [hkind, hkeyword]) hbound)]
  simp only [yields_read, yields_flawIf, List.contains_nil, Bool.false_and, Cursor.flawIf_false,
    Bool.or_false, yields_withReader, yields_spanFrom, yields_pure]
  exact hform

theorem yields_statement {piece : Piece} {rest : List Piece} {post : Form → Cursor → Prop}
    (h : cursor.At source (piece :: rest)) (hkind : cursor.token.kind = .name (some keyword))
    (hkeyword : keyword = .interfaceWord ∨ keyword = .letWord) (hbound : 0 < context.itemBound)
    (hdeclaration : Yields (atDeclaration keyword) context cursor fun value moved =>
      value = true ∧ moved = cursor)
    (hform : ∀ depth, Yields (declarationForm (grammar depth) []) context cursor post)
    (depth : Nat) :
    Yields (grammar depth).statement context cursor fun statement moved =>
      statement.exported = false ∧ post statement.form moved := by
  cases depth with
  | zero => exact yields_failure
  | succ depth =>
      have hword : isModifier keyword = false ∧ governedBy? (grammar depth) keyword = none ∧
          keyword ≠ .exportWord ∧ keyword ≠ .importWord := by
        rcases hkeyword with rfl | rfl <;> exact ⟨rfl, rfl, nofun, nofun⟩
      obtain ⟨hmodifier, hgoverned, hexport, himport⟩ := hword
      change Yields (Parser.statement (grammar depth)) context cursor _
      simp only [Parser.statement, yields_bind, yields_position, yields_token, hkind,
        yields_nextToken, h.escaped_eq, Bool.false_eq_true, ↓reduceIte, hgoverned, beq_iff_eq,
        hexport, himport, Bool.and_eq_true, false_and]
      refine hdeclaration.mono fun value moved hvalue => ?_
      obtain ⟨rfl, rfl⟩ := hvalue
      simp only [↓reduceIte, declarationStatement, yields_bind, yields_position, yields_pure]
      exact (yields_declaration h hkind hmodifier hbound (hform depth)).mono
        fun result final hresult => ⟨trivial, hresult⟩

def ReadsProps (source : Text) (members : List Member) (form : Form) : Prop :=
  ∃ name nodes, form = .struct name true nodes ∧ name.text = propsName.text ∧
    List.Forall₂ (ReadsMember source) members nodes

def ReadsBindings (source : Text) (bindings : List Binding) (form : Form) : Prop :=
  ∃ declarator, form = .bindings true [declarator] ∧ ReadsDeclarator source bindings declarator

theorem yields_statement_interface (script : Script) (htyped : context.typed = true)
    (hbound : 0 < context.itemBound) (h : cursor.At source script.pieces) (depth : Nat) :
    Yields (grammar depth).statement context cursor fun statement moved =>
      statement.exported = false ∧ moved.At source script.bindingPieces ∧
        ReadsProps source script.members statement.form := by
  have hkind : cursor.token.kind = .name (some .interfaceWord) :=
    h.kind_eq.trans (congrArg TokenKind.name ofText_interface)
  have hnext : isPlainName cursor.advance.token = true := by
    simp [isPlainName, h.advance.kind_eq, ofText_props]
  have hline : cursor.advance.token.onNewLine = false := h.advance.onNewLine_eq
  have hfunction : ∀ keyword, keyword ≠ .interfaceWord →
      cursor.token.isKeyword keyword = false := by
    intro keyword hkeyword
    simpa [Token.isKeyword, hkind] using fun heq => absurd heq.symm hkeyword
  have hform : ∀ depth, Yields (declarationForm (grammar depth) []) context cursor
      fun form moved => moved.At source script.bindingPieces ∧
        ReadsProps source script.members form := by
    intro depth
    simp only [declarationForm, yields_bind, yields_token, hkind, yields_needsTypes, yields_flawIf,
      List.any_nil, Cursor.flawIf_false]
    exact yields_interfaceDeclaration script.members (h.flawIf _) depth
  refine yields_statement h hkind (.inl rfl) hbound ?_ hform depth
  simp only [atDeclaration, yields_bind, yields_nextToken, atFunction, yields_atWord,
    hfunction .functionWord (by decide), hfunction .asyncWord (by decide), Bool.false_eq_true,
    ↓reduceIte, Bool.false_and, yields_pure, Bool.false_or]
  exact yields_atTypedDeclaration hkind hnext hline htyped hbound ⟨rfl, rfl⟩

theorem yields_statement_let (script : Script) (hbound : 0 < context.itemBound)
    (h : cursor.At source script.bindingPieces) (depth : Nat) :
    Yields (grammar depth).statement context cursor fun statement moved =>
      statement.exported = false ∧ moved.At source [] ∧
        ReadsBindings source script.bindings statement.form := by
  have hkind : cursor.token.kind = .name (some .letWord) :=
    h.kind_eq.trans (congrArg TokenKind.name ofText_let)
  have hnext : letIsName cursor.advance.token = false := by
    simp [letIsName, isCompoundAssignment, precedence?, h.advance.is_eq, h.advance.kind_eq,
      Sign.mark]
  have hform : ∀ depth, Yields (declarationForm (grammar depth) []) context cursor
      fun form moved => moved.At source [] ∧ ReadsBindings source script.bindings form := by
    intro depth
    simp only [declarationForm, yields_bind, yields_token, hkind, yields_flawIf,
      List.any_nil, Cursor.flawIf_false]
    exact yields_variableDeclaration script.bindings h depth
  refine yields_statement h hkind (.inr rfl) hbound ?_ hform depth
  simp only [atDeclaration, yields_bind, yields_nextToken, hnext, yields_pure, Bool.not_false,
    and_self]

def ReadsScript (source : Text) (script : Script) (statements : List Statement) : Prop :=
  ∃ first second, statements = [first, second] ∧ second.exported = false ∧
    ReadsProps source script.members first.form ∧
    ReadsBindings source script.bindings second.form

theorem yields_directives {piece : Piece} {post : Unit → Cursor → Prop}
    (h : cursor.At source (piece :: pieces)) (hkind : piece.body.lexeme.kind ≠ .string)
    (hpost : post () cursor) : Yields (directives g) context cursor post := by
  have hstring : (cursor.token.kind == .string) = false := by simpa [h.kind_eq] using hkind
  have hahead : Yields (isAhead (directive g)) context cursor fun _ moved => moved = cursor := by
    simp only [isAhead, bind_pure_comp, yields_map]
    exact Yields.ahead (fun _ => True) (fun _ _ _ => trivial) fun _ _ => rfl
  rw [directives, yields_discard]
  refine Yields.collect ?_
  simp only [yields_bind, yields_token, hstring, Bool.false_and, Bool.false_eq_true, ↓reduceIte,
    yields_pure]
  refine hahead.mono fun _ moved hmoved => ?_
  rw [hmoved]
  exact hpost

theorem yields_script (script : Script) (htyped : context.typed = true)
    (hbound : 0 < context.itemBound) (h : cursor.At source script.pieces) (depth : Nat) :
    Yields (Parser.script (grammar depth)) context cursor fun statements moved =>
      moved.docs = [] ∧ ReadsScript source script statements := by
  have hmore : ∀ {cursor : Cursor} {piece : Piece} {rest : List Piece},
      cursor.At source (piece :: rest) → (cursor.token.kind == .endOfSource) = false := by
    intro cursor piece rest h
    obtain ⟨gap, body⟩ := piece
    cases body <;> simp [h.kind_eq]
  rw [Parser.script, yields_bind]
  refine yields_directives h nofun ?_
  refine Yields.collect ?_
  simp only [yields_bind, yields_token, hmore h, Bool.false_eq_true, ↓reduceIte, yields_pure]
  refine (yields_statement_interface script htyped hbound h depth).mono
    fun first moved hfirst fuel => ?_
  obtain ⟨-, hmoved, hprops⟩ := hfirst
  refine Yields.collectFrom ?_ fuel
  simp only [yields_bind, yields_token, hmore hmoved, Bool.false_eq_true, ↓reduceIte, yields_pure]
  refine (yields_statement_let script hbound hmoved depth).mono
    fun second last hsecond fuel => ?_
  obtain ⟨hexported, hlast, hbindings⟩ := hsecond
  have hend : (last.token.kind == .endOfSource) = true := by
    rw [hlast.token_eq]
    rfl
  refine Yields.collectFrom ?_ fuel
  simp only [yields_bind, yields_token, hend, ↓reduceIte, yields_pure]
  exact ⟨hlast.docs_eq, first, second, rfl, hexported, hprops, hbindings⟩

theorem Script.start_at (script : Script) :
    (Cursor.start script.text).At script.text script.pieces := by
  rw [← script.written_pieces]
  exact Cursor.At.start script.lexes_pieces rfl

theorem Script.readsScript_of_parse? (script : Script)
    (h : parse? Language.ofComponents script.text = some program) :
    program.docs = [] ∧ ReadsScript script.text script program.statements := by
  simp only [parse?] at h
  split at h
  · next statements cursor hreader =>
      split at h
      · cases h
      · cases h
        exact yields_script script rfl (Nat.succ_pos _) script.start_at _ statements cursor hreader
  · cases h

open ComponentDocs.Component (ScriptApi Walk)

theorem addMember_eq (hdocs : program.docs = []) {member : Member} {node : Script.Member}
    (h : ReadsMember source member node) (api : ScriptApi) :
    Component.addMember {} source program api node = member.declare api := by
  have hsummary : program.summaryAt node.span.start = none := by
    simp [Program.summaryAt, Program.commentAt, Program.docAt, hdocs]
  simp only [Component.addMember, Member.declare]
  rw [h]
  dsimp only
  cases Component.eventName? "on" member.name.text with
  | none =>
      dsimp only
      rw [hsummary]
  | some event =>
      dsimp only
      rw [hsummary]

theorem addBinding_eq {binding : Binding} {property : BindingProperty}
    (h : ReadsBinding source binding property) (api : ScriptApi) :
    Component.addBinding {} source api property = binding.declare api := by
  simp only [Component.addBinding, h.1, h.2, Key.name?, Binding.declare]

theorem addStatement_props {statement : Statement} {members : List Member}
    (hdocs : program.docs = []) (h : ReadsProps source members statement.form) :
    Walk.addStatement {} source program {} statement =
      { api := members.foldl Member.declare {}, propsFound := true } := by
  obtain ⟨name, nodes, hform, hname, hnodes⟩ := h
  have hmembers : members.foldl Member.declare {} =
      nodes.foldl (Component.addMember {} source program) {} := by
    refine List.rel_foldl (P := Eq) ?_ rfl hnodes
    rintro api _ rfl member node hread
    exact (addMember_eq hdocs hread api).symm
  have hprops : (name.text == ({} : Options).propsTypeName) = true := by
    rw [hname]
    exact beq_self_eq_true _
  rw [Walk.addStatement, hform, hmembers]
  exact if_pos (by rw [hprops]; rfl)

theorem addStatement_bindings (program : Program) {statement : Statement}
    {bindings : List Binding} (hexported : statement.exported = false)
    (h : ReadsBindings source bindings statement.form) (walk : Walk) :
    ∃ properties, List.Forall₂ (ReadsBinding source) bindings properties ∧
      Walk.addStatement {} source program walk statement =
        { walk with destructured := walk.destructured ++ [properties] } := by
  obtain ⟨declarator, hform, ⟨properties, hobject, hproperties⟩, inner, outer, hinit⟩ := h
  have hrune : Component.isRuneCall ({} : Options).propsRune declarator = true := by
    rw [Component.isRuneCall, hinit]
    exact beq_self_eq_true _
  refine ⟨properties, hproperties, ?_⟩
  rw [Walk.addStatement, hform]
  simp only [List.foldl_cons, List.foldl_nil, Walk.addRune, hrune, hobject, hexported,
    Bool.false_and, Bool.false_eq_true, ↓reduceIte]

theorem Script.ofTree_eq (script : Script)
    (h : parse? Language.ofComponents script.text = some program) :
    ScriptApi.ofTree {} script.text program = script.api := by
  obtain ⟨hdocs, first, second, hstatements, hexported, hprops, hbindings⟩ :=
    script.readsScript_of_parse? h
  obtain ⟨properties, hproperties, hsecond⟩ :=
    addStatement_bindings program hexported hbindings _
  have hdestructured : ∀ api, script.bindings.foldl Binding.declare api =
      properties.foldl (Component.addBinding {} script.text) api := by
    refine fun api => List.rel_foldl (P := Eq) ?_ rfl hproperties
    rintro api _ rfl binding property hread
    exact (addBinding_eq hread api).symm
  rw [ScriptApi.ofTree, hstatements, List.foldl_cons, List.foldl_cons, List.foldl_nil,
    addStatement_props hdocs hprops, hsecond, Script.api, hdestructured]
  rfl

end ComponentDocs.Props
