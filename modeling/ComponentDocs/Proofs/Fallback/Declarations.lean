import ComponentDocs.Proofs.Fallback.Comments

/-!
# Declarations that are recovered from their text

A script that declares the type of the properties and nothing else gives one parameter or
event for each member.  Comments before the members change nothing but the descriptions.
-/

namespace ComponentDocs.Fallback

open ComponentDocs.Component

structure Line where
  comment : Option (Comment × Separator)
  member : Member

def Line.text (line : Line) : Text :=
  match line.comment with
  | none => line.member.text
  | some (comment, separator) => comment.written ++ (separator.text ++ line.member.text)

def Line.description (line : Line) : Option Text :=
  line.comment.map fun (comment, _) => comment.text

def Line.uncommented (line : Line) : Line :=
  { line with comment := none }

/-- A declaration of the type of the properties.  Nothing has to separate the last member from
the closing brace. -/
structure Declaration where
  head : Text
  isHead : head = "interface Props \x7b" ∨ head = "type Props = \x7b"
  opening : Gap
  separated : List (Line × Separator)
  last : Option Line
  closing : Gap

namespace Declaration

variable (declaration : Declaration)

def lines : List Line :=
  declaration.separated.map (·.1) ++ declaration.last.toList

def ending : Text :=
  (declaration.last.map Line.text).getD [] ++ declaration.closing.text

def separatedText (separated : List (Line × Separator)) : Text :=
  separated.flatMap fun (line, separator) => line.text ++ separator.text

def body : Text :=
  declaration.opening.text ++ (separatedText declaration.separated ++ declaration.ending)

def text : Text :=
  declaration.head ++ (declaration.body ++ "\x7d")

def uncommented : Declaration :=
  { declaration with
    separated := declaration.separated.map fun (line, separator) => (line.uncommented, separator)
    last := declaration.last.map Line.uncommented }

end Declaration

def Member.parameter? (member : Member) : Option Parameter :=
  if member.isRecognized && (eventName? "on" member.name).isNone then
    some { name := member.name, type := member.type.text, required := !member.optional }
  else none

def Member.event? (member : Member) : Option Event :=
  if member.isRecognized then
    (eventName? "on" member.name).map fun event =>
      { name := event, type := member.type.text, source := .callback }
  else none

def Member.warning? (member : Member) : Option Text :=
  if member.isRecognized then none
  else some ("Skipping unrecognized member `" ++ member.text ++ "` of Props")

def Line.parameter? (line : Line) : Option Parameter :=
  line.member.parameter?.map fun parameter => { parameter with description := line.description }

def Line.event? (line : Line) : Option Event :=
  line.member.event?.map fun event => { event with description := line.description }

def Line.found (line : Line) : MemberText :=
  ⟨line.member.text, line.description⟩

theorem Line.addMemberText_found (line : Line) (api : ScriptApi) :
    addMemberText {} api line.found =
      { api with
        parameters := api.parameters ++ line.parameter?.toList
        events := api.events ++ line.event?.toList
        warnings := api.warnings ++ line.member.warning?.toList } := by
  have hmember := line.member.member?_text
  unfold addMemberText Line.found Line.parameter? Line.event? Member.parameter? Member.event?
    Member.warning?
  cases hrecognized : line.member.isRecognized with
  | false =>
      rw [hrecognized] at hmember
      simp only [hmember]
      simp [ScriptApi.warn]
  | true =>
      rw [hrecognized] at hmember
      simp only [hmember, ↓reduceIte]
      cases eventName? "on" line.member.name with
      | none => simp [ScriptApi.addParameter]
      | some event => simp [ScriptApi.addEvent]

theorem foldl_addMemberText (lines : List Line) (api : ScriptApi) :
    (lines.map Line.found).foldl (addMemberText {}) api =
      { api with
        parameters := api.parameters ++ lines.filterMap Line.parameter?
        events := api.events ++ lines.filterMap Line.event?
        warnings := api.warnings ++ lines.filterMap fun line => line.member.warning? } := by
  induction lines generalizing api with
  | nil => simp
  | cons line lines ih =>
      rw [List.map_cons, List.foldl_cons, line.addMemberText_found, ih]
      cases hparameter : line.parameter? <;> cases hevent : line.event? <;>
        cases hwarning : line.member.warning? <;> simp [hparameter, hevent, hwarning]

theorem Line.passed (line : Line) : Passed line.text := by
  obtain ⟨comment, member⟩ := line
  cases comment with
  | none => exact member.passed
  | some comment =>
      obtain ⟨comment, separator⟩ := comment
      exact comment.passed.append ((Passed.of_isGap separator.all_isGap).append member.passed)

namespace Declaration

variable (declaration : Declaration)

theorem passed_body : Passed declaration.body := by
  have hopening : Passed declaration.opening.text := .of_isGap declaration.opening.all_isGap
  have hclosing : Passed declaration.closing.text := .of_isGap declaration.closing.all_isGap
  have hseparated : ∀ separated, Passed (separatedText separated) := by
    intro separated
    induction separated with
    | nil => exact .of_forall (by simp [separatedText])
    | cons first separated ih =>
        exact (first.1.passed.append (.of_isGap first.2.all_isGap)).append ih
  have hlast : Passed ((declaration.last.map Line.text).getD []) := by
    cases declaration.last with
    | none => exact .of_forall (by simp)
    | some line => exact line.passed
  exact hopening.append ((hseparated _).append (hlast.append hclosing))

theorem typeBody?_text : typeBody? "Props" declaration.text = some declaration.body := by
  have hblock : balancedBlock (declaration.body ++ "\x7d") = some (declaration.body, []) :=
    balancedBlock_close declaration.passed_body.enclosed []
  have hstart : ∀ (text : Text) (head : TypeHead), typeHeadAt? "Props" text = some head →
      typeHead? "Props" none text = some head := by
    intro text head hhead
    unfold typeHead?
    simp only [Bool.false_eq_true, ↓reduceIte, hhead]
  rw [text, typeBody?]
  rcases declaration.isHead with hhead | hhead
  · rw [hhead, hstart _ _ (Props.typeHeadAt?_text _)]
    exact congrArg (Option.map (·.1)) hblock
  · have halias : ∀ rest : Text, typeHeadAt? "Props" ("type Props = \x7b" ++ rest) =
        some (.typeAlias rest) := fun _ => rfl
    rw [hhead, hstart _ _ (halias _)]
    exact congrArg (Option.map (·.1)) hblock

end Declaration

def IsFinished (lines : MemberLines) : Prop :=
  lines.pending = none ∧ ∀ last ∈ lines.reversed, isUnfinished last.text = false

def Line.addTo (line : Line) (lines : MemberLines) : MemberLines :=
  ⟨line.found :: lines.reversed, none⟩

theorem Line.isFinished_addTo (line : Line) {lines : MemberLines} (h : IsFinished lines) :
    IsFinished (line.addTo lines) := by
  refine ⟨rfl, ?_⟩
  rw [Line.addTo, List.forall_mem_cons]
  exact ⟨line.member.isUnfinished_text, h.2⟩

theorem Separator.any_text (separator : Separator) :
    separator.text.any separatesMembers = true := by
  simp [Separator.text, separator.separatesMembers_mark]

theorem Line.readPieces_text (line : Line) {lines : MemberLines} (h : IsFinished lines)
    (rest : Text) :
    readPieces lines (line.text ++ rest) =
      readPieces { lines with pending := line.description } (line.member.text ++ rest) := by
  obtain ⟨comment, member⟩ := line
  cases comment with
  | none =>
      obtain ⟨reversed, pending⟩ := lines
      obtain ⟨rfl, -⟩ := h
      rfl
  | some comment =>
      obtain ⟨comment, separator⟩ := comment
      have hcomment := readPieces_append separator.all_isGap separator.any_text lines
        comment.isPiece (member.text ++ rest)
      rw [comment.addPiece_written] at hcomment
      simpa [Line.text, Line.description] using hcomment

theorem Line.addPiece_member (line : Line) {lines : MemberLines} (h : IsFinished lines) :
    MemberLines.addPiece { lines with pending := line.description } line.member.text =
      line.addTo lines :=
  line.member.addPiece_text h.2

theorem Line.readPieces_separator (line : Line) (separator : Separator) {lines : MemberLines}
    (h : IsFinished lines) (rest : Text) :
    readPieces lines (line.text ++ (separator.text ++ rest)) =
      readPieces (line.addTo lines) rest := by
  rw [line.readPieces_text h, readPieces_append separator.all_isGap separator.any_text _
    line.member.isPiece, line.addPiece_member h]

theorem Line.readPieces_closing (line : Line) (closing : Gap) {lines : MemberLines}
    (h : IsFinished lines) :
    readPieces lines (line.text ++ closing.text) = line.addTo lines := by
  rw [line.readPieces_text h, readPieces_last closing.all_isGap _ line.member.isPiece,
    line.addPiece_member h]

def addLines (lines : MemberLines) (added : List Line) : MemberLines :=
  added.foldl (fun lines line => line.addTo lines) lines

theorem reversed_addLines (lines : MemberLines) (added : List Line) :
    (addLines lines added).reversed = (added.map Line.found).reverse ++ lines.reversed := by
  induction added generalizing lines with
  | nil => rfl
  | cons line added ih =>
      rw [addLines, List.foldl_cons, ← addLines, ih]
      simp [Line.addTo]

theorem readPieces_separated (separated : List (Line × Separator)) {lines : MemberLines}
    (h : IsFinished lines) (rest : Text) :
    IsFinished (addLines lines (separated.map (·.1))) ∧
      readPieces lines (Declaration.separatedText separated ++ rest) =
        readPieces (addLines lines (separated.map (·.1))) rest := by
  induction separated generalizing lines with
  | nil => exact ⟨h, rfl⟩
  | cons first separated ih =>
      obtain ⟨line, separator⟩ := first
      obtain ⟨hfinished, hrest⟩ := ih (line.isFinished_addTo h)
      refine ⟨hfinished, ?_⟩
      have hline := line.readPieces_separator separator h
        (Declaration.separatedText separated ++ rest)
      rw [hrest] at hline
      simpa [Declaration.separatedText, addLines] using hline

theorem Declaration.memberTexts_body (declaration : Declaration) :
    memberTexts declaration.body = declaration.lines.map Line.found := by
  have hkept : stripLongComments 0 declaration.body = declaration.body := by
    have hend := declaration.passed_body.kept []
    rwa [List.append_nil, stripLongComments, List.append_nil] at hend
  have hstart : IsFinished {} := ⟨rfl, by simp⟩
  obtain ⟨hfinished, hseparated⟩ :=
    readPieces_separated declaration.separated hstart declaration.ending
  have hending : ∀ {lines}, IsFinished lines → readPieces lines declaration.ending =
      addLines lines declaration.last.toList := by
    intro lines h
    unfold ending
    cases declaration.last with
    | none =>
        have hgap := readPieces_gap lines declaration.closing.all_isGap []
        rwa [List.append_nil] at hgap
    | some line => exact line.readPieces_closing declaration.closing h
  change (readPieces {} (stripLongComments 0 declaration.body)).reversed.reverse = _
  rw [hkept, body, readPieces_gap _ declaration.opening.all_isGap, hseparated, hending hfinished,
    reversed_addLines, reversed_addLines]
  simp [lines]

section

variable {α : Type} {reader : Text → Option (α × Text)}

theorem Line.reader_eq_none (line : Line) (h : LineReader reader) (rest : Text) :
    reader (line.text ++ rest) = none := by
  obtain ⟨comment, member⟩ := line
  cases comment with
  | none => exact member.reader_eq_none h rest
  | some comment => exact h.other '/' _ rfl (by decide)

theorem Line.atLines_text (line : Line) (h : LineReader reader) (rest : Text) (atStart : Bool) :
    atLines reader atStart 0 (line.text ++ rest) = atLines reader false 0 rest := by
  obtain ⟨comment, member⟩ := line
  have hmember : ∀ atStart, atLines reader atStart 0 (member.text ++ rest) =
      atLines reader false 0 rest := by
    obtain ⟨first, more, hfirst, -⟩ := member.tidy_text.exists_cons
    exact atLines_line (by simp [hfirst]) member.not_mem_newline (member.reader_eq_none h rest)
  cases comment with
  | none => exact hmember atStart
  | some comment =>
      obtain ⟨comment, separator⟩ := comment
      obtain ⟨next, hnext⟩ := h.atLines_gap separator.all_isGap (member.reader_eq_none h rest) false
      have hcomment : atLines reader atStart 0
          (comment.written ++ (separator.text ++ (member.text ++ rest))) =
            atLines reader false 0 (separator.text ++ (member.text ++ rest)) :=
        atLines_line (by simp [Comment.written]) comment.not_mem_newline
          (h.other '/' _ rfl (by decide)) atStart
      rw [hnext, hmember next] at hcomment
      simpa [Line.text] using hcomment

theorem atLines_separated (h : LineReader reader) (separated : List (Line × Separator))
    {rest : Text} (hnone : reader rest = none)
    (hrest : ∀ atStart, atLines reader atStart 0 rest = []) :
    reader (Declaration.separatedText separated ++ rest) = none ∧
      ∀ atStart, atLines reader atStart 0 (Declaration.separatedText separated ++ rest) = [] := by
  induction separated with
  | nil => exact ⟨hnone, hrest⟩
  | cons first separated ih =>
      obtain ⟨line, separator⟩ := first
      have hsplit : Declaration.separatedText ((line, separator) :: separated) ++ rest =
          line.text ++ (separator.text ++ (Declaration.separatedText separated ++ rest)) := by
        simp [Declaration.separatedText]
      rw [hsplit]
      refine ⟨line.reader_eq_none h _, fun atStart => ?_⟩
      obtain ⟨next, hnext⟩ := h.atLines_gap separator.all_isGap ih.1 false
      rw [line.atLines_text h, hnext, ih.2 next]

theorem Declaration.atLines_ending (declaration : Declaration) (h : LineReader reader) :
    reader (declaration.ending ++ "\x7d") = none ∧
      ∀ atStart, atLines reader atStart 0 (declaration.ending ++ "\x7d") = [] := by
  have hbrace : reader ['\x7d'] = none := h.other '\x7d' [] rfl (by decide)
  have hclosing := h.reader_gap declaration.closing.all_isGap hbrace
  have hclosed : ∀ atStart,
      atLines reader atStart 0 (declaration.closing.text ++ ['\x7d']) = [] := by
    intro atStart
    obtain ⟨next, hnext⟩ := h.atLines_gap declaration.closing.all_isGap hbrace atStart
    rw [hnext, atLines, hbrace, ite_self]
    rfl
  unfold ending
  cases declaration.last with
  | none => exact ⟨hclosing, hclosed⟩
  | some line =>
      rw [List.append_assoc]
      refine ⟨line.reader_eq_none h _, fun atStart => ?_⟩
      exact (line.atLines_text h _ atStart).trans (hclosed false)

theorem Declaration.atLines_text (declaration : Declaration) (h : LineReader reader) :
    atLines reader true 0 declaration.text = [] := by
  have hhead : ∀ rest, atLines reader true 0 (declaration.head ++ rest) =
      atLines reader false 0 rest := by
    intro rest
    rcases declaration.isHead with hhead | hhead
    · rw [hhead]
      exact atLines_line (by decide) (by decide) (h.other 'i' _ rfl (by decide)) true
    · rw [hhead]
      exact atLines_line (by decide) (by decide) (h.other 't' _ rfl (by decide)) true
  obtain ⟨hnone, hending⟩ := declaration.atLines_ending h
  obtain ⟨hfirst, hlines⟩ := atLines_separated h declaration.separated hnone hending
  obtain ⟨next, hopening⟩ := h.atLines_gap declaration.opening.all_isGap hfirst false
  rw [text, body, List.append_assoc, List.append_assoc, hhead, hopening, hlines next]

end

/-! ## What is recovered -/

/-- The interface that is recovered from a declaration: one record for each member, in their
order, and one warning for each name that is not recognized. -/
theorem Declaration.ofText_text (declaration : Declaration) :
    ScriptApi.ofText {} declaration.text =
      { parameters := declaration.lines.filterMap Line.parameter?
        events := declaration.lines.filterMap Line.event?
        warnings := declaration.lines.filterMap fun line => line.member.warning? } := by
  have hbody : typeBody? ({} : Options).propsTypeName declaration.text = some declaration.body :=
    declaration.typeBody?_text
  have hassigns : assigns "$props" declaration.text = false := by
    have hrest : assigns "$props" (declaration.body ++ "\x7d") = false :=
      declaration.passed_body.unassigned _ rfl
    rw [text]
    rcases declaration.isHead with hhead | hhead
    · rw [hhead]
      exact assigns_append (by decide) hrest
    · have halias : ∀ rest : Text, assigns "$props" ("type Props = \x7b" ++ rest) =
          assigns "$props" rest := fun _ => rfl
      rw [hhead, halias, hrest]
  have hpatterns : destructuredTexts ({} : Options).propsRune declaration.text = [] :=
    destructuredTexts_eq_nil (by decide) hassigns
  have hexports : foundExports declaration.text = [] :=
    declaration.atLines_text lineReader_exportAt?
  have hfunctions : foundFunctions declaration.text = [] :=
    declaration.atLines_text lineReader_functionAt?
  rw [ScriptApi.ofText, hbody, hpatterns, hexports, hfunctions]
  simp only [Option.map_some, Option.getD_some, declaration.memberTexts_body, foldl_addMemberText]
  rfl

/-- A declaration without comments gives its members as they are written: callbacks as events,
the others as parameters. -/
theorem members_recovered (declaration : Declaration)
    (hcomments : ∀ line ∈ declaration.lines, line.comment = none)
    (hnames : ∀ line ∈ declaration.lines, line.member.isRecognized = true) :
    ScriptApi.ofText {} declaration.text =
      { parameters := (declaration.lines.map Line.member).filterMap fun member =>
          match eventName? "on" member.name with
          | some _ => none
          | none =>
              some { name := member.name, type := member.type.text, required := !member.optional,
                     fallback := none, description := none }
        events := (declaration.lines.map Line.member).filterMap fun member =>
          (eventName? "on" member.name).map fun event =>
            { name := event, type := member.type.text, description := none, payload := none,
              source := .callback }
        operations := []
        warnings := [] } := by
  have hdescription : ∀ line ∈ declaration.lines, line.description = none := by
    intro line hline
    rw [Line.description, hcomments line hline, Option.map_none]
  have hparameter : ∀ line ∈ declaration.lines, line.parameter? =
      match eventName? "on" line.member.name with
      | some _ => none
      | none =>
          some { name := line.member.name, type := line.member.type.text,
                 required := !line.member.optional, fallback := none, description := none } := by
    intro line hline
    rw [Line.parameter?, Member.parameter?, hnames line hline, hdescription line hline]
    cases eventName? "on" line.member.name <;> rfl
  have hevent : ∀ line ∈ declaration.lines, line.event? =
      (eventName? "on" line.member.name).map fun event =>
        { name := event, type := line.member.type.text, description := none, payload := none,
          source := .callback } := by
    intro line hline
    rw [Line.event?, Member.event?, hnames line hline, hdescription line hline]
    cases eventName? "on" line.member.name <;> rfl
  have hwarning : ∀ line ∈ declaration.lines, line.member.warning? = none := by
    intro line hline
    rw [Member.warning?, hnames line hline]
    rfl
  rw [declaration.ofText_text, List.filterMap_congr hparameter, List.filterMap_congr hevent,
    List.filterMap_map, List.filterMap_map, List.filterMap_eq_nil_iff.mpr hwarning]
  rfl

def tableType : TypeText where
  text := "Map<K, \x7b a: ';\x7d'; b: V \x7d> | null"
  ne_nil := by decide
  isNormal := by decide
  isNested := by decide
  noSlash := by decide
  noAssignment := by decide
  start := by decide
  stop := by decide

def callbackType : TypeText where
  text := "(row: Row, at: number) => void"
  ne_nil := by decide
  isNormal := by decide
  isNested := by decide
  noSlash := by decide
  noAssignment := by decide
  start := by decide
  stop := by decide

def tableDeclaration : Declaration where
  head := "interface Props \x7b"
  isHead := .inl rfl
  opening := ⟨" ", by decide⟩
  separated :=
    [(⟨none, ⟨true, "rows", by decide, true, tableType⟩⟩,
      ⟨⟨[], by decide⟩, ';', .inl rfl, ⟨"\n\t", by decide⟩⟩)]
  last := some ⟨none, ⟨false, "onPick", by decide, false, callbackType⟩⟩
  closing := ⟨" ", by decide⟩

theorem members_of_tableDeclaration :
    tableDeclaration.text =
      ("interface Props \x7b readonly rows?: Map<K, \x7b a: ';\x7d'; b: V \x7d> | null;" : Text) ++
        "\n\tonPick: (row: Row, at: number) => void \x7d" ∧
    (∀ line ∈ tableDeclaration.lines, line.comment = none) ∧
    (∀ line ∈ tableDeclaration.lines, line.member.isRecognized = true) ∧
    ScriptApi.ofText {} tableDeclaration.text =
      { parameters :=
          [{ name := "rows", type := "Map<K, \x7b a: ';\x7d'; b: V \x7d> | null",
             required := false }]
        events :=
          [{ name := "pick", type := "(row: Row, at: number) => void", source := .callback }] } :=
  have hcomments : ∀ line ∈ tableDeclaration.lines, line.comment = none := by decide
  have hnames : ∀ line ∈ tableDeclaration.lines, line.member.isRecognized = true := by decide
  ⟨by decide, hcomments, hnames, members_recovered tableDeclaration hcomments hnames⟩

/-! ## Comments -/

theorem Declaration.lines_uncommented (declaration : Declaration) :
    declaration.uncommented.lines = declaration.lines.map Line.uncommented := by
  unfold lines uncommented
  cases declaration.last <;> simp

theorem Line.parameter?_uncommented (line : Line) :
    line.uncommented.parameter? =
      line.parameter?.map fun parameter => { parameter with description := none } := by
  unfold Line.parameter? Member.parameter? Line.uncommented
  dsimp only
  split <;> rfl

theorem Line.event?_uncommented (line : Line) :
    line.uncommented.event? =
      line.event?.map fun event => { event with description := none } := by
  unfold Line.event? Member.event? Line.uncommented
  dsimp only
  split
  · cases eventName? "on" line.member.name <;> rfl
  · rfl

/-- Comments before members add descriptions and change nothing else, and each describes the
record of the member behind it. -/
theorem comments_describe (declaration : Declaration) :
    let commented := ScriptApi.ofText {} declaration.text
    let plain := ScriptApi.ofText {} declaration.uncommented.text
    (commented.parameters.map fun parameter => { parameter with description := none }) =
      plain.parameters ∧
    (commented.events.map fun event => { event with description := none }) = plain.events ∧
    commented.operations = plain.operations ∧
    commented.warnings = plain.warnings ∧
    commented.parameters = declaration.lines.filterMap Line.parameter? ∧
    commented.events = declaration.lines.filterMap Line.event? := by
  intro commented plain
  have hparameters : (declaration.lines.filterMap Line.parameter?).map
      (fun parameter => { parameter with description := none }) =
        (declaration.lines.map Line.uncommented).filterMap Line.parameter? := by
    rw [List.map_filterMap, List.filterMap_map]
    exact List.filterMap_congr fun line _ => line.parameter?_uncommented.symm
  have hevents : (declaration.lines.filterMap Line.event?).map
      (fun event => { event with description := none }) =
        (declaration.lines.map Line.uncommented).filterMap Line.event? := by
    rw [List.map_filterMap, List.filterMap_map]
    exact List.filterMap_congr fun line _ => line.event?_uncommented.symm
  have hwarnings : (declaration.lines.filterMap fun line => line.member.warning?) =
      (declaration.lines.map Line.uncommented).filterMap fun line => line.member.warning? := by
    rw [List.filterMap_map]
    rfl
  have hcommented : commented = _ := declaration.ofText_text
  have hplain : plain = _ := declaration.uncommented.ofText_text
  rw [hcommented, hplain, declaration.lines_uncommented]
  exact ⟨hparameters, hevents, rfl, hwarnings, rfl, rfl⟩

def rowsComment : Comment where
  text := "The rows (or 'a; b', see below :) -> none"
  ne_nil := by decide
  isTrimmed := by decide
  isOneLine := by decide
  noEnd := by decide
  isNested := by decide
  noRune := by decide

def commentedDeclaration : Declaration :=
  { tableDeclaration with
    separated :=
      [(⟨some (rowsComment, ⟨⟨[], by decide⟩, '\n', .inr rfl, ⟨"\t", by decide⟩⟩),
          ⟨true, "rows", by decide, true, tableType⟩⟩,
        ⟨⟨[], by decide⟩, ';', .inl rfl, ⟨"\n\t", by decide⟩⟩)] }

theorem comment_describes_rows :
    commentedDeclaration.text =
      ("interface Props \x7b /** The rows (or 'a; b', see below :) -> none */\n\t" : Text) ++
        ("readonly rows?: Map<K, \x7b a: ';\x7d'; b: V \x7d> | null;\n\t" : Text) ++
        "onPick: (row: Row, at: number) => void \x7d" ∧
    (ScriptApi.ofText {} commentedDeclaration.text).parameters =
      [{ name := "rows", type := "Map<K, \x7b a: ';\x7d'; b: V \x7d> | null", required := false,
         description := some "The rows (or 'a; b', see below :) -> none".toList }] ∧
    (ScriptApi.ofText {} commentedDeclaration.text).events =
      [{ name := "pick", type := "(row: Row, at: number) => void", source := .callback }] :=
  have ⟨_, _, _, _, hparameters, hevents⟩ := comments_describe commentedDeclaration
  ⟨rfl, hparameters, hevents⟩

/-- An apostrophe in a comment is taken for a quote that nothing closes, so that the body of
the type has no end. -/
theorem apostrophe_hides_members :
    let members : Text := "name: string\nage: number\n\x7d"
    let commented :=
      ScriptApi.ofText {} ("interface Props \x7b\n/** The user's name */\n" ++ members)
    let plain := ScriptApi.ofText {} ("interface Props \x7b\n" ++ members)
    commented.parameters.map Parameter.name = [] ∧
      plain.parameters.map Parameter.name = ["name".toList, "age".toList] := by
  decide +kernel

end ComponentDocs.Fallback
