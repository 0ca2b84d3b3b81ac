import ComponentDocs.Proofs.Props.Values
import ComponentDocs.Proofs.Text.Scan

/-!
# The text of a props script

The interface that is recovered from the text of a props script is the one that the script
declares.
-/

namespace ComponentDocs.Props

open ComponentDocs.Script (Name Quoted Digits)
open ComponentDocs.Component

def Script.body (script : Script) : Text :=
  listed ';' (script.members.map Member.text)

def Script.pattern (script : Script) : Text :=
  listed ',' (script.bindings.map Binding.text)

theorem Script.text_eq (script : Script) :
    script.text = "interface Props \x7b" ++ (script.body ++ ("\x7d\nlet \x7b" ++
      (script.pattern ++ "\x7d: Props = $props();"))) := by
  unfold Script.text Script.body Script.pattern listed
  have hblank : ∀ text : Text, (" " : Text) ++ text = ' ' :: text := fun _ => rfl
  simp only [List.map_map, Function.comp_def, hblank, List.append_assoc]
  rfl

variable {c : Char} {rest front : Text}

theorem Script.not_mem_body (script : Script) (hc : Balanced.characters c = false)
    (hmark : c ≠ ';') : c ∉ script.body := by
  have hblank : c ≠ ' ' := by
    rintro rfl
    exact absurd hc (by decide)
  refine not_mem_listed hmark hblank ?_
  simpa using fun member _ => member.balanced.not_mem hc

theorem Script.not_mem_pattern (script : Script) (hc : Balanced.characters c = false)
    (hmark : c ≠ ',') (hassign : c ≠ '=') : c ∉ script.pattern := by
  have hblank : c ≠ ' ' := by
    rintro rfl
    exact absurd hc (by decide)
  refine not_mem_listed hmark hblank ?_
  simpa using fun binding _ => binding.not_mem hc hassign

theorem Script.enclosed_body (script : Script) : Enclosed script.body :=
  enclosed_listed (by decide) (by simpa using fun member _ => member.balanced.enclosed)

theorem Script.enclosed_pattern (script : Script) : Enclosed script.pattern :=
  enclosed_listed (by decide) (by simpa using fun binding _ => binding.enclosed)

theorem Script.isPiece_members (script : Script) :
    ∀ text ∈ script.members.map Member.text, IsPiece separatesMembers text := by
  simpa using fun member _ => member.isPiece

theorem Script.isPiece_bindings (script : Script) :
    ∀ text ∈ script.bindings.map Binding.text, IsPiece (· == ',') text := by
  simpa using fun binding _ => binding.isPiece

theorem Name.identifier?_append (name : Name)
    (hrest : ∀ c ∈ rest.head?, Text.continuesIdentifier c = false) :
    Text.identifier? (name.text ++ rest) = some (name.text, rest) := by
  obtain ⟨first, others, htext, hfirst, hothers⟩ := name.exists_cons
  have hall : ∀ c ∈ others, Text.continuesIdentifier c = true := fun c hc =>
    Text.of_isAsciiPart (by decide) (List.all_eq_true.mp hothers c hc)
  rw [htext, List.cons_append, Text.identifier?, if_pos hfirst,
    List.takeWhile_append_of_pos hall, List.dropWhile_append_of_pos hall,
    Text.takeWhile_of_head? hrest, Text.dropWhile_of_head? hrest, List.append_nil]

def Member.tail (member : Member) : Text :=
  (if member.optional then ("?" : Text) else []) ++ ": " ++ member.type.text

theorem Member.text_eq (member : Member) : member.text = member.name.text ++ member.tail := by
  simp [Member.text, Member.tail]

theorem Member.exists_tail (member : Member) :
    ∃ mark rest, member.tail = mark :: rest ∧ (mark = '?' ∨ mark = ':') := by
  obtain ⟨name, optional, type⟩ := member
  cases optional with
  | false => exact ⟨':', _, rfl, .inr rfl⟩
  | true => exact ⟨'?', _, rfl, .inl rfl⟩

theorem cleanType_text (type : TypeExpr) : cleanType (' ' :: type.text) = type.text := by
  have hend : Text.dropEndWhile (fun c => c == ';' || c == ',') type.text = type.text := by
    refine Text.dropEndWhile_of_getLast? fun c hc => ?_
    have hmem := List.mem_of_getLast? hc
    rw [Bool.or_eq_false_iff, beq_eq_false_iff_ne, beq_eq_false_iff_ne]
    constructor
    · rintro rfl
      exact type.balanced.not_mem (by decide) hmem
    · rintro rfl
      exact type.balanced.not_mem (by decide) hmem
  have hbar : type.text.dropWhile (· == '|') = type.text :=
    Text.dropWhile_of_head? fun c hc => beq_eq_false_iff_ne.mpr (type.edged.head c hc).1
  rw [cleanType, type.tidy.trim_space, hend, hbar, type.tidy.normalize_eq]

theorem Member.plainProperty?_text (member : Member) :
    plainProperty? member.text = some ⟨member.name.text, member.optional, member.type.text⟩ := by
  have hidentifier : Text.identifier? member.text = some (member.name.text, member.tail) := by
    rw [member.text_eq]
    refine Name.identifier?_append member.name fun c hc => ?_
    obtain ⟨mark, rest, htail, hmark⟩ := member.exists_tail
    rw [htail] at hc
    cases hc
    rcases hmark with rfl | rfl <;> decide
  have hname : memberName? member.text = some (member.name.text, member.tail) := by
    obtain ⟨first, rest, htext, -, -⟩ := member.name.exists_cons
    have hquote : isPlainQuote first = false := by
      simpa using member.name.of_mem (p := fun c => !isPlainQuote c) (by decide)
        (by simp [htext])
    rw [← hidentifier, member.text_eq, htext]
    simp [memberName?, hquote]
  rw [plainProperty?, hname]
  obtain ⟨name, optional, type⟩ := member
  have hcolon : typeBehindColon? (": " ++ type.text) = some type.text := by
    change some (cleanType (' ' :: type.text)) = _
    rw [cleanType_text]
  cases optional with
  | false => simpa [Member.tail, optionalMark] using hcolon
  | true => simpa [Member.tail, optionalMark] using hcolon

theorem Member.afterBlanks?_text (member : Member) {word : Text}
    (hword : '?' ∉ word ∧ ':' ∉ word) :
    (Text.after? word member.text).bind Text.afterBlanks? = none := by
  rw [Option.bind_eq_none_iff]
  intro behind hbehind
  obtain ⟨mark, rest, htail, hmark⟩ := member.exists_tail
  have hblank : Text.isSpace mark = false := by rcases hmark with rfl | rfl <;> decide
  rw [Text.after?_eq_some_iff, member.text_eq, htail] at hbehind
  rcases List.append_eq_append_iff.mp hbehind with ⟨more, hname, hrest⟩ | ⟨more, hname, hrest⟩
  · -- the word ends with the name or behind it
    cases more with
    | nil =>
        rw [List.nil_append] at hrest
        rw [← hrest, Text.afterBlanks?, hblank]
        rfl
    | cons c more =>
        cases hrest
        rw [hname] at hword
        rcases hmark with rfl | rfl <;> simp at hword
  · cases more with
    | nil =>
        rw [hrest, List.nil_append, Text.afterBlanks?, hblank]
        rfl
    | cons c more =>
        have hspace : Text.isSpace c = false := by
          simpa using member.name.of_mem (p := fun c => !Text.isSpace c) (by decide)
            (by simp [hname])
        rw [hrest, List.cons_append, Text.afterBlanks?, hspace]
        rfl

theorem Member.member?_text (member : Member) :
    member? member.text = some ⟨member.name.text, member.optional, member.type.text⟩ := by
  rw [member?, property?, member.afterBlanks?_text (by decide), member.plainProperty?_text]
  rfl

/-! ## The body of the type -/

theorem stripLongComments_eq {text : Text} (h : '/' ∉ text) : stripLongComments 0 text = text := by
  induction text with
  | nil => rfl
  | cons c text ih =>
      rw [stripLongComments, Text.after?_eq_none (by decide) h,
        ih (List.not_mem_of_not_mem_cons h)]

theorem Member.isUnfinished_text (member : Member) : isUnfinished member.text = false := by
  have hlast : ∀ c ∈ member.text.getLast?, c ≠ '|' ∧ c ≠ ':' := by
    intro c hc
    obtain ⟨init, last, htype, -⟩ := member.type.tidy.exists_concat
    have hedged := member.type.edged.last
    rw [htype, List.getLast?_concat] at hedged
    rw [Member.text, htype, ← List.append_assoc, List.getLast?_concat] at hc
    exact hedged c hc
  have hbalanced := fun c hc => member.balanced.not_mem (c := c) hc
  rw [isUnfinished, List.any_eq_false]
  intro ending hending hsuffix
  obtain ⟨init, hinit⟩ := List.isSuffixOf_iff_suffix.mp hsuffix
  simp only [List.mem_cons, List.not_mem_nil, or_false] at hending
  rcases hending with rfl | rfl | rfl | rfl
  · exact (hlast '|' (by rw [← hinit]; exact List.getLast?_concat)).1 rfl
  · exact hbalanced '&' (by decide) (by rw [← hinit]; simp)
  · exact (hlast ':' (by rw [← hinit]; exact List.getLast?_concat)).2 rfl
  · exact hbalanced '=' (by decide) (by rw [← hinit]; simp)

def Member.found (member : Member) : MemberText :=
  ⟨member.text, none⟩

theorem Member.addPiece_eq (member : Member) {piece : Text} (hpiece : Text.trim piece = member.text)
    {lines : MemberLines} (hpending : lines.pending = none)
    (hlines : ∀ last ∈ lines.reversed, isUnfinished last.text = false) :
    lines.addPiece piece = ⟨member.found :: lines.reversed, none⟩ := by
  have hslash : '/' ∉ member.text := member.balanced.not_mem (by decide)
  have hdoc : Text.after? "/**" member.text = none := Text.after?_eq_none (by decide) hslash
  have hmemberless : isMemberless member.text = false := by
    have hne : member.text ≠ [] := by
      obtain ⟨c, rest, htext, -⟩ := member.tidy.exists_cons
      simp [htext]
    simp [isMemberless, hne, Text.isPrefixOf_eq_false (c := '/') _ hslash]
  have hcontinuation : isContinuation member.text = false := by
    obtain ⟨first, rest, htext, -, -⟩ := member.name.exists_cons
    have hmarks := member.name.of_mem (p := fun c => c != '|' && c != '&') (by decide)
      (by simp [htext] : first ∈ member.name.text)
    simpa [isContinuation, member.text_eq, htext] using hmarks
  have hcomment : cutLineComment member.text = member.text := by
    rw [cutLineComment, Text.cut?_eq_none (by decide) hslash]
  rw [MemberLines.addPiece, hpiece, hdoc]
  simp only [hmemberless, MemberLines.add]
  cases hreversed : lines.reversed with
  | nil => simp [hcomment, hpending, Member.found]
  | cons last earlier =>
      simp [hcontinuation, hlines last (by simp [hreversed]), hcomment, hpending, Member.found]

theorem foldl_addPiece {members : List Member} {pieces : List Text}
    (h : List.Forall₂ (fun text piece => Text.trim piece = Text.trim text)
      (members.map Member.text) pieces)
    {lines : MemberLines} (hpending : lines.pending = none)
    (hlines : ∀ last ∈ lines.reversed, isUnfinished last.text = false) :
    (pieces.foldl MemberLines.addPiece lines).reversed =
      (members.map Member.found).reverse ++ lines.reversed := by
  induction members generalizing pieces lines with
  | nil =>
      cases h
      rfl
  | cons member members ih =>
      obtain ⟨piece, pieces, hpiece, hpieces, rfl⟩ := List.forall₂_cons_left_iff.mp h
      rw [member.tidy.trim_eq] at hpiece
      rw [List.foldl_cons, member.addPiece_eq hpiece hpending hlines, ih hpieces rfl]
      · simp
      · rw [List.forall_mem_cons]
        exact ⟨member.isUnfinished_text, hlines⟩

theorem Script.memberTexts_body (script : Script) :
    memberTexts script.body = script.members.map Member.found := by
  rw [memberTexts, stripLongComments_eq (script.not_mem_body (by decide) (by decide))]
  by_cases hne : script.members = []
  · rw [Script.body, hne]
    rfl
  have htexts : script.members.map Member.text ≠ [] := by simpa using hne
  have hpieces := splitTopLevel_listed script.isPiece_members htexts
    (by decide : isPlain ';' = true) (by decide) (by decide)
  rw [Script.body, foldl_addPiece hpieces rfl (by simp)]
  simp

theorem addMemberText_found (member : Member) (api : ScriptApi) :
    addMemberText {} api member.found = member.declare api := by
  simp only [addMemberText, Member.found, member.member?_text]
  rfl

theorem typeHeadAt?_text (rest : Text) :
    typeHeadAt? "Props" ("interface Props \x7b" ++ rest) =
      some (.interface (" \x7b" ++ rest)) := by
  have hnamed : afterNamed? "interface" "Props" ("interface Props \x7b" ++ rest)
      (fun last behind => if Text.atBoundary last behind then some behind else none) =
        some (" \x7b" ++ rest) := by
    rfl
  rw [typeHeadAt?, hnamed]

theorem Script.typeBody?_text (script : Script) :
    typeBody? "Props" script.text = some script.body := by
  have hhead : ∀ rest : Text, typeHead? "Props" none ("interface Props \x7b" ++ rest) =
      some (.interface (" \x7b" ++ rest)) := by
    intro rest
    unfold typeHead?
    simp only [Bool.false_eq_true, ↓reduceIte, typeHeadAt?_text]
  rw [script.text_eq, typeBody?, hhead]
  exact congrArg (Option.map (·.1)) (balancedBlock_close script.enclosed_body _)

/-! ## The pattern -/

theorem exists_of_patternAt? {text behind : Text} (h : patternAt? text = some behind) :
    ∃ front : Text, text = front ++ '\x7b' :: behind ∧ '\x7b' ∉ front ∧ '\x7d' ∉ front := by
  obtain ⟨word, hword, hbehind⟩ := List.exists_of_findSome?_eq_some h
  obtain ⟨rest, hrest, hbehind⟩ := Option.bind_eq_some_iff.mp hbehind
  rw [Text.after?_eq_some_iff] at hrest hbehind
  have hsplit : rest = rest.takeWhile Text.isSpace ++ '\x7b' :: behind := by
    conv_lhs => rw [← List.takeWhile_append_dropWhile (p := Text.isSpace) (l := rest)]
    exact congrArg (_ ++ ·) hbehind
  have hblanks : ∀ c, Text.isSpace c = false → c ∉ rest.takeWhile Text.isSpace := by
    intro c hc hmem
    rw [List.mem_takeWhile_imp hmem] at hc
    contradiction
  have hwords : ∀ word ∈ [("let" : Text), "const", "var"], '\x7b' ∉ word ∧ '\x7d' ∉ word := by
    decide
  refine ⟨word ++ rest.takeWhile Text.isSpace, ?_, ?_, ?_⟩
  · rw [hrest, List.append_assoc, ← hsplit]
  · rw [List.mem_append, not_or]
    exact ⟨(hwords word hword).1, hblanks _ (by decide)⟩
  · rw [List.mem_append, not_or]
    exact ⟨(hwords word hword).2, hblanks _ (by decide)⟩

theorem patternAt?_eq_none (h : '\x7b' ∉ front) :
    patternAt? (front ++ '\x7d' :: rest) = none := by
  rw [Option.eq_none_iff_forall_ne_some]
  intro behind hbehind
  obtain ⟨words, hwords, -, hclose⟩ := exists_of_patternAt? hbehind
  rcases List.append_eq_append_iff.mp hwords with ⟨more, hmore, hrest⟩ | ⟨more, hmore, hrest⟩
  · -- the closing brace would stand in front of the pattern
    cases more with
    | nil => cases hrest
    | cons c more =>
        cases hrest
        exact hclose (by simp [hmore])
  · cases more with
    | nil => cases hrest
    | cons c more =>
        cases hrest
        exact h (by simp [hmore])

theorem patternStarts_append
    (h : ∀ text, text <:+ front → text ≠ [] → patternAt? (text ++ rest) = none)
    (previous : Option Char) :
    ∃ last, patternStarts previous 0 (front ++ rest) = patternStarts last 0 rest := by
  induction front generalizing previous with
  | nil => exact ⟨previous, rfl⟩
  | cons c front ih =>
      have hnone := h (c :: front) List.suffix_rfl (List.cons_ne_nil _ _)
      rw [List.cons_append] at hnone
      obtain ⟨last, hlast⟩ := ih (fun text htext => h text (htext.trans (List.suffix_cons _ _)))
        (some c)
      refine ⟨last, ?_⟩
      rw [← hlast, List.cons_append, patternStarts, hnone, ite_self]

theorem patternStarts_let (previous : Option Char) (rest : Text) :
    patternStarts previous 0 ("\nlet \x7b" ++ rest) =
      rest :: patternStarts (some '\x7b') 0 rest := by
  have hbreak : patternAt? ('\n' :: ("let \x7b" ++ rest)) = none := rfl
  have hskip : ("et \x7b" ++ rest).length - rest.length = 4 := by
    rw [List.length_append, Nat.add_sub_cancel]
    rfl
  have hpattern : patternStarts (some '\n') 0 ("let \x7b" ++ rest) =
      rest :: patternStarts (some 'l') (("et \x7b" ++ rest).length - rest.length)
        ("et \x7b" ++ rest) := rfl
  change patternStarts previous 0 ('\n' :: ("let \x7b" ++ rest)) = _
  rw [patternStarts, hbreak, ite_self, hpattern, hskip]
  rfl

theorem Script.patternStarts_text (script : Script) :
    patternStarts none 0 script.text = [script.pattern ++ "\x7d: Props = $props();"] := by
  have hfirst : ∀ rest : Text, patternStarts none 0 ("interface Props \x7b" ++ rest) =
      patternStarts (some '\x7b') 0 rest := fun _ => rfl
  have hbody : ∀ rest : Text, ∀ text, text <:+ script.body ++ ['\x7d'] → text ≠ [] →
      patternAt? (text ++ rest) = none := by
    intro rest text htext hne
    rcases List.suffix_concat_iff.mp htext with rfl | ⟨front, rfl, hfront⟩
    · contradiction
    · rw [List.append_assoc]
      refine patternAt?_eq_none fun hopen => ?_
      exact script.not_mem_body (by decide) (by decide) (hfront.subset hopen)
  have hpattern : '\x7b' ∉ script.pattern ++ ("\x7d: Props = $props();" : Text) := by
    rw [List.mem_append, not_or]
    exact ⟨script.not_mem_pattern (by decide) (by decide) (by decide), by decide⟩
  have hlast : ∀ text, text <:+ script.pattern ++ ("\x7d: Props = $props();" : Text) → text ≠ [] →
      patternAt? (text ++ []) = none := by
    intro text htext _
    rw [List.append_nil, Option.eq_none_iff_forall_ne_some]
    intro behind hbehind
    obtain ⟨front, hfront, -, -⟩ := exists_of_patternAt? hbehind
    exact hpattern (htext.subset (by simp [hfront]))
  obtain ⟨previous, hprevious⟩ := patternStarts_append
    (hbody ("\nlet \x7b" ++ (script.pattern ++ "\x7d: Props = $props();"))) (some '\x7b')
  obtain ⟨last, hend⟩ := patternStarts_append hlast (some '\x7b')
  rw [List.append_nil] at hend
  rw [script.text_eq, hfirst]
  rw [List.append_assoc] at hprevious
  refine hprevious.trans ?_
  rw [patternStarts_let, hend]
  rfl

theorem Script.destructuredTexts_text (script : Script) :
    destructuredTexts "$props" script.text = [script.pattern] := by
  have hblock : balancedBlock (script.pattern ++ "\x7d: Props = $props();") =
      some (script.pattern, (": Props = $props();" : Text)) :=
    balancedBlock_close script.enclosed_pattern _
  rw [destructuredTexts, script.patternStarts_text, List.filterMap_cons, hblock]
  rfl

def Binding.entry (binding : Binding) : FoundBinding × Option Text :=
  (⟨false, binding.name.text, false, none⟩, binding.fallback.map Default.text)

theorem binding?_name (name : Name) :
    binding? name.text = some ⟨false, name.text, false, none⟩ := by
  have hdots : Text.after? "..." name.text = none :=
    Text.after?_eq_none (c := '.') (by decide) ((Name.balanced name).not_mem (by decide))
  have hidentifier : Text.identifier? name.text = some (name.text, []) := by
    simpa using Name.identifier?_append name (nofun : ∀ c ∈ ([] : Text).head?, _)
  rw [binding?, hdots]
  simp only [hidentifier]
  rfl

theorem cutDefault_name (name : Name) (rest : Text) :
    ∃ last, cutDefault 0 none (name.text ++ rest) =
      (cutDefault 0 last rest).map fun (before, behind) => (name.text ++ before, behind) := by
  have hname : ∀ c ∈ name.text,
      opensGroup c = false ∧ closesGroup c = false ∧ c ≠ '=' ∧ c ≠ '>' := by
    intro c hc
    simpa [and_assoc] using name.of_mem
      (p := fun c => !opensGroup c && !closesGroup c && c != '=' && c != '>') (by decide) hc
  generalize name.text = text at hname
  generalize (none : Option Char) = previous
  induction text generalizing previous with
  | nil => exact ⟨previous, by simp⟩
  | cons c text ih =>
      rw [List.forall_mem_cons] at hname
      obtain ⟨last, hlast⟩ := ih hname.2 (some c)
      refine ⟨last, ?_⟩
      simp [cutDefault, hname.1, hlast, Function.comp_def]

theorem Binding.splitDefault_text (binding : Binding) :
    ∃ named, splitDefault binding.text = (named, binding.fallback.map Default.text) ∧
      Text.trim named = binding.name.text := by
  obtain ⟨name, fallback⟩ := binding
  cases fallback with
  | none =>
      obtain ⟨last, hlast⟩ := cutDefault_name name []
      rw [List.append_nil] at hlast
      refine ⟨name.text, ?_, (Name.tidy name).trim_eq⟩
      simp only [splitDefault, Binding.text, hlast]
      rfl
  | some fallback =>
      obtain ⟨last, hlast⟩ := cutDefault_name name (" = " ++ fallback.text)
      have hcut : cutDefault 0 last (" = " ++ fallback.text) =
          some ([' '], ' ' :: fallback.text) := rfl
      rw [hcut] at hlast
      refine ⟨name.text ++ " ", ?_, by simpa using (Name.tidy name).trim_around [] [' '] rfl rfl⟩
      have htext : (Binding.mk name (some fallback)).text =
          name.text ++ (" = " ++ fallback.text) := by
        simp [Binding.text]
      simp only [splitDefault, htext, hlast]
      simp [fallback.tidy.trim_space]

theorem Binding.item?_of_trim (binding : Binding) {piece : Text}
    (h : Text.trim piece = binding.text) : item? piece = some binding.entry := by
  obtain ⟨named, hsplit, htrim⟩ := binding.splitDefault_text
  simp only [item?, h, hsplit, htrim, binding?_name]
  rfl

theorem filterMap_entries {bindings : List Binding} {pieces : List Text}
    (h : List.Forall₂ (fun text piece => Text.trim piece = Text.trim text)
      (bindings.map Binding.text) pieces) :
    pieces.filterMap item? = bindings.map Binding.entry := by
  induction bindings generalizing pieces with
  | nil =>
      cases h
      rfl
  | cons binding bindings ih =>
      obtain ⟨piece, pieces, hpiece, hpieces, rfl⟩ := List.forall₂_cons_left_iff.mp h
      rw [binding.tidy.trim_eq] at hpiece
      rw [List.filterMap_cons_some (binding.item?_of_trim hpiece), ih hpieces, List.map_cons]

theorem Script.entries_pattern (script : Script) :
    entries script.pattern = script.bindings.map Binding.entry := by
  by_cases hne : script.bindings = []
  · rw [Script.pattern, hne]
    rfl
  have htexts : script.bindings.map Binding.text ≠ [] := by simpa using hne
  have hpieces := splitTopLevel_listed script.isPiece_bindings htexts
    (by decide : isPlain ',' = true) (by decide) (by decide)
  rw [entries, Script.pattern, filterMap_entries hpieces]

/-! ## Defaults -/

theorem unquoted?_text (quoted : Quoted) : unquoted? quoted.text = some quoted.inner := by
  have hquote : (quoted.quote == '"' || quoted.quote == '\'' || quoted.quote == '\x60') = true := by
    rcases quoted.isQuote with hquote | hquote <;> rw [hquote] <;> decide
  rw [Quoted.text]
  generalize quoted.inner = inner
  cases inner with
  | nil => simp [unquoted?, hquote]
  | cons c inner => simp [unquoted?, hquote, List.getLast?_cons, List.dropLast_cons_of_ne_nil]

theorem textValue_cons (htidy : Text.Tidy (c :: rest)) (hc : c ≠ 't' ∧ c ≠ 'f' ∧ c ≠ 'n') :
    textValue (c :: rest) =
      match unquoted? (c :: rest) with
      | some inner => .string inner
      | none =>
          match if opensBracket (c :: rest) then Json.read? Json.nestingLimit (c :: rest)
            else none with
          | some value => value
          | none => quotedValue (c :: rest) := by
  have hwords : (c :: rest == "true".toList) = false ∧ (c :: rest == "false".toList) = false ∧
      (c :: rest == "null".toList) = false := by
    simp [hc]
  simp only [textValue, htidy.trim_eq, hwords.1, hwords.2.1, hwords.2.2]
  rfl

theorem textValue_number (htidy : Text.Tidy (c :: rest))
    (hc : c = '-' ∨ c.isDigit = true) : textValue (c :: rest) = quotedValue (c :: rest) := by
  have hplain : (c != 't' && c != 'f' && c != 'n' && c != '"' && c != '\'' && c != '\x60' &&
      c != '[' && c != '\x7b') = true := by
    rcases hc with rfl | hc
    · decide
    · exact Text.of_isDigit (p := fun c => c != 't' && c != 'f' && c != 'n' && c != '"' &&
        c != '\'' && c != '\x60' && c != '[' && c != '\x7b') (by decide) hc
  simp only [Bool.and_eq_true, bne_iff_ne] at hplain
  have hquote : unquoted? (c :: rest) = none := by
    cases rest <;> simp [unquoted?, hplain]
  have hbracket : opensBracket (c :: rest) = false := by simp [opensBracket, hplain]
  rw [textValue_cons htidy (by simp [hplain]), hquote, hbracket]
  rfl

theorem textValue_text (fallback : Default) : textValue fallback.text = fallback.value := by
  cases fallback with
  | boolean value => cases value <;> rfl
  | null => rfl
  | integer negative digits =>
      have htidy := (Default.integer negative digits).tidy
      rw [← quotedValue_integer]
      cases negative with
      | true => exact textValue_number htidy (.inl rfl)
      | false =>
          obtain ⟨c, rest, htext⟩ := List.exists_cons_of_ne_nil digits.ne_nil
          have hdigit : c.isDigit = true := by
            simpa using List.all_eq_true.mp digits.isDigit c (by simp [htext])
          change textValue digits.text = quotedValue digits.text
          change Text.Tidy digits.text at htidy
          rw [htext] at htidy ⊢
          exact textValue_number htidy (.inr hdigit)
  | string quoted =>
      have hquote : quoted.quote ≠ 't' ∧ quoted.quote ≠ 'f' ∧ quoted.quote ≠ 'n' := by
        rcases quoted.isQuote with hquote | hquote <;> rw [hquote] <;> decide
      refine (textValue_cons (Quoted.tidy quoted) hquote).trans ?_
      have hinner := unquoted?_text quoted
      rw [Quoted.text] at hinner
      rw [hinner]
      rfl

theorem addEntry_entry (binding : Binding) (api : ScriptApi) :
    addEntry {} api binding.entry = binding.declare api := by
  have hvalues : textValue ∘ Default.text = Default.value := funext textValue_text
  simp only [addEntry, Binding.entry, Binding.declare, Option.map_map, hvalues]
  rfl

theorem atLines_append {α : Type} {reader : Text → Option (α × Text)} (h : '\n' ∉ front)
    (rest : Text) :
    atLines reader false 0 (front ++ rest) = atLines reader false 0 rest := by
  induction front with
  | nil => rfl
  | cons c front ih =>
      rw [List.mem_cons, not_or] at h
      have hbreak : (c == '\n') = false := by simpa using Ne.symm h.1
      rw [List.cons_append, atLines, hbreak]
      exact ih h.2

theorem Script.foundFunctions_text (script : Script) : foundFunctions script.text = [] := by
  have hfirst : ∀ rest : Text, atLines functionAt? true 0 ("interface Props \x7b" ++ rest) =
      atLines functionAt? false 0 rest := fun _ => rfl
  have hsecond : ∀ rest : Text, atLines functionAt? false 0 ("\x7d\nlet \x7b" ++ rest) =
      atLines functionAt? false 0 rest := fun _ => rfl
  have hbody : '\n' ∉ script.body := script.not_mem_body (by decide) (by decide)
  have hpattern : '\n' ∉ script.pattern :=
    script.not_mem_pattern (by decide) (by decide) (by decide)
  rw [foundFunctions, script.text_eq, hfirst, atLines_append hbody, hsecond,
    atLines_append hpattern]
  rfl

theorem Script.ofText_eq (script : Script) : ScriptApi.ofText {} script.text = script.api := by
  have hbody : typeBody? ({} : Options).propsTypeName script.text = some script.body :=
    script.typeBody?_text
  have hpatterns : destructuredTexts ({} : Options).propsRune script.text = [script.pattern] :=
    script.destructuredTexts_text
  have hmembers : (memberTexts script.body).foldl (addMemberText {}) {} =
      script.members.foldl Member.declare {} := by
    rw [script.memberTexts_body, List.foldl_map]
    simp only [addMemberText_found]
  have hbindings : ∀ api, (entries script.pattern).foldl (addEntry {}) api =
      script.bindings.foldl Binding.declare api := by
    intro api
    rw [script.entries_pattern, List.foldl_map]
    simp only [addEntry_entry]
  rw [ScriptApi.ofText, hbody, hpatterns, script.foundFunctions_text, Script.api, ← hmembers,
    ← hbindings]
  simp only [List.flatMap_singleton]
  rfl

end ComponentDocs.Props
