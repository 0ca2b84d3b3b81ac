import ComponentDocs.Proofs.Fallback.Lines
import ComponentDocs.Proofs.Fallback.Runes

/-!
# Members that are recovered from their text

The type of a member may be written in any way, as long as its brackets are nested.  The
member is found with its name and its type, whatever blanks and separators stand around it.
-/

namespace ComponentDocs.Fallback

open ComponentDocs.Component

/-- The scans for the end of the body, for comments and for patterns pass over the text. -/
structure Passed (text : Text) : Prop where
  enclosed : Enclosed text
  kept : ∀ rest, stripLongComments 0 (text ++ rest) = text ++ stripLongComments 0 rest
  unassigned : ∀ rest, assigns "$props" rest = false → assigns "$props" (text ++ rest) = false

theorem Passed.append {first second : Text} (hfirst : Passed first) (hsecond : Passed second) :
    Passed (first ++ second) where
  enclosed := hfirst.enclosed.append hsecond.enclosed
  kept rest := by rw [List.append_assoc, hfirst.kept, hsecond.kept, List.append_assoc]
  unassigned rest hrest := by
    rw [List.append_assoc]
    exact hfirst.unassigned _ (hsecond.unassigned rest hrest)

theorem stripLongComments_append {text : Text} (h : '/' ∉ text) (rest : Text) :
    stripLongComments 0 (text ++ rest) = text ++ stripLongComments 0 rest := by
  induction text with
  | nil => rfl
  | cons c text ih =>
      rw [List.mem_cons, not_or] at h
      have hcomment : Text.after? "/*" (c :: (text ++ rest)) = none := by
        simp [Text.after?, h.1]
      rw [List.cons_append, stripLongComments, hcomment, ih h.2]
      rfl

theorem assigns_append {function text : Text} (h : '=' ∉ text) {rest : Text}
    (hrest : assigns function rest = false) : assigns function (text ++ rest) = false := by
  induction text with
  | nil => exact hrest
  | cons c text ih =>
      rw [List.mem_cons, not_or] at h
      simp [assigns, Ne.symm h.1, ih h.2]

def scannedMarks : List Char :=
  ['"', '\'', '\x60', '(', '[', '\x7b', '<', ')', ']', '\x7d', '>', '/', '=']

variable {c : Char} {gap : Text}

theorem isPlain_of_not_mem (h : c ∉ scannedMarks) : isPlain c = true := by
  simp only [scannedMarks, List.mem_cons, List.not_mem_nil, or_false, not_or] at h
  simp [isPlain, isQuote, opensGroup, closesGroup, h]

theorem isPlain_of_separatesMembers (c : Char) (h : separatesMembers c = true) :
    isPlain c = true := by
  simp only [separatesMembers, Bool.or_eq_true, beq_iff_eq] at h
  rcases h with (rfl | rfl) | rfl <;> rfl

theorem Passed.of_forall {text : Text} (h : ∀ c ∈ text, c ∉ scannedMarks) : Passed text where
  enclosed := .of_all (List.all_eq_true.mpr fun c hc => isPlain_of_not_mem (h c hc))
  kept := stripLongComments_append fun hc => h _ hc (by decide)
  unassigned _ := assigns_append fun hc => h _ hc (by decide)

theorem not_mem_scannedMarks_of_isGap (h : isGap c = true) : c ∉ scannedMarks := by
  have hmarks : ∀ mark ∈ scannedMarks, isGap mark = false := by decide
  intro hmem
  rw [hmarks c hmem] at h
  contradiction

theorem Passed.of_isGap (h : gap.all isGap = true) : Passed gap :=
  .of_forall fun c hc => not_mem_scannedMarks_of_isGap (List.all_eq_true.mp h c hc)

structure Gap where
  text : Text
  isBlank : Text.isBlank text = true

theorem Gap.all_isGap (gap : Gap) : gap.text.all isGap = true := by
  rw [List.all_eq_true]
  intro c hc
  simp [isGap, List.all_eq_true.mp gap.isBlank c hc]

structure Separator where
  before : Gap
  mark : Char
  isMark : mark = ';' ∨ mark = '\n'
  after : Gap

def Separator.text (separator : Separator) : Text :=
  separator.before.text ++ separator.mark :: separator.after.text

theorem Separator.separatesMembers_mark (separator : Separator) :
    separatesMembers separator.mark = true := by
  rcases separator.isMark with hmark | hmark <;> rw [hmark] <;> decide

theorem Separator.all_isGap (separator : Separator) : separator.text.all isGap = true := by
  have hmark : isGap separator.mark = true := by simp [isGap, separator.separatesMembers_mark]
  simp [Separator.text, separator.before.all_isGap, separator.after.all_isGap, hmark]

def readPieces (lines : MemberLines) (text : Text) : MemberLines :=
  (splitTopLevel separatesMembers text).foldl MemberLines.addPiece lines

theorem addPiece_congr {piece other : Text} (h : Text.trim piece = Text.trim other)
    (lines : MemberLines) : lines.addPiece piece = lines.addPiece other := by
  simp only [MemberLines.addPiece, h]

theorem isPiece_blank (hc : isGap c = true) (hseparator : separatesMembers c = false) {text : Text}
    (h : IsPiece separatesMembers text) :
    IsPiece separatesMembers (text ++ [c]) ∧ Text.trim (text ++ [c]) = Text.trim text := by
  have hplain := isPlain_of_not_mem (not_mem_scannedMarks_of_isGap hc)
  have hspace : Text.isSpace c = true := by simpa [isGap, hseparator] using hc
  refine ⟨h.append (.of_all (by simp [hplain, hseparator])), ?_⟩
  simpa using Text.trim_around [] text [c] rfl (by simpa [Text.isBlank] using hspace)

theorem splitTopLevel_mark (hc : separatesMembers c = true) {text : Text}
    (h : IsPiece separatesMembers text) (rest : Text) :
    splitTopLevel separatesMembers (text ++ c :: rest) =
      text :: splitTopLevel separatesMembers rest :=
  splitTopLevel_cons h (isPlain_of_separatesMembers c hc) hc rest

theorem readPieces_gap (lines : MemberLines) (hgap : gap.all isGap = true)
    (rest : Text) : readPieces lines (gap ++ rest) = readPieces lines rest := by
  have hempty : IsPiece separatesMembers [] := .nil
  have hnothing : lines.addPiece [] = lines := rfl
  induction gap with
  | nil => rfl
  | cons c gap ih =>
      rw [List.all_cons, Bool.and_eq_true] at hgap
      rw [← ih hgap.2]
      cases hc : separatesMembers c with
      | true =>
          have hcut := splitTopLevel_mark hc hempty (gap ++ rest)
          rw [List.nil_append] at hcut
          rw [readPieces, List.cons_append, hcut, List.foldl_cons, hnothing]
          rfl
      | false =>
          obtain ⟨hpiece, -⟩ := isPiece_blank hgap.1 hc hempty
          obtain ⟨piece, pieces, hpieces⟩ := List.exists_cons_of_ne_nil
            (piecesFrom_ne_nil separatesMembers 0 none none (gap ++ rest))
          have hspace : Text.isSpace c = true := by simpa [isGap, hc] using hgap.1
          have htrim : Text.trim (c :: piece) = Text.trim piece := by
            simpa using Text.trim_around [c] piece [] (by simpa [Text.isBlank] using hspace) rfl
          have hcons := hpiece.splitTopLevel_append (gap ++ rest)
          rw [← splitTopLevel] at hpieces
          rw [hpieces] at hcons
          rw [readPieces, readPieces, hpieces]
          refine (congrArg (List.foldl _ _) hcons).trans ?_
          simp [consPiece, addPiece_congr htrim]

theorem readPieces_append (hgap : gap.all isGap = true) (hmark : gap.any separatesMembers = true)
    (lines : MemberLines) {text : Text} (h : IsPiece separatesMembers text) (rest : Text) :
    readPieces lines (text ++ (gap ++ rest)) = readPieces (lines.addPiece text) rest := by
  induction gap generalizing text with
  | nil => contradiction
  | cons c gap ih =>
      rw [List.all_cons, Bool.and_eq_true] at hgap
      cases hc : separatesMembers c with
      | true =>
          rw [readPieces, List.cons_append, splitTopLevel_mark hc h, List.foldl_cons]
          exact readPieces_gap _ hgap.2 rest
      | false =>
          obtain ⟨hpiece, htrim⟩ := isPiece_blank hgap.1 hc h
          have hrest := ih hgap.2 (by simpa [hc] using hmark) hpiece
          rw [addPiece_congr htrim] at hrest
          simpa using hrest

theorem readPieces_last (hgap : gap.all isGap = true) (lines : MemberLines) {text : Text}
    (h : IsPiece separatesMembers text) :
    readPieces lines (text ++ gap) = lines.addPiece text := by
  induction gap generalizing text with
  | nil =>
      rw [List.append_nil, readPieces, h.unparted.splitTopLevel_eq, List.foldl_cons, List.foldl_nil]
  | cons c gap ih =>
      rw [List.all_cons, Bool.and_eq_true] at hgap
      cases hc : separatesMembers c with
      | true =>
          rw [readPieces, splitTopLevel_mark hc h, List.foldl_cons]
          have hrest := readPieces_gap (lines.addPiece text) hgap.2 []
          rwa [List.append_nil] at hrest
      | false =>
          obtain ⟨hpiece, htrim⟩ := isPiece_blank hgap.1 hc h
          have hrest := ih hgap.2 hpiece
          rw [addPiece_congr htrim] at hrest
          simpa using hrest

def hasArrowsOnly : Text → Bool
  | [] => true
  | c :: rest => (c != '=' || rest.head? == some '>') && hasArrowsOnly rest

def openEnds : List Text :=
  ["|", "&", ":", "=>"]

/-- The text of a type, with single spaces and without anything that would end it early. -/
structure TypeText where
  text : Text
  ne_nil : text ≠ []
  isNormal : Text.normalize text = text
  isNested : isNested (isInline separatesMembers) text = true
  noSlash : '/' ∉ text
  noAssignment : hasArrowsOnly text = true
  start : ∀ c ∈ text.head?, c ≠ '|' ∧ c ≠ '&'
  stop : ∀ ending ∈ openEnds, ¬ending <:+ text

namespace TypeText

variable (type : TypeText)

theorem tidy : Text.Tidy type.text :=
  Text.tidy_of_normalize type.isNormal type.ne_nil

theorem isPiece : IsPiece separatesMembers type.text :=
  .of_isInline type.isNested isPlain_of_separatesMembers

theorem assigns_append {text rest : Text} (h : hasArrowsOnly text = true)
    (hrest : assigns "$props" rest = false) : assigns "$props" (text ++ rest) = false := by
  induction text with
  | nil => exact hrest
  | cons c text ih =>
      rw [hasArrowsOnly, Bool.and_eq_true, Bool.or_eq_true, bne_iff_ne, beq_iff_eq] at h
      obtain ⟨hc, htext⟩ := h
      rw [List.cons_append, assigns, ih htext, Bool.or_false]
      rcases hc with hc | hc
      · simp [hc]
      · obtain ⟨more, rfl⟩ : ∃ more, text = '>' :: more := by
          cases text with
          | nil => cases hc
          | cons d more =>
              cases hc
              exact ⟨more, rfl⟩
        have harrow : List.isPrefixOf ("$props" : Text)
            (Text.trimStart ('>' :: more ++ rest)) = false := rfl
        rw [harrow, Bool.and_false]

theorem passed : Passed type.text where
  enclosed := .of_isNested type.isNested (by decide)
  kept := stripLongComments_append type.noSlash
  unassigned _ := assigns_append type.noAssignment

theorem cleanType_text : cleanType (' ' :: type.text) = type.text := by
  have hend : Text.dropEndWhile (fun c => c == ';' || c == ',') type.text = type.text := by
    refine Text.dropEndWhile_of_getLast? fun c hc => ?_
    have hlast := getLast?_of_isNested type.isNested c hc
    rw [Bool.eq_false_iff]
    intro hmark
    rw [Bool.or_eq_true, beq_iff_eq, beq_iff_eq] at hmark
    rcases hmark with rfl | rfl <;> exact absurd hlast (by decide)
  have hbar : type.text.dropWhile (· == '|') = type.text :=
    Text.dropWhile_of_head? fun c hc => beq_eq_false_iff_ne.mpr (type.start c hc).1
  rw [cleanType, type.tidy.trim_space, hend, hbar, type.isNormal]

end TypeText

/-! ## Members -/

structure Member where
  isReadonly : Bool
  name : Text
  isName : (!name.isEmpty && name.all Text.continuesIdentifier) = true
  optional : Bool
  type : TypeText

namespace Member

variable (member : Member)

def mark : Char :=
  if member.optional then '?' else ':'

def tail : Text :=
  (if member.optional then (": " : Text) else " ") ++ member.type.text

def plainText : Text :=
  member.name ++ member.mark :: member.tail

def text : Text :=
  (if member.isReadonly then ("readonly " : Text) else []) ++ member.plainText

def isRecognized : Bool :=
  member.name.head?.any Text.startsIdentifier

variable {member} in
theorem text_of_plain (h : member.isReadonly = false) : member.text = member.plainText := by
  rw [text, h]
  rfl

variable {member} in
theorem text_of_readonly (h : member.isReadonly = true) :
    member.text = "readonly " ++ member.plainText := by
  rw [text, h]
  rfl

theorem named : Named member.name member.mark := by
  have hname := member.isName
  rw [Bool.and_eq_true, Bool.not_eq_true', List.isEmpty_eq_false_iff] at hname
  refine ⟨hname.1, List.all_eq_true.mp hname.2, ?_⟩
  unfold mark
  split <;> simp

theorem tidy_plainText : Text.Tidy member.plainText := by
  have hname : Text.Tidy member.name :=
    .of_all member.named.ne_nil fun _ => member.named.isSpace_eq_false
  have hmark : ∀ marks : Text, marks ≠ [] → (∀ c ∈ marks, Text.isSpace c = false) →
      Text.Tidy (member.name ++ (marks ++ ' ' :: member.type.text)) := by
    intro marks hne hmarks
    rw [← List.append_assoc]
    exact (hname.append (.of_all hne hmarks)).append_space member.type.tidy
  unfold plainText mark tail
  cases member.optional with
  | false => exact hmark ":" (by decide) (by decide)
  | true => exact hmark "?:" (by decide) (by decide)

theorem tidy_text : Text.Tidy member.text := by
  have hreadonly : Text.Tidy ("readonly" : Text) := .of_all (by decide) (by decide)
  unfold text
  split
  · exact hreadonly.append_space member.tidy_plainText
  · exact member.tidy_plainText

theorem typeBehindColon?_type : typeBehindColon? (": " ++ member.type.text) =
    some member.type.text := by
  change some (cleanType (' ' :: member.type.text)) = _
  rw [member.type.cleanType_text]

theorem memberName?_plainText :
    memberName? member.plainText =
      if member.isRecognized then some (member.name, member.mark :: member.tail) else none := by
  have hname := member.named
  obtain ⟨first, rest, hfirst⟩ := List.exists_cons_of_ne_nil hname.ne_nil
  have hquote : isPlainQuote first = false := by
    rw [Bool.eq_false_iff]
    intro hquote
    rw [isPlainQuote, Bool.or_eq_true, beq_iff_eq, beq_iff_eq] at hquote
    have hmem : first ∈ member.name := by simp [hfirst]
    rcases hquote with rfl | rfl <;> exact absurd hmem (hname.not_mem (by decide))
  rw [isRecognized, ← hname.identifier?_eq, plainText, hfirst, List.cons_append, memberName?,
    hquote]
  rfl

theorem plainProperty?_plainText :
    plainProperty? member.plainText =
      if member.isRecognized then some ⟨member.name, member.optional, member.type.text⟩
      else none := by
  have htype := member.typeBehindColon?_type
  rw [plainProperty?, memberName?_plainText]
  cases member.isRecognized with
  | false => rfl
  | true =>
      unfold mark tail
      cases member.optional <;> simpa [optionalMark] using htype

theorem exists_plainText :
    ∃ first rest, member.plainText = first :: rest ∧ Text.continuesIdentifier first = true := by
  obtain ⟨first, rest, hfirst⟩ := List.exists_cons_of_ne_nil member.named.ne_nil
  exact ⟨first, rest ++ member.mark :: member.tail, by simp [plainText, hfirst],
    member.named.continues first (by simp [hfirst])⟩

/-- A name that is not recognized is none behind a modifier either: the modifier is then
taken for a name, and neither a type nor parameters follow. -/
theorem readonly_eq_none :
    plainProperty? ("readonly " ++ member.plainText) = none ∧
      method? ("readonly " ++ member.plainText) = none := by
  have hproperty : plainProperty? ("readonly " ++ member.plainText) =
      (typeBehindColon? (' ' :: member.plainText)).map fun type => ⟨"readonly", false, type⟩ := rfl
  have htrim : Text.trimStart (' ' :: member.plainText) = member.plainText :=
    member.named.trimStart_append (List.nil_append _).symm member.tail
  obtain ⟨first, rest, hfirst, hpart⟩ := member.exists_plainText
  have hmarks : first ≠ ':' ∧ '(' ≠ first := by
    constructor <;> rintro rfl <;> contradiction
  constructor
  · rw [hproperty, typeBehindColon?, htrim, hfirst]
    simp [hmarks.1]
  · have hidentifier : Text.identifier? ("readonly " ++ member.plainText) =
        some (("readonly" : Text), ' ' :: member.plainText) := rfl
    have hparenthesis : Text.after? "(" (Text.trimStart (' ' :: member.plainText)) = none := by
      rw [htrim, hfirst]
      simp [Text.after?, hmarks.2]
    rw [method?, hidentifier, Option.bind_some]
    exact congrArg (Option.bind · _) hparenthesis

theorem property?_text :
    property? member.text =
      if member.isRecognized then some ⟨member.name, member.optional, member.type.text⟩
      else none := by
  have hplain := member.plainProperty?_plainText
  cases hreadonly : member.isReadonly with
  | false =>
      have hblanks := member.named.afterBlanks?_eq_none "readonly" (by decide) member.tail
      rw [text_of_plain hreadonly, property?, plainText, hblanks]
      exact hplain
  | true =>
      have hafter : Text.after? "readonly" ("readonly " ++ member.plainText) =
          some (' ' :: member.plainText) := Text.after?_eq_some_iff.mpr rfl
      have htrim : Text.trimStart member.plainText = member.plainText :=
        member.named.trimStart_append (List.nil_append _).symm member.tail
      have hblanks : Text.afterBlanks? (' ' :: member.plainText) = some member.plainText :=
        congrArg some htrim
      rw [text_of_readonly hreadonly, property?, hafter, Option.bind_some, hblanks,
        Option.bind_some, hplain]
      cases member.isRecognized with
      | true => rfl
      | false => exact member.readonly_eq_none.1

theorem member?_text :
    member? member.text =
      if member.isRecognized then some ⟨member.name, member.optional, member.type.text⟩
      else none := by
  rw [member?, property?_text]
  cases hrecognized : member.isRecognized with
  | true => rfl
  | false =>
      cases hreadonly : member.isReadonly with
      | true =>
          rw [text_of_readonly hreadonly]
          exact member.readonly_eq_none.2
      | false =>
          have hnone : Text.identifier? member.plainText = none := by
            rw [plainText, member.named.identifier?_eq, ← isRecognized, hrecognized]
            rfl
          rw [text_of_plain hreadonly, method?, hnone]
          rfl

/-! ## Scanning a member -/

def front : Text :=
  (if member.isReadonly then ("readonly " : Text) else []) ++
    (member.name ++ if member.optional then ("?: " : Text) else ": ")

theorem text_eq : member.text = member.front ++ member.type.text := by
  unfold text plainText front mark tail
  rw [List.append_assoc, List.append_assoc]
  cases member.optional <;> rfl

theorem not_mem_front (hc : c ∈ scannedMarks ++ [';', ',', '\n']) :
    c ∉ member.front := by
  have hname : ∀ mark ∈ scannedMarks ++ [';', ',', '\n'],
      Text.continuesIdentifier mark = false ∧ mark ∉ ("readonly " : Text) ∧
        mark ∉ ("?: " : Text) := by decide
  obtain ⟨hname, hreadonly, hmarks⟩ := hname c hc
  unfold front
  rw [List.mem_append, List.mem_append, not_or, not_or]
  refine ⟨?_, member.named.not_mem hname, ?_⟩
  · split
    · exact hreadonly
    · exact List.not_mem_nil
  · split
    · exact hmarks
    · exact fun hmem => hmarks (List.mem_cons_of_mem _ hmem)

theorem isPiece : IsPiece separatesMembers member.text := by
  rw [text_eq]
  refine IsPiece.append (.of_all (List.all_eq_true.mpr fun c hc => ?_)) member.type.isPiece
  have hplain : isPlain c = true := isPlain_of_not_mem fun hmem =>
    member.not_mem_front (List.mem_append_left _ hmem) hc
  have hmarks : c ∉ [';', ',', '\n'] := fun hmem =>
    member.not_mem_front (List.mem_append_right _ hmem) hc
  simp only [List.mem_cons, List.not_mem_nil, or_false, not_or] at hmarks
  simp [hplain, separatesMembers, hmarks]

theorem passed : Passed member.text := by
  rw [text_eq]
  exact Passed.append (.of_forall fun c hc hmem =>
    member.not_mem_front (List.mem_append_left _ hmem) hc) member.type.passed

theorem isUnfinished_text : isUnfinished member.text = false := by
  obtain ⟨front, hfront⟩ : ∃ front, member.text = front ++ ' ' :: member.type.text := by
    rw [text_eq, Member.front]
    cases member.optional with
    | false => exact ⟨_ ++ (member.name ++ [':']), by simp only [List.append_assoc]; rfl⟩
    | true => exact ⟨_ ++ (member.name ++ ['?', ':']), by simp only [List.append_assoc]; rfl⟩
  rw [isUnfinished, List.any_eq_false]
  intro ending hending hsuffix
  rw [List.isSuffixOf_iff_suffix, hfront] at hsuffix
  have hspace : ∀ ending ∈ openEnds, ' ' ∉ ending := by decide
  rcases List.suffix_or_suffix_of_suffix hsuffix (List.suffix_append front _) with hshort | hlong
  · rcases List.suffix_cons_iff.mp hshort with heq | htype
    · exact hspace ending hending (by simp [heq])
    · exact member.type.stop ending hending htype
  · exact hspace ending hending (hlong.subset (by simp))

theorem head?_text : ∀ c ∈ member.text.head?, Text.continuesIdentifier c = true := by
  intro c hc
  cases hreadonly : member.isReadonly with
  | true =>
      rw [text_of_readonly hreadonly] at hc
      cases hc
      decide
  | false =>
      obtain ⟨first, rest, hfirst, hpart⟩ := member.exists_plainText
      rw [text_of_plain hreadonly, hfirst] at hc
      cases hc
      exact hpart

theorem addPiece_text {lines : MemberLines}
    (hlines : ∀ last ∈ lines.reversed, isUnfinished last.text = false) :
    lines.addPiece member.text = ⟨⟨member.text, lines.pending⟩ :: lines.reversed, none⟩ := by
  have hslash : '/' ∉ member.text := by
    rw [text_eq, List.mem_append, not_or]
    exact ⟨member.not_mem_front (by decide), member.type.noSlash⟩
  have hdoc : Text.after? "/**" member.text = none := Text.after?_eq_none (by decide) hslash
  obtain ⟨first, rest, hfirst, hspace⟩ := member.tidy_text.exists_cons
  have hmemberless : isMemberless member.text = false := by
    have hne : member.text.isEmpty = false := by simp [hfirst]
    rw [isMemberless, hne, Text.isPrefixOf_eq_false (by decide : '/' ∈ "//".toList) hslash,
      Text.isPrefixOf_eq_false (by decide : '/' ∈ "/*".toList) hslash]
    rfl
  have hcontinuation : isContinuation member.text = false := by
    have hpart := member.head?_text first (by simp [hfirst])
    rw [isContinuation, hfirst, Bool.or_eq_false_iff, beq_eq_false_iff_ne, beq_eq_false_iff_ne]
    constructor <;> rintro ⟨⟩ <;> contradiction
  have hcomment : cutLineComment member.text = member.text := by
    rw [cutLineComment, Text.cut?_eq_none (by decide : '/' ∈ "//".toList) hslash]
  simp only [MemberLines.addPiece, member.tidy_text.trim_eq, hdoc, hmemberless, MemberLines.add]
  cases hreversed : lines.reversed with
  | nil => simp [hcomment]
  | cons last earlier => simp [hcontinuation, hlines last (by simp [hreversed]), hcomment]

theorem not_mem_newline : '\n' ∉ member.text :=
  member.tidy_text.not_mem_newline

theorem reader_eq_none {α : Type} {reader : Text → Option (α × Text)} (h : LineReader reader)
    (rest : Text) : reader (member.text ++ rest) = none := by
  cases hreadonly : member.isReadonly with
  | true =>
      rw [text_of_readonly hreadonly]
      exact h.other 'r' _ rfl (by decide)
  | false =>
      rw [text_of_plain hreadonly, plainText, List.append_assoc]
      exact h.named member.named _

end Member

end ComponentDocs.Fallback
