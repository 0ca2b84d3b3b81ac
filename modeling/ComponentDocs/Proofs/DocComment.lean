import ComponentDocs.DocComment
import ComponentDocs.Proofs.Text.Lines

/-!
# Reading documentation comments back

A comment is written from a draft: lines of free text, then tags, each with the lines that
continue it.  What is read from the written comment is what the draft says, wherever blank
lines were put in.
-/

namespace ComponentDocs.DocComment

open Text (isBlank isSpace trim)

/-- A text for a part of a line: not empty and without blanks at its ends. -/
structure IsPhrase (text : Text) : Prop where
  ne_nil : text ≠ []
  trim_eq : trim text = text
  onLine : '\n' ∉ text

instance (text : Text) : Decidable (IsPhrase text) :=
  decidable_of_iff (text ≠ [] ∧ trim text = text ∧ '\n' ∉ text)
    ⟨fun ⟨hne, htrim, hline⟩ => ⟨hne, htrim, hline⟩, fun h => ⟨h.ne_nil, h.trim_eq, h.onLine⟩⟩

structure FreeLine where
  text : Text
  isPhrase : IsPhrase text
  plain : text.head? ≠ some '@'

structure WrittenType where
  text : Text
  isPhrase : IsPhrase text
  closed : '\x7d' ∉ text

structure WrittenName where
  text : Text
  ne_nil : text ≠ []
  plain : ∀ c ∈ text, isSpace c = false ∧ c ∉ ['[', ']', '=', '\x7b']

structure WrittenDescription where
  text : Text
  isPhrase : IsPhrase text
  plain : text.head? ≠ some '-'

structure UnrelatedTag where
  text : Text
  trim_eq : trim ('@' :: text) = '@' :: text
  onLine : '\n' ∉ text
  notParameter : isParameterWord (text.takeWhile fun c => !isSpace c) = false
  notResult : isResultWord (text.takeWhile fun c => !isSpace c) = false

inductive Tag where
  | parameter (word : Text) (isWord : isParameterWord word = true) (typeHint : Option WrittenType)
      (name : WrittenName) (description : WrittenDescription)
  | result (word : Text) (isWord : isResultWord word = true) (type : WrittenType)
  | unrelated (tag : UnrelatedTag)

structure Entry where
  tag : Tag
  more : List FreeLine

structure Draft where
  summary : List FreeLine
  entries : List Entry

def braced (type : Text) : Text :=
  '\x7b' :: (type ++ ['\x7d'])

def parameterText (typeHint : Option WrittenType) (name description : Text) : Text :=
  match typeHint with
  | none => name ++ ' ' :: description
  | some type => braced type.text ++ ' ' :: (name ++ ' ' :: description)

def Tag.text : Tag → Text
  | .parameter word _ typeHint name description =>
      word ++ ' ' :: parameterText typeHint name.text description.text
  | .result word _ type => word ++ ' ' :: braced type.text
  | .unrelated tag => tag.text

def Entry.lines (entry : Entry) : List Text :=
  ('@' :: entry.tag.text) :: entry.more.map FreeLine.text

def Draft.lines (draft : Draft) : List Text :=
  draft.summary.map FreeLine.text ++ draft.entries.flatMap Entry.lines

structure IsGap (gap : Text) : Prop where
  isBlank : isBlank gap = true
  onLine : '\n' ∉ gap

instance (gap : Text) : Decidable (IsGap gap) :=
  decidable_of_iff (Text.isBlank gap = true ∧ '\n' ∉ gap)
    ⟨fun ⟨hblank, hline⟩ => ⟨hblank, hline⟩, fun h => ⟨h.isBlank, h.onLine⟩⟩

/-- Lines as they are written in a comment: each behind a star, and blank lines anywhere. -/
inductive Guttered : List Text → List Text → Prop
  | nil : Guttered [] []
  | line (indent gap : Text) {text : Text} {content raw : List Text} : IsGap indent → IsGap gap →
      Guttered content raw → Guttered (text :: content) ((indent ++ '*' :: (gap ++ text)) :: raw)
  | star (indent gap : Text) {content raw : List Text} : IsGap indent → IsGap gap →
      Guttered content raw → Guttered content ((indent ++ '*' :: gap) :: raw)
  | blank (indent : Text) {content raw : List Text} : IsGap indent →
      Guttered content raw → Guttered content (indent :: raw)

def Entry.parameter? (entry : Entry) : Option ParameterTag :=
  match entry.tag with
  | .parameter _ _ typeHint name description =>
      some
        { name := name.text
          typeHint := typeHint.map WrittenType.text
          description :=
            some (Text.join " " (description.text :: entry.more.map FreeLine.text)) }
  | _ => none

def Entry.resultType? (entry : Entry) : Option Text :=
  match entry.tag with
  | .result _ _ type => some type.text
  | _ => none

def Draft.doc (draft : Draft) : DocComment where
  summary :=
    if draft.summary.isEmpty then none
    else some (Text.join " " (draft.summary.map FreeLine.text))
  parameters := draft.entries.filterMap Entry.parameter?
  resultType := (draft.entries.filterMap Entry.resultType?).getLast?

variable {description line word : Text}

section Phrases

variable {text first second : Text}

theorem IsPhrase.head (h : IsPhrase text) : ∀ c ∈ text.head?, isSpace c = false :=
  (Text.trim_eq_self_iff.mp h.trim_eq).1

theorem IsPhrase.last (h : IsPhrase text) : ∀ c ∈ text.getLast?, isSpace c = false :=
  (Text.trim_eq_self_iff.mp h.trim_eq).2

theorem IsPhrase.trimStart_eq (h : IsPhrase text) : Text.trimStart text = text :=
  Text.dropWhile_of_head? h.head

theorem isPhrase_of_spaceless (hne : text ≠ []) (h : ∀ c ∈ text, isSpace c = false) :
    IsPhrase text where
  ne_nil := hne
  trim_eq := Text.trim_eq_self_iff.mpr
    ⟨fun c hc => h c (List.mem_of_head? hc), fun c hc => h c (List.mem_of_getLast? hc)⟩
  onLine hbreak := absurd (h '\n' hbreak) (by decide)

theorem IsPhrase.append (hfirst : IsPhrase first) (hsecond : IsPhrase second) :
    IsPhrase (first ++ second) where
  ne_nil := List.append_ne_nil_of_left_ne_nil hfirst.ne_nil _
  trim_eq := by
    rw [Text.trim_eq_self_iff, List.head?_append_of_ne_nil _ hfirst.ne_nil,
      List.getLast?_append_of_ne_nil _ hsecond.ne_nil]
    exact ⟨hfirst.head, hsecond.last⟩
  onLine := by
    rw [List.mem_append, not_or]
    exact ⟨hfirst.onLine, hsecond.onLine⟩

theorem IsPhrase.append_space (hfirst : IsPhrase first) (hsecond : IsPhrase second) :
    IsPhrase (first ++ ' ' :: second) where
  ne_nil := List.append_ne_nil_of_left_ne_nil hfirst.ne_nil _
  trim_eq := by
    rw [Text.trim_eq_self_iff, List.head?_append_of_ne_nil _ hfirst.ne_nil,
      List.getLast?_append_of_ne_nil _ (List.cons_ne_nil _ _),
      List.getLast?_cons_of_ne_nil hsecond.ne_nil]
    exact ⟨hfirst.head, hsecond.last⟩
  onLine := by
    rw [List.mem_append, List.mem_cons, not_or, not_or]
    exact ⟨hfirst.onLine, by decide, hsecond.onLine⟩

theorem IsPhrase.join (h : IsPhrase text) (others : List FreeLine) :
    IsPhrase (Text.join " " (text :: others.map FreeLine.text)) := by
  induction others generalizing text with
  | nil => exact h
  | cons next others ih => simpa [Text.join] using h.append_space (ih next.isPhrase)

theorem IsPhrase.braced (h : IsPhrase text) : IsPhrase (braced text) := by
  have hopen : IsPhrase ['\x7b'] := isPhrase_of_spaceless (by decide) (by decide)
  have hclose : IsPhrase ['\x7d'] := isPhrase_of_spaceless (by decide) (by decide)
  exact hopen.append (h.append hclose)

theorem WrittenType.isPhrase_braced (type : WrittenType) : IsPhrase (braced type.text) :=
  type.isPhrase.braced

theorem WrittenName.isPhrase (name : WrittenName) : IsPhrase name.text :=
  isPhrase_of_spaceless name.ne_nil fun c hc => (name.plain c hc).1

theorem isPhrase_parameterText (typeHint : Option WrittenType) (name : WrittenName)
    (h : IsPhrase description) :
    IsPhrase (parameterText typeHint name.text description) := by
  have hname := name.isPhrase.append_space h
  cases typeHint with
  | none => exact hname
  | some type => exact type.isPhrase_braced.append_space hname

theorem spaceless_of_isParameterWord (h : isParameterWord word = true) :
    ∀ c ∈ word, isSpace c = false := by
  simp only [isParameterWord, Bool.or_eq_true, beq_iff_eq] at h
  rcases h with (rfl | rfl) | rfl <;> decide

theorem spaceless_of_isResultWord (h : isResultWord word = true) :
    ∀ c ∈ word, isSpace c = false := by
  simp only [isResultWord, Bool.or_eq_true, beq_iff_eq] at h
  rcases h with rfl | rfl <;> decide

theorem isPhrase_tagged (hword : ∀ c ∈ word, isSpace c = false)
    (h : IsPhrase text) : IsPhrase ('@' :: (word ++ ' ' :: text)) := by
  have hmark : IsPhrase ('@' :: word) := by
    apply isPhrase_of_spaceless (List.cons_ne_nil _ _)
    rw [List.forall_mem_cons]
    exact ⟨by decide, hword⟩
  exact hmark.append_space h

theorem Tag.isPhrase : (tag : Tag) → IsPhrase ('@' :: tag.text)
  | .parameter _ hword typeHint name description =>
      isPhrase_tagged (spaceless_of_isParameterWord hword)
        (isPhrase_parameterText typeHint name description.isPhrase)
  | .result _ hword type =>
      isPhrase_tagged (spaceless_of_isResultWord hword) type.isPhrase_braced
  | .unrelated tag =>
      ⟨List.cons_ne_nil _ _, tag.trim_eq, by simpa [Tag.text] using tag.onLine⟩

theorem Draft.isPhrase_of_mem_lines {draft : Draft} (h : line ∈ draft.lines) :
    IsPhrase line := by
  rw [Draft.lines, List.mem_append, List.mem_map, List.mem_flatMap] at h
  rcases h with ⟨free, -, rfl⟩ | ⟨entry, -, hline⟩
  · exact free.isPhrase
  · rw [Entry.lines, List.mem_cons, List.mem_map] at hline
    rcases hline with rfl | ⟨free, -, rfl⟩
    · exact entry.tag.isPhrase
    · exact free.isPhrase

end Phrases

section Gutters

variable {indent gap text : Text}

theorem stripGutter_congr {other : Text} (h : trim line = trim other) :
    stripGutter line = stripGutter other := by
  rw [stripGutter, stripGutter, h]

theorem stripGutter_line (hindent : IsGap indent) (hgap : IsGap gap) (h : IsPhrase text) :
    stripGutter (indent ++ '*' :: (gap ++ text)) = text := by
  have hlast : ('*' :: (gap ++ text)).getLast? = text.getLast? := by
    rw [← List.cons_append, List.getLast?_append_of_ne_nil _ h.ne_nil]
  have htrimmed : trim ('*' :: (gap ++ text)) = '*' :: (gap ++ text) := by
    rw [Text.trim_eq_self_iff, hlast]
    exact ⟨by rintro c ⟨⟩; decide, h.last⟩
  have htrim := Text.trim_around indent ('*' :: (gap ++ text)) [] hindent.isBlank rfl
  rw [List.append_nil, htrimmed] at htrim
  rw [stripGutter, htrim]
  exact Text.trimStart_eq_iff.mpr ⟨gap, hgap.isBlank, rfl, h.head⟩

theorem stripGutter_star (hindent : IsGap indent) (hgap : IsGap gap) :
    stripGutter (indent ++ '*' :: gap) = [] :=
  stripGutter_congr (Text.trim_around indent ['*'] gap hindent.isBlank hgap.isBlank)

theorem stripGutter_blank (hindent : IsGap indent) : stripGutter indent = [] := by
  have htrim := Text.trim_around indent [] [] hindent.isBlank rfl
  exact stripGutter_congr (by simpa using htrim)

def visible (raw : List Text) : List Text :=
  (raw.map stripGutter).filter fun line => !line.isEmpty

theorem visible_cons (line : Text) (raw : List Text) :
    visible (line :: raw) =
      if (stripGutter line).isEmpty then visible raw else stripGutter line :: visible raw := by
  rw [visible, List.map_cons, List.filter_cons]
  cases (stripGutter line).isEmpty <;> rfl

theorem visible_append (raw more : List Text) :
    visible (raw ++ more) = visible raw ++ visible more := by
  rw [visible, List.map_append, List.filter_append]
  rfl

variable {raw : List Text}

theorem Guttered.visible_eq {content : List Text} (h : Guttered content raw)
    (hcontent : ∀ line ∈ content, IsPhrase line) : visible raw = content := by
  induction h with
  | nil => rfl
  | line _ _ hindent hgap _ ih =>
      rw [List.forall_mem_cons] at hcontent
      rw [visible_cons, stripGutter_line hindent hgap hcontent.1, ih hcontent.2,
        if_neg (by simpa using hcontent.1.ne_nil)]
  | star _ _ hindent hgap _ ih =>
      rw [visible_cons, stripGutter_star hindent hgap]
      exact ih hcontent
  | blank _ hindent _ ih =>
      rw [visible_cons, stripGutter_blank hindent]
      exact ih hcontent

theorem Guttered.onLine {content : List Text} (h : Guttered content raw)
    (hcontent : ∀ line ∈ content, IsPhrase line) : ∀ line ∈ raw, '\n' ∉ line := by
  induction h with
  | nil => simp
  | line _ _ hindent hgap _ ih =>
      rw [List.forall_mem_cons] at hcontent ⊢
      exact ⟨by simp [hindent.onLine, hgap.onLine, hcontent.1.onLine], ih hcontent.2⟩
  | star _ _ hindent hgap _ ih =>
      rw [List.forall_mem_cons]
      exact ⟨by simp [hindent.onLine, hgap.onLine], ih hcontent⟩
  | blank _ hindent _ ih =>
      rw [List.forall_mem_cons]
      exact ⟨hindent.onLine, ih hcontent⟩

theorem visible_lines_join (h : ∀ line ∈ raw, '\n' ∉ line) :
    visible (Text.lines (Text.join "\n" raw)) = visible raw := by
  rcases List.eq_nil_or_concat' raw with rfl | ⟨front, last, rfl⟩
  · rfl
  · have hreturns : visible (front.map Text.dropReturn) = visible front := by
      rw [visible, List.map_map, visible]
      congr 1
      exact List.map_congr_left fun line _ => stripGutter_congr (Text.trim_dropReturn line)
    rw [Text.lines_join_concat front last h, visible_append, visible_append, hreturns]
    cases last <;> rfl

end Gutters

/-! ## Tags and their lines -/

theorem splitTags_tag (tagged : Text) (rest : List Text) :
    splitTags (('@' :: tagged) :: rest) =
      ([], (tagged, (splitTags rest).1) :: (splitTags rest).2) := rfl

theorem splitTags_free (h : line.head? ≠ some '@') (rest : List Text) :
    splitTags (line :: rest) = (line :: (splitTags rest).1, (splitTags rest).2) := by
  cases hrest : splitTags rest with
  | mk free tags =>
      rw [splitTags, hrest]
      dsimp only
      split
      · contradiction
      · rfl

theorem splitTags_lines (free : List FreeLine) (rest : List Text) :
    splitTags (free.map FreeLine.text ++ rest) =
      (free.map FreeLine.text ++ (splitTags rest).1, (splitTags rest).2) := by
  induction free with
  | nil => rfl
  | cons line free ih =>
      rw [List.map_cons, List.cons_append, splitTags_free line.plain, ih]
      rfl

theorem splitTags_entries (entries : List Entry) :
    splitTags (entries.flatMap Entry.lines) =
      ([], entries.map fun entry => (entry.tag.text, entry.more.map FreeLine.text)) := by
  induction entries with
  | nil => rfl
  | cons entry entries ih =>
      rw [List.flatMap_cons, Entry.lines, List.cons_append, splitTags_tag, splitTags_lines, ih,
        List.append_nil]
      rfl

def addEntry (doc : DocComment) (entry : Text × List Text) : DocComment :=
  doc.addTag (cutAtBlank entry.1).1 (joinLines (trim (cutAtBlank entry.1).2 :: entry.2))

def ofLines (lines : List Text) : DocComment :=
  (splitTags lines).2.foldl addEntry { summary := nonempty? (joinLines (splitTags lines).1) }

theorem parse_eq (content : Text) :
    parse content = ofLines ((Text.lines content).map stripGutter) := rfl

theorem splitTags_filter (lines : List Text) :
    splitTags (lines.filter fun line => !line.isEmpty) =
      ((splitTags lines).1.filter fun line => !line.isEmpty,
        (splitTags lines).2.map fun entry =>
          (entry.1, entry.2.filter fun line => !line.isEmpty)) := by
  induction lines with
  | nil => rfl
  | cons line lines ih =>
      rw [List.filter_cons]
      by_cases htag : line.head? = some '@'
      · obtain ⟨tagged, rfl⟩ := List.head?_eq_some_iff.mp htag
        simp [splitTags_tag, ih]
      · rw [splitTags_free htag, List.filter_cons]
        split
        · rw [splitTags_free htag, ih]
        · exact ih

theorem joinLines_filter (lines : List Text) :
    joinLines (lines.filter fun line => !line.isEmpty) = joinLines lines := by
  rw [joinLines, List.filter_filter]
  simp [joinLines]

theorem joinLines_cons_filter (line : Text) (lines : List Text) :
    joinLines (line :: lines.filter fun line => !line.isEmpty) = joinLines (line :: lines) := by
  rw [← joinLines_filter (line :: lines), ← joinLines_filter (line :: lines.filter _)]
  simp [List.filter_cons]

theorem ofLines_filter (lines : List Text) :
    ofLines (lines.filter fun line => !line.isEmpty) = ofLines lines := by
  rw [ofLines, splitTags_filter, joinLines_filter, List.foldl_map]
  simp only [addEntry, joinLines_cons_filter]
  rfl

theorem joinLines_eq {lines : List Text} (h : ∀ line ∈ lines, line ≠ []) :
    joinLines lines = Text.join " " lines := by
  rw [joinLines, List.filter_eq_self.mpr]
  intro line hline
  simpa using h line hline

theorem cutAtBlank_append (h : ∀ c ∈ word, isSpace c = false) (text : Text) :
    cutAtBlank (word ++ ' ' :: text) = (word, text) := by
  rw [cutAtBlank, Text.cutAt?_append h (by decide)]
  rfl

theorem fst_cutAtBlank (text : Text) :
    (cutAtBlank text).1 = text.takeWhile fun c => !isSpace c := by
  induction text with
  | nil => rfl
  | cons c text ih =>
      rw [cutAtBlank] at ih ⊢
      rw [Text.cutAt?]
      cases hc : isSpace c with
      | true => simp [hc]
      | false =>
          rw [List.takeWhile_cons, hc, ← ih]
          cases Text.cutAt? isSpace text <;> rfl

theorem bracedType_append (type : WrittenType) (rest : Text) :
    bracedType (braced type.text ++ rest) = (some type.text, Text.trimStart rest) := by
  have hcut := Text.cutAt?_mark type.closed rest
  have hbraced : braced type.text ++ rest = '\x7b' :: (type.text ++ '\x7d' :: rest) := by
    simp [braced]
  rw [hbraced, bracedType, hcut]
  dsimp only
  rw [type.isPhrase.trim_eq, nonempty?, if_neg (by simpa using type.isPhrase.ne_nil)]

theorem bracedType_of_head {text : Text} (h : text.head? ≠ some '\x7b') :
    bracedType text = (none, text) := by
  unfold bracedType
  split
  · contradiction
  · rfl

theorem bareName_append (name : WrittenName) {behind : Text}
    (h : ∀ c ∈ behind.head?, c = '=' ∨ c = ']') : bareName (name.text ++ behind) = name.text := by
  have hplain : ∀ c ∈ name.text, c ≠ '[' ∧ c ≠ '=' ∧ c ≠ ']' := by
    intro c hc
    have hnone := (name.plain c hc).2
    simp only [List.mem_cons, not_or] at hnone
    exact ⟨hnone.1, hnone.2.2.1, hnone.2.1⟩
  have hopen : (name.text ++ behind).dropWhile (· == '[') = name.text ++ behind := by
    apply Text.dropWhile_of_head?
    rw [List.head?_append_of_ne_nil _ name.ne_nil]
    intro c hc
    exact beq_false_of_ne (hplain c (List.mem_of_head? hc)).1
  have hbehind : behind.takeWhile (fun c => c != '=' && c != ']') = [] := by
    apply Text.takeWhile_of_head?
    intro c hc
    rcases h c hc with rfl | rfl <;> rfl
  rw [bareName, hopen, List.takeWhile_append_of_pos, hbehind, List.append_nil]
  intro c hc
  simp [hplain c hc]

theorem ofText?_parts {typeHint : Option Text} (name : WrittenName) {text behind first rest : Text}
    (htype : bracedType text = (typeHint, behind)) (hcut : cutAtBlank behind = (first, rest))
    (hname : bareName first = name.text)
    (hdescription : trim ((trim rest).dropWhile (· == '-')) = description)
    (hne : description ≠ []) :
    ParameterTag.ofText? text =
      some { name := name.text, typeHint, description := some description } := by
  unfold ParameterTag.ofText?
  simp only [htype, hcut, hname, hdescription]
  rw [if_neg (by simpa using name.ne_nil), nonempty?, if_neg (by simpa using hne)]

theorem ofText?_named (typeHint : Option Text) (name : WrittenName) {text : Text}
    (htext : bracedType text = (typeHint, name.text ++ ' ' :: description))
    (h : IsPhrase description) (hplain : description.head? ≠ some '-') :
    ParameterTag.ofText? text =
      some { name := name.text, typeHint, description := some description } := by
  have hname : ∀ c ∈ name.text, isSpace c = false := fun c hc => (name.plain c hc).1
  have hdashes : description.dropWhile (· == '-') = description := by
    apply Text.dropWhile_of_head?
    intro c hc
    exact beq_false_of_ne fun heq => hplain (heq ▸ hc)
  have hdescription : trim ((trim description).dropWhile (· == '-')) = description := by
    rw [h.trim_eq, hdashes, h.trim_eq]
  have hbare : bareName (name.text ++ []) = name.text := bareName_append name (by simp)
  rw [List.append_nil] at hbare
  exact ofText?_parts name htext (cutAtBlank_append hname description) hbare hdescription h.ne_nil

theorem ofText?_parameterText (typeHint : Option WrittenType) (name : WrittenName)
    (h : IsPhrase description) (hplain : description.head? ≠ some '-') :
    ParameterTag.ofText? (parameterText typeHint name.text description) =
      some { name := name.text, typeHint := typeHint.map WrittenType.text,
             description := some description } := by
  have hphrase := name.isPhrase.append_space h
  cases typeHint with
  | none =>
      apply ofText?_named none name _ h hplain
      apply bracedType_of_head
      rw [parameterText, List.head?_append_of_ne_nil _ name.ne_nil]
      intro hhead
      exact (name.plain _ (List.mem_of_head? hhead)).2 (by simp)
  | some type =>
      apply ofText?_named (some type.text) name _ h hplain
      rw [parameterText, bracedType_append]
      exact congrArg (Prod.mk _) hphrase.trimStart_eq

theorem join_parameterText (typeHint : Option WrittenType) (name description : Text)
    (others : List Text) :
    Text.join " " (parameterText typeHint name description :: others) =
      parameterText typeHint name (Text.join " " (description :: others)) := by
  have hfront : ∃ front, ∀ text, parameterText typeHint name text = front ++ text := by
    cases typeHint with
    | none => exact ⟨name ++ [' '], fun text => by simp [parameterText]⟩
    | some type =>
        exact ⟨braced type.text ++ ' ' :: (name ++ [' ']), fun text => by simp [parameterText]⟩
  obtain ⟨front, hfront⟩ := hfront
  rw [hfront, hfront, Text.join_cons_append]

theorem joinLines_entry {text : Text} (h : IsPhrase text) (more : List FreeLine) :
    joinLines (trim text :: more.map FreeLine.text) =
      Text.join " " (text :: more.map FreeLine.text) := by
  rw [h.trim_eq]
  apply joinLines_eq
  rw [List.forall_mem_cons, List.forall_mem_map]
  exact ⟨h.ne_nil, fun line _ => line.isPhrase.ne_nil⟩

theorem addEntry_eq (doc : DocComment) (entry : Entry) :
    addEntry doc (entry.tag.text, entry.more.map FreeLine.text) =
      { doc with
        parameters := doc.parameters ++ entry.parameter?.toList
        resultType := entry.resultType?.or doc.resultType } := by
  obtain ⟨tag, more⟩ := entry
  cases tag with
  | parameter word hword typeHint name description =>
      have hphrase := isPhrase_parameterText typeHint name description.isPhrase
      have hhead :
          (Text.join " " (description.text :: more.map FreeLine.text)).head? ≠ some '-' := by
        rw [Text.join_cons_eq, List.head?_append_of_ne_nil _ description.isPhrase.ne_nil]
        exact description.plain
      simp only [addEntry, Tag.text, cutAtBlank_append (spaceless_of_isParameterWord hword),
        joinLines_entry hphrase, join_parameterText, addTag, if_pos hword,
        ofText?_parameterText typeHint name (description.isPhrase.join more) hhead]
      rfl
  | result word hword type =>
      have hparameter : isParameterWord word = false := by
        simp only [isResultWord, Bool.or_eq_true, beq_iff_eq] at hword
        rcases hword with rfl | rfl <;> rfl
      have hjoin := Text.join_cons_eq " " (braced type.text) (more.map FreeLine.text)
      simp only [addEntry, Tag.text, cutAtBlank_append (spaceless_of_isResultWord hword),
        joinLines_entry type.isPhrase_braced, hjoin, addTag, hparameter, if_pos hword,
        bracedType_append]
      simp [Entry.parameter?, Entry.resultType?]
  | unrelated tag =>
      simp only [addEntry, Tag.text, fst_cutAtBlank, addTag, tag.notParameter, tag.notResult]
      simp [Entry.parameter?, Entry.resultType?]

theorem foldl_addEntry (entries : List Entry) (doc : DocComment) :
    (entries.map fun entry => (entry.tag.text, entry.more.map FreeLine.text)).foldl addEntry doc =
      { doc with
        parameters := doc.parameters ++ entries.filterMap Entry.parameter?
        resultType := (entries.filterMap Entry.resultType?).getLast?.or doc.resultType } := by
  induction entries using List.reverseRecOn with
  | nil => simp
  | append_singleton entries entry ih =>
      rw [List.map_append, List.foldl_append, ih, List.map_singleton, List.foldl_cons, addEntry_eq]
      cases hparameter : entry.parameter? <;> cases hresult : entry.resultType? <;>
        simp [hparameter, hresult]

/-! ## Comments -/

theorem summary_eq (lines : List FreeLine) :
    nonempty? (joinLines (lines.map FreeLine.text)) =
      if lines.isEmpty then none else some (Text.join " " (lines.map FreeLine.text)) := by
  have hlines : ∀ line ∈ lines.map FreeLine.text, line ≠ [] := by
    rw [List.forall_mem_map]
    exact fun line _ => line.isPhrase.ne_nil
  rw [joinLines_eq hlines]
  cases lines with
  | nil => rfl
  | cons first others =>
      rw [nonempty?, if_neg (by simpa using (first.isPhrase.join others).ne_nil)]
      rfl

theorem ofLines_draft (draft : Draft) : ofLines draft.lines = draft.doc := by
  rw [ofLines, Draft.lines, splitTags_lines, splitTags_entries, List.append_nil, foldl_addEntry,
    summary_eq]
  simp [Draft.doc]

/-- A written comment is read as its draft says. -/
theorem parse_guttered (draft : Draft) {raw : List Text} (h : Guttered draft.lines raw) :
    parse (Text.join "\n" raw) = draft.doc := by
  have hphrases : ∀ line ∈ draft.lines, IsPhrase line := fun _ => draft.isPhrase_of_mem_lines
  rw [parse_eq, ← ofLines_filter]
  change ofLines (visible (Text.lines (Text.join "\n" raw))) = draft.doc
  rw [visible_lines_join (h.onLine hphrases), h.visible_eq hphrases, ofLines_draft]

theorem parse_guttered_focus :
    ∃ (draft : Draft) (raw : List Text), Guttered draft.lines raw ∧
      raw.map String.ofList = ["*", " * Moves the focus.", "\t* Scrolls first.", " *",
        " * @param \x7bboolean\x7d smooth animate the", " *   scroll", " * @deprecated use reveal",
        " * from now on", " * @param id the record", " * @returns \x7bPromise<void>\x7d",
        " * once focused", " "] ∧
      parse (Text.join "\n" raw) = draft.doc ∧
      draft.doc =
        { summary := some "Moves the focus. Scrolls first.".toList
          parameters :=
            [⟨"smooth", some "boolean".toList, some "animate the scroll".toList⟩,
              ⟨"id", none, some "the record".toList⟩]
          resultType := some "Promise<void>".toList } := by
  let draft : Draft :=
    { summary :=
        [⟨"Moves the focus.", by decide, by decide⟩, ⟨"Scrolls first.", by decide, by decide⟩]
      entries :=
        [⟨.parameter "param" rfl (some ⟨"boolean", by decide, by decide⟩)
            ⟨"smooth", by decide, by decide⟩ ⟨"animate the", by decide, by decide⟩,
          [⟨"scroll", by decide, by decide⟩]⟩,
        ⟨.unrelated ⟨"deprecated use reveal", by decide, by decide, by decide, by decide⟩,
          [⟨"from now on", by decide, by decide⟩]⟩,
        ⟨.parameter "param" rfl none ⟨"id", by decide, by decide⟩
            ⟨"the record", by decide, by decide⟩,
          []⟩,
        ⟨.result "returns" rfl ⟨"Promise<void>", by decide, by decide⟩,
          [⟨"once focused", by decide, by decide⟩]⟩] }
  have hnone : IsGap [] := by decide
  have hspace : IsGap [' '] := by decide
  have htab : IsGap ['\t'] := by decide
  have hspaces : IsGap [' ', ' ', ' '] := by decide
  have hwritten : Guttered draft.lines _ :=
    .star [] [] hnone hnone <|
    .line [' '] [' '] hspace hspace <|
    .line ['\t'] [' '] htab hspace <|
    .star [' '] [] hspace hnone <|
    .line [' '] [' '] hspace hspace <|
    .line [' '] [' ', ' ', ' '] hspace hspaces <|
    .line [' '] [' '] hspace hspace <|
    .line [' '] [' '] hspace hspace <|
    .line [' '] [' '] hspace hspace <|
    .line [' '] [' '] hspace hspace <|
    .line [' '] [' '] hspace hspace <|
    .blank [' '] hspace .nil
  exact ⟨draft, _, hwritten, by decide, parse_guttered draft hwritten, by decide⟩

end ComponentDocs.DocComment
