import ComponentDocs.Proofs.DocComment
import ComponentDocs.Proofs.Folds

/-!
# The type and the default of a parameter tag

A reader that ends a type at the first closing brace and a name at the first blank reads a tag
with balanced braces as it is written exactly if its type has no braces inside and its default
no blanks.  A default with a blank never gets into the name, but its rest gets into the
description.
-/

namespace ComponentDocs.DocComment

open Text (isSpace trim trimStart)

def bracesClose : Nat → Text → Bool
  | depth, [] => depth == 0
  | depth, c :: rest =>
      if c == '\x7b' then bracesClose (depth + 1) rest
      else if c == '\x7d' then 0 < depth && bracesClose (depth - 1) rest
      else bracesClose depth rest

theorem opener_not_mem_of_bracesClose {depth : Nat} {text : Text}
    (h : bracesClose depth text = true) (hcloser : '\x7d' ∉ text) :
    depth = 0 ∧ '\x7b' ∉ text := by
  induction text generalizing depth with
  | nil => exact ⟨by simpa [bracesClose] using h, List.not_mem_nil⟩
  | cons c rest ih =>
      rw [List.mem_cons, not_or] at hcloser
      have hclosed : (c == '\x7d') = false := beq_false_of_ne (Ne.symm hcloser.1)
      rw [bracesClose, hclosed] at h
      split at h
      · exact absurd (ih h hcloser.2).1 (Nat.succ_ne_zero depth)
      · next hc =>
          obtain ⟨hdepth, hrest⟩ := ih h hcloser.2
          rw [beq_iff_eq] at hc
          exact ⟨hdepth, List.not_mem_cons_of_ne_of_not_mem (Ne.symm hc) hrest⟩

theorem closer_not_mem_of_bracesClose {text : Text} (h : bracesClose 0 text = true)
    (hopener : '\x7b' ∉ text) : '\x7d' ∉ text := by
  induction text with
  | nil => exact List.not_mem_nil
  | cons c rest ih =>
      rw [List.mem_cons, not_or] at hopener
      have hopened : (c == '\x7b') = false := beq_false_of_ne (Ne.symm hopener.1)
      rw [bracesClose, hopened] at h
      by_cases hc : c = '\x7d'
      · simp [hc] at h
      · exact List.not_mem_cons_of_ne_of_not_mem (Ne.symm hc) (ih (by simpa [hc] using h) hopener.2)

theorem opener_mem_iff_closer_mem {text : Text} (h : bracesClose 0 text = true) :
    '\x7b' ∈ text ↔ '\x7d' ∈ text := by
  rw [← not_iff_not]
  exact ⟨closer_not_mem_of_bracesClose h,
    fun hcloser => (opener_not_mem_of_bracesClose h hcloser).2⟩

/-- A parameter tag with a type of balanced braces, and perhaps a default for the parameter.
Any identifier can be its name. -/
structure DelimitedTag where
  word : Text
  isWord : isParameterWord word = true
  type : Text
  isPhrase : IsPhrase type
  balanced : bracesClose 0 type = true
  name : WrittenName
  default? : Option Text
  enclosed : ∀ value ∈ default?, ']' ∉ value ∧ '\n' ∉ value
  description : WrittenDescription

namespace DelimitedTag

def nameText (tag : DelimitedTag) : Text :=
  match tag.default? with
  | none => tag.name.text
  | some value => '[' :: (tag.name.text ++ '=' :: (value ++ [']']))

def text (tag : DelimitedTag) : Text :=
  braced tag.type ++ ' ' :: (tag.nameText ++ ' ' :: tag.description.text)

def line (tag : DelimitedTag) : Text :=
  '@' :: (tag.word ++ ' ' :: tag.text)

def parameter (tag : DelimitedTag) : ParameterTag where
  name := tag.name.text
  typeHint := some tag.type
  description := some tag.description.text

theorem isPhrase_nameText (tag : DelimitedTag) : IsPhrase tag.nameText := by
  unfold nameText
  split
  · exact tag.name.isPhrase
  · next value hvalue =>
      have hlast : ('[' :: (tag.name.text ++ '=' :: (value ++ [']']))).getLast? = some ']' := by
        simp [List.getLast?_cons, List.getLast?_append]
      refine ⟨List.cons_ne_nil _ _, ?_, ?_⟩
      · rw [Text.trim_eq_self_iff, hlast]
        exact ⟨by rintro c ⟨⟩; decide, by rintro c ⟨⟩; decide⟩
      · simpa [tag.name.isPhrase.onLine] using (tag.enclosed value hvalue).2

theorem isPhrase_text (tag : DelimitedTag) : IsPhrase tag.text :=
  tag.isPhrase.braced.append_space
    (tag.isPhrase_nameText.append_space tag.description.isPhrase)

theorem isPhrase_line (tag : DelimitedTag) : IsPhrase tag.line :=
  isPhrase_tagged (spaceless_of_isParameterWord tag.isWord) tag.isPhrase_text

end DelimitedTag

theorem typeHint_of_ofText? {text : Text} {parameter : ParameterTag}
    (h : ParameterTag.ofText? text = some parameter) :
    parameter.typeHint = (bracedType text).1 := by
  unfold ParameterTag.ofText? at h
  dsimp only at h
  rw [Option.ite_none_left_eq_some] at h
  cases h.2
  rfl

theorem bracedType_ne {type : Text} (h : '\x7d' ∈ type) (rest : Text) :
    (bracedType (braced type ++ rest)).1 ≠ some type := by
  obtain ⟨front, back, rfl, hfront⟩ := List.eq_append_cons_of_mem h
  have hcut := Text.cutAt?_mark hfront (back ++ '\x7d' :: rest)
  have htext : braced (front ++ '\x7d' :: back) ++ rest =
      '\x7b' :: (front ++ '\x7d' :: (back ++ '\x7d' :: rest)) := by
    simp [braced]
  rw [htext, bracedType, hcut]
  intro hhint
  dsimp only at hhint
  rw [nonempty?, Option.ite_none_left_eq_some, Option.some.injEq] at hhint
  have hmem : '\x7d' ∈ trim front := by simp [hhint.2]
  exact hfront ((Text.trim_sublist front).subset hmem)

theorem trim_append {tail : Text} (h : IsPhrase tail) (front : Text) :
    trim (front ++ tail) = trimStart front ++ tail := by
  have hlast : ∀ c ∈ (trimStart front ++ tail).getLast?, isSpace c = false := by
    rw [List.getLast?_append_of_ne_nil _ h.ne_nil]
    exact h.last
  rw [trim, trimStart, Text.dropWhile_append_of_head? h.head]
  exact Text.dropEndWhile_of_getLast? hlast

/-- The name and the default end at the first blank.  What is left of the default stands before
the description. -/
theorem cutAtBlank_bracketed (name : WrittenName) (value description : Text) :
    ∃ start rest,
      cutAtBlank ('[' :: (name.text ++ '=' :: (value ++ [']'])) ++ ' ' :: description) =
        ('[' :: (name.text ++ '=' :: start), rest) ∧
      ((∀ c ∈ value, isSpace c = false) ∧ rest = description ∨
        (∃ c ∈ value, isSpace c = true) ∧ ∃ left, rest = left ++ ']' :: ' ' :: description) := by
  have hspaceless : ∀ start, (∀ c ∈ start, isSpace c = false) →
      ∀ c ∈ '[' :: (name.text ++ '=' :: start), isSpace c = false := by
    intro start hstart c hc
    rw [List.mem_cons, List.mem_append, List.mem_cons] at hc
    rcases hc with rfl | hc | rfl | hc
    · decide
    · exact (name.plain c hc).1
    · decide
    · exact hstart c hc
  cases hfind : value.find? isSpace with
  | none =>
      have hvalue : ∀ c ∈ value, isSpace c = false := by simpa using hfind
      refine ⟨value ++ [']'], description, ?_, .inl ⟨hvalue, rfl⟩⟩
      apply cutAtBlank_append
      apply hspaceless
      simpa [or_imp, forall_and] using ⟨hvalue, by decide⟩
  | some blank =>
      obtain ⟨hblank, start, left, rfl, hstart⟩ := List.find?_eq_some_iff_append.mp hfind
      have hcut := Text.cutAt?_append (hspaceless start (by simpa using hstart)) hblank
        (left ++ ']' :: ' ' :: description)
      refine ⟨start, left ++ ']' :: ' ' :: description, ?_,
        .inr ⟨⟨blank, by simp, hblank⟩, left, rfl⟩⟩
      rw [cutAtBlank]
      simpa using congrArg (Option.getD · _) hcut

theorem trim_dashes_append {tail : Text} (h : IsPhrase tail) (hplain : tail.head? ≠ some '-')
    (front : Text) :
    trim ((trim (front ++ tail)).dropWhile (· == '-')) =
      trimStart ((trimStart front).dropWhile (· == '-')) ++ tail := by
  have hdashes : ∀ c ∈ tail.head?, (c == '-') = false := by
    intro c hc
    exact beq_false_of_ne fun heq => hplain (heq ▸ hc)
  rw [trim_append h, Text.dropWhile_append_of_head? hdashes, trim_append h]

namespace DelimitedTag

variable (tag : DelimitedTag)

def IsCompact : Prop :=
  ∀ value ∈ tag.default?, ∀ c ∈ value, isSpace c = false

/-- The rest of a default that has a blank is read as part of the description. -/
def IsReadAs (description : Text) : Prop :=
  tag.IsCompact ∧ description = tag.description.text ∨
    ¬tag.IsCompact ∧ ']' :: ' ' :: tag.description.text <:+ description

theorem bracedType_text (h : '\x7b' ∉ tag.type) :
    bracedType tag.text = (some tag.type, tag.nameText ++ ' ' :: tag.description.text) := by
  let type : WrittenType :=
    ⟨tag.type, tag.isPhrase, closer_not_mem_of_bracesClose tag.balanced h⟩
  have hphrase := tag.isPhrase_nameText.append_space tag.description.isPhrase
  have hread := bracedType_append type (' ' :: (tag.nameText ++ ' ' :: tag.description.text))
  rw [text, hread]
  exact congrArg (Prod.mk _) hphrase.trimStart_eq

theorem ofText?_text_plain (h : '\x7b' ∉ tag.type) :
    ∃ description, tag.IsReadAs description ∧
      ParameterTag.ofText? tag.text =
        some { tag.parameter with description := some description } := by
  have hbraced := tag.bracedType_text h
  have hdescription := tag.description.isPhrase
  cases hdefault : tag.default? with
  | none =>
      have hcompact : tag.IsCompact := by simp [IsCompact, hdefault]
      rw [nameText, hdefault] at hbraced
      exact ⟨_, .inl ⟨hcompact, rfl⟩,
        ofText?_named _ tag.name hbraced hdescription tag.description.plain⟩
  | some value =>
      rw [nameText, hdefault] at hbraced
      obtain ⟨start, rest, hcut, hrest⟩ :=
        cutAtBlank_bracketed tag.name value tag.description.text
      have hname : bareName ('[' :: (tag.name.text ++ '=' :: start)) = tag.name.text :=
        bareName_append tag.name (by rintro c ⟨⟩; exact .inl rfl)
      rcases hrest with ⟨hvalue, rfl⟩ | ⟨⟨c, hc, hblank⟩, left, rfl⟩
      · have hcompact : tag.IsCompact := by simpa [IsCompact, hdefault] using hvalue
        have htrim := trim_dashes_append hdescription tag.description.plain []
        exact ⟨_, .inl ⟨hcompact, rfl⟩,
          ofText?_parts tag.name hbraced hcut hname htrim hdescription.ne_nil⟩
      · have hcompact : ¬tag.IsCompact := by
          intro hcompact
          rw [hcompact value hdefault c hc] at hblank
          contradiction
        have hclose : IsPhrase [']'] := isPhrase_of_spaceless (by decide) (by decide)
        have htrim := trim_dashes_append (hclose.append_space hdescription) (by simp) left
        exact ⟨_, .inr ⟨hcompact, List.suffix_append _ _⟩,
          ofText?_parts tag.name hbraced hcut hname htrim (by simp)⟩

/-- A tag is read as it is written exactly if its type has no braces and its default no
blanks. -/
theorem ofText?_text_iff :
    ParameterTag.ofText? tag.text = some tag.parameter ↔ '\x7b' ∉ tag.type ∧ tag.IsCompact := by
  constructor
  · intro hread
    have hopener : '\x7b' ∉ tag.type := by
      intro hmem
      have hcloser := (opener_mem_iff_closer_mem tag.balanced).mp hmem
      exact bracedType_ne hcloser _ (typeHint_of_ofText? hread).symm
    obtain ⟨description, hdescription, hplain⟩ := tag.ofText?_text_plain hopener
    refine ⟨hopener, ?_⟩
    rcases hdescription with ⟨hcompact, -⟩ | ⟨-, hsuffix⟩
    · exact hcompact
    · rw [hread] at hplain
      have hsame : tag.description.text = description := by
        simpa [parameter] using congrArg (Option.bind · ParameterTag.description) hplain
      have hlength := hsuffix.length_le
      rw [← hsame, List.length_cons, List.length_cons] at hlength
      omega
  · rintro ⟨hopener, hcompact⟩
    obtain ⟨description, ⟨-, rfl⟩ | ⟨hnot, -⟩, hplain⟩ := tag.ofText?_text_plain hopener
    · exact hplain
    · exact absurd hcompact hnot

end DelimitedTag

def entryParameters (entry : Text × List Text) : List ParameterTag :=
  (addEntry {} entry).parameters

theorem addEntry_parameters (doc : DocComment) (entry : Text × List Text) :
    (addEntry doc entry).parameters = doc.parameters ++ entryParameters entry := by
  unfold entryParameters addEntry addTag
  split
  · simp
  · split <;> simp

theorem ofLines_parameters (lines : List Text) :
    (ofLines lines).parameters = (splitTags lines).2.flatMap entryParameters := by
  rw [ofLines, view_foldl_append DocComment.parameters addEntry_parameters, List.nil_append]

def StartsTag (lines : List Text) : Prop :=
  ∀ line ∈ lines.head?, line.head? = some '@'

theorem StartsTag.splitTags_fst {lines : List Text} (h : StartsTag lines) :
    (splitTags lines).1 = [] := by
  cases lines with
  | nil => rfl
  | cons line lines =>
      obtain ⟨tagged, rfl⟩ := List.head?_eq_some_iff.mp (h line rfl)
      rw [splitTags_tag]

theorem StartsTag.splitTags_append {behind : List Text} (h : StartsTag behind)
    (before : List Text) :
    splitTags (before ++ behind) =
      ((splitTags before).1, (splitTags before).2 ++ (splitTags behind).2) := by
  induction before with
  | nil => exact Prod.ext h.splitTags_fst rfl
  | cons line before ih =>
      rw [List.cons_append]
      by_cases htag : line.head? = some '@'
      · obtain ⟨tagged, rfl⟩ := List.head?_eq_some_iff.mp htag
        rw [splitTags_tag, splitTags_tag, ih, List.cons_append]
      · rw [splitTags_free htag, splitTags_free htag, ih]

theorem StartsTag.ofLines_append {behind : List Text} (h : StartsTag behind)
    (before : List Text) :
    (ofLines (before ++ behind)).parameters =
      (ofLines before).parameters ++ (ofLines behind).parameters := by
  rw [ofLines_parameters, h.splitTags_append, List.flatMap_append, ← ofLines_parameters,
    ← ofLines_parameters]

def parametersOf (raw : List Text) : List ParameterTag :=
  (parse (Text.join "\n" raw)).parameters

theorem parametersOf_eq {raw : List Text} (h : ∀ line ∈ raw, '\n' ∉ line) :
    parametersOf raw = (ofLines (visible raw)).parameters := by
  rw [parametersOf, parse_eq, ← ofLines_filter]
  change (ofLines (visible (Text.lines (Text.join "\n" raw)))).parameters = _
  rw [visible_lines_join h]

theorem entryParameters_line (tag : DelimitedTag) :
    entryParameters (tag.word ++ ' ' :: tag.text, []) =
      (ParameterTag.ofText? tag.text).toList := by
  have hcut := cutAtBlank_append (spaceless_of_isParameterWord tag.isWord) tag.text
  have hjoin := joinLines_entry tag.isPhrase_text []
  rw [List.map_nil] at hjoin
  simp only [entryParameters, addEntry, hcut, hjoin, addTag, if_pos tag.isWord]
  rfl

theorem parametersOf_line (tag : DelimitedTag) {indent gap : Text} {above below : List Text}
    (hindent : IsGap indent) (hgap : IsGap gap) (habove : ∀ line ∈ above, '\n' ∉ line)
    (hbelow : ∀ line ∈ below, '\n' ∉ line) (hnext : StartsTag (visible below)) :
    parametersOf (above ++ (indent ++ '*' :: (gap ++ tag.line)) :: below) =
      parametersOf above ++ ((ParameterTag.ofText? tag.text).toList ++ parametersOf below) := by
  have hstrip := stripGutter_line hindent hgap tag.isPhrase_line
  have hraw : ∀ line ∈ above ++ (indent ++ '*' :: (gap ++ tag.line)) :: below, '\n' ∉ line := by
    rw [List.forall_mem_append, List.forall_mem_cons]
    exact ⟨habove, by simp [hindent.onLine, hgap.onLine, tag.isPhrase_line.onLine], hbelow⟩
  have hline : StartsTag (tag.line :: visible below) := by
    rintro line ⟨⟩
    rfl
  have hbehind : (ofLines (tag.line :: visible below)).parameters =
      (ParameterTag.ofText? tag.text).toList ++ (ofLines (visible below)).parameters := by
    rw [ofLines_parameters, DelimitedTag.line, splitTags_tag, hnext.splitTags_fst,
      List.flatMap_cons, entryParameters_line, ofLines_parameters]
  rw [parametersOf_eq hraw, visible_append, visible_cons, hstrip,
    if_neg (by simpa using tag.isPhrase_line.ne_nil), hline.ofLines_append, hbehind,
    parametersOf_eq habove, parametersOf_eq hbelow]

/-- A parameter tag says what is written in it exactly if its type has no braces inside and its
default no blanks.  Without braces the name and the type are always right. -/
theorem parameter_delimited_iff (tag : DelimitedTag) {indent gap : Text} {above below : List Text}
    (hindent : IsGap indent) (hgap : IsGap gap) (habove : ∀ line ∈ above, '\n' ∉ line)
    (hbelow : ∀ line ∈ below, '\n' ∉ line) (hnext : StartsTag (visible below)) :
    (parametersOf (above ++ (indent ++ '*' :: (gap ++ tag.line)) :: below) =
        parametersOf above ++ tag.parameter :: parametersOf below ↔
      '\x7b' ∉ tag.type ∧ tag.IsCompact) ∧
    ('\x7b' ∉ tag.type → ∃ description, tag.IsReadAs description ∧
      parametersOf (above ++ (indent ++ '*' :: (gap ++ tag.line)) :: below) =
        parametersOf above ++
          { tag.parameter with description := some description } :: parametersOf below) := by
  rw [parametersOf_line tag hindent hgap habove hbelow hnext]
  constructor
  · rw [List.append_cancel_left_eq, ← List.singleton_append, List.append_cancel_right_eq,
      ← tag.ofText?_text_iff]
    cases ParameterTag.ofText? tag.text <;> simp
  · intro hopener
    obtain ⟨description, hread, hplain⟩ := tag.ofText?_text_plain hopener
    exact ⟨description, hread, by rw [hplain]; rfl⟩

theorem parameter_delimited_iff_zoom :
    ∃ tag : DelimitedTag,
      String.ofList tag.line = "@param \x7bArray<number>\x7d [scale=1.5] how much - at most 8" ∧
      parametersOf ([" * Zooms in.".toList] ++ (" *".toList ++ ' ' :: tag.line) ::
          [" *".toList, " * @param id the record".toList]) =
        [⟨"scale", some "Array<number>".toList, some "how much - at most 8".toList⟩,
          ⟨"id", none, some "the record".toList⟩] := by
  let tag : DelimitedTag :=
    { word := "param"
      isWord := rfl
      type := "Array<number>"
      isPhrase := by decide
      balanced := by decide
      name := ⟨"scale", by decide, by decide⟩
      default? := some "1.5".toList
      enclosed := by decide
      description := ⟨"how much - at most 8", by decide, by decide⟩ }
  have hcompact : tag.IsCompact := by
    rintro value ⟨⟩
    decide
  have hspace : IsGap [' '] := by decide
  have hnext : StartsTag (visible [" *".toList, " * @param id the record".toList]) := by
    rintro line ⟨⟩
    rfl
  have habove : ∀ line ∈ [" * Zooms in.".toList], '\n' ∉ line := by decide
  have hread := (parameter_delimited_iff tag hspace hspace habove (by decide) hnext).1.mpr
    ⟨by decide, hcompact⟩
  exact ⟨tag, by decide, hread.trans (by decide)⟩

/-- A type in braces is cut at the first closing one, and a default at its first blank. -/
theorem braces_and_blanks_cut :
    bracesClose 0 "\x7b a: string \x7d" = true ∧
    parametersOf ["* @param \x7b\x7b a: string \x7d\x7d options what to do"] =
      [⟨"\x7d", some "\x7b a: string".toList, some "options what to do".toList⟩] ∧
    parametersOf ["* @param \x7bstring\x7d [mode=a b] how to do it"] =
      [⟨"mode", some "string".toList, some "b] how to do it".toList⟩] := by
  decide

end ComponentDocs.DocComment
