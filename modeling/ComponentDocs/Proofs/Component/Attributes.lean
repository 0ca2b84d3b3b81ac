import ComponentDocs.Proofs.Component.Slots
import ComponentDocs.Proofs.Sections.Scan

/-!
# The attributes of a slot tag

A slot tag that is written with quoted values is read back, unless a value has a closing angle
in it, where the tag ends for the scan, or renders a snippet, which is another slot.
-/

namespace ComponentDocs

open scoped List

namespace Component

open Dictionary (InOrder nodup_keys_of_inOrder)
open Table (lookup_cons_eq lookup_eq_some_iff_mem mem_of_lookup)
open Text (isSpace trim)

variable {name template key : Text} {c : Char} {entries : List (Text × Text)} {slot : Slot}

section Characters

variable {text value behind : Text}

theorem sublist_of_bareValue? (h : bareValue? text = some (value, behind)) : value <+ text := by
  rw [bareValue?, Option.ite_none_left_eq_some] at h
  cases h.2
  exact List.takeWhile_sublist _

theorem sublist_of_until? {mark : Char} (h : Text.until? mark text = some (value, behind)) :
    value <+ text := by
  obtain ⟨rfl, -⟩ := Text.until?_eq_some_iff.mp h
  exact List.sublist_append_left _ _

theorem sublist_of_attributeValue? (h : attributeValue? text = some (value, behind)) :
    value <+ text := by
  unfold attributeValue? at h
  split at h
  · exact (sublist_of_until? h).cons _
  · exact (sublist_of_until? h).cons _
  · next rest =>
      cases hbraced : Text.until? '\x7d' rest with
      | none =>
          rw [hbraced] at h
          exact sublist_of_bareValue? h
      | some found =>
          rw [hbraced] at h
          cases h
          exact (sublist_of_until? hbraced).cons _
  · exact sublist_of_bareValue? h

theorem sublist_of_assignedValue? (h : assignedValue? text = some (value, behind)) :
    value <+ text := by
  unfold assignedValue? at h
  split at h
  · next rest htrim =>
      have hstart : '=' :: rest <+ text := htrim ▸ List.dropWhile_sublist _
      have hrest : Text.trimStart rest <+ rest := List.dropWhile_sublist _
      exact (((sublist_of_attributeValue? h).trans hrest).cons _).trans hstart
  · contradiction

theorem sublist_of_attributeAt? {value : Option Text} {count : Nat}
    (h : attributeAt? text = some (name, value, count)) :
    name <+ text ∧ ∀ found ∈ value, found <+ text := by
  cases text with
  | nil => contradiction
  | cons c rest =>
      have hname : c :: rest.takeWhile continuesAttribute <+ c :: rest :=
        (List.takeWhile_sublist _).cons_cons c
      have hbehind : rest.dropWhile continuesAttribute <+ c :: rest :=
        (List.dropWhile_sublist _).cons c
      rw [attributeAt?, Option.ite_none_right_eq_some] at h
      obtain ⟨-, h⟩ := h
      cases hassigned : assignedValue? (rest.dropWhile continuesAttribute) with
      | none =>
          simp only [hassigned] at h
          cases h
          exact ⟨hname, by simp⟩
      | some result =>
          simp only [hassigned] at h
          cases h
          refine ⟨hname, ?_⟩
          rintro found ⟨⟩
          exact (sublist_of_assignedValue? hassigned).trans hbehind

theorem sublist_of_mem_attributesFrom {skip : Nat} {entry : Text × Option Text}
    (h : entry ∈ attributesFrom skip text) :
    entry.1 <+ text ∧ ∀ found ∈ entry.2, found <+ text := by
  have hgrow : ∀ (c : Char) (rest : Text), entry.1 <+ rest ∧ (∀ found ∈ entry.2, found <+ rest) →
      entry.1 <+ c :: rest ∧ ∀ found ∈ entry.2, found <+ c :: rest := fun c rest hrest =>
    ⟨hrest.1.cons c, fun found hfound => (hrest.2 found hfound).cons c⟩
  fun_induction attributesFrom skip text with
  | case1 => contradiction
  | case2 skip c rest ih => exact hgrow c rest (ih h)
  | case3 c rest name value count hat ih =>
      rcases List.mem_cons.mp h with rfl | hlater
      · exact sublist_of_attributeAt? hat
      · exact hgrow c rest (ih hlater)
  | case4 c rest _ ih => exact hgrow c rest (ih h)

theorem sublist_of_mem_attributes {entry : Text × Text} (h : entry ∈ attributes text) :
    entry.2 <+ text := by
  obtain ⟨⟨name, value⟩, hmem, rfl⟩ := List.mem_map.mp h
  obtain ⟨hname, hvalue⟩ := sublist_of_mem_attributesFrom hmem
  cases value with
  | none => exact hname
  | some found => exact (Text.trim_sublist found).trans (hvalue found rfl)

end Characters

section Occurring

variable {α : Type} {IsWritten : Text → α → Prop} {text : Text} {values : List α} {value : α}

theorem Occurrences.exists_of_mem (h : Occurrences IsWritten text values)
    (hvalue : value ∈ values) :
    ∃ tag, IsWritten tag value ∧ tag <:+: text := by
  induction h with
  | nil => contradiction
  | @written tag behind _ _ hwritten _ ih =>
      rcases List.mem_cons.mp hvalue with rfl | hlater
      · exact ⟨tag, hwritten, (List.prefix_append tag behind).isInfix⟩
      · obtain ⟨other, hother, hwithin⟩ := ih hlater
        exact ⟨other, hother, hwithin.trans (List.suffix_append tag behind).isInfix⟩
  | @other c rest _ _ _ ih =>
      obtain ⟨tag, hwritten, hwithin⟩ := ih hvalue
      exact ⟨tag, hwritten, hwithin.trans (List.suffix_cons c rest).isInfix⟩

/-- Tags that start with a character which they hold nowhere else do not overlap, so all of them
are found. -/
theorem Occurrences.mem_of_isInfix (mark : Char) {read? : Text → Option (α × Nat)}
    (hreads : Reads IsWritten read?)
    (hmark : ∀ tag value, IsWritten tag value → ∃ inner, tag = mark :: inner ∧ mark ∉ inner)
    (h : Occurrences IsWritten text values) {tag : Text} (hwritten : IsWritten tag value)
    (hwithin : tag <:+: text) : value ∈ values := by
  obtain ⟨inner, htag, -⟩ := hmark tag value hwritten
  induction h with
  | nil =>
      rw [List.infix_nil.mp hwithin] at htag
      contradiction
  | @written other behind found _ hother _ ih =>
      obtain ⟨more, rfl, hmore⟩ := hmark other found hother
      rw [htag, List.cons_append, List.infix_cons_iff] at hwithin
      rcases hwithin with ⟨rest, hstart⟩ | hlater
      · have hfirst := hreads.iff.mpr ⟨mark :: more, behind, hother, rfl, rfl⟩
        have hsecond := hreads.iff.mpr ⟨tag, rest, hwritten, rfl, rfl⟩
        rw [htag, hstart, ← List.cons_append, hfirst] at hsecond
        obtain rfl := (Prod.mk.inj (Option.some.inj hsecond)).1
        exact List.mem_cons_self ..
      · rw [htag] at ih
        exact List.mem_cons_of_mem _ (ih (Text.isInfix_of_not_mem hmore hlater))
  | @other c rest _ hother _ ih =>
      rw [List.infix_cons_iff] at hwithin
      rcases hwithin with ⟨behind, hstart⟩ | hlater
      · exact absurd hstart.symm (hother tag value behind hwritten)
      · exact ih hlater

end Occurring

theorem HasAttributes.sublist {inside found : Text} (h : HasAttributes inside found) :
    found <+ inside := by
  cases h with
  | empty => exact .refl _
  | slash => exact List.nil_sublist _
  | attributes _ _ => exact (List.sublist_append_left _ _).cons_cons _

theorem angle_not_mem_slotTags {found : Text} (h : found ∈ slotTags 0 template) :
    '>' ∉ found := by
  have hoccurrences := (scans_slotTags.occurrences_iff reads_slotTagAt?).mpr
    (rfl : slotTags 0 template = slotTags 0 template)
  obtain ⟨tag, ⟨inside, hangle, hfound, -⟩, -⟩ := hoccurrences.exists_of_mem h
  exact fun hmem => hangle (hfound.sublist.subset hmem)

theorem not_mem_name {starts continues : Char → Bool} {first : Char} {rest : Text}
    (hfirst : starts first = true) (hrest : ∀ d ∈ rest, continues d = true)
    (hstarts : starts c = false) (hcontinues : continues c = false) : c ∉ first :: rest := by
  rw [List.mem_cons, not_or]
  constructor
  · rintro rfl
    rw [hstarts] at hfirst
    contradiction
  · intro hmem
    rw [hrest c hmem] at hcontinues
    contradiction

theorem not_mem_of_isIdentifier (h : Text.isIdentifier name = true)
    (hstarts : Text.startsIdentifier c = false) (hcontinues : Text.continuesIdentifier c = false) :
    c ∉ name := by
  obtain ⟨first, rest, rfl, hfirst, hrest⟩ := Text.exists_of_isIdentifier h
  exact not_mem_name hfirst hrest hstarts hcontinues

theorem IsRenderTag.exists_cons {tag : Text} (h : IsRenderTag tag name) :
    ∃ inner, tag = '\x7b' :: inner ∧ '\x7b' ∉ inner ∧ '"' ∉ inner := by
  obtain ⟨gap, callGap, -, hgap, hname,
    ⟨before, mark, behind, hbefore, hmark, hbehind, rfl⟩, rfl⟩ := h
  have hblank : ∀ gap : Text, Text.isBlank gap = true → '\x7b' ∉ gap ∧ '"' ∉ gap := by
    intro gap hgap
    rw [Text.isBlank, List.all_eq_true] at hgap
    exact ⟨fun hmem => absurd (hgap _ hmem) (by decide),
      fun hmem => absurd (hgap _ hmem) (by decide)⟩
  have hmarks : '\x7b' ∉ mark ∧ '"' ∉ mark := by
    rcases hmark with rfl | rfl <;> decide
  have hnamed : '\x7b' ∉ name ∧ '"' ∉ name :=
    ⟨not_mem_of_isIdentifier hname (by decide) (by decide),
      not_mem_of_isIdentifier hname (by decide) (by decide)⟩
  refine ⟨"@render" ++ (gap ++ (name ++ (before ++ (mark ++ behind) ++ "("))), rfl, ?_, ?_⟩
  · simp [hblank gap hgap, hblank before hbefore, hblank behind hbehind, hmarks, hnamed]
  · simp [hblank gap hgap, hblank before hbefore, hblank behind hbehind, hmarks, hnamed]

theorem mem_renders_iff :
    name ∈ renders 0 template ↔ ∃ tag, IsRenderTag tag name ∧ tag <:+: template := by
  have hoccurrences := (scans_renders.occurrences_iff reads_renderAt?).mpr
    (rfl : renders 0 template = renders 0 template)
  constructor
  · exact hoccurrences.exists_of_mem
  · rintro ⟨tag, htag, hwithin⟩
    refine hoccurrences.mem_of_isInfix '\x7b' reads_renderAt? (fun tag name htag => ?_) htag hwithin
    obtain ⟨inner, rfl, hbrace, -⟩ := htag.exists_cons
    exact ⟨inner, rfl, hbrace⟩

theorem templateSlots_eq (template : Text) :
    templateSlots template =
      (Text.firstOccurrences (((slotTags 0 template).map attributes).map givenName ++
        renders 0 template)).map
          (collected (((slotTags 0 template).map attributes).map Slot.ofAttributes)) := by
  rw [← foldl_addSlot_tags, List.map_map]
  rfl

theorem angle_not_mem_givenName {text : Text} (h : '>' ∉ text) :
    '>' ∉ givenName (attributes text) := by
  rw [givenName]
  cases hlookup : (attributes text).reverse.lookup "name".toList with
  | none => decide
  | some value =>
      have hmem := List.mem_reverse.mp (mem_of_lookup hlookup)
      exact fun hangle => h ((sublist_of_mem_attributes hmem).subset hangle)

theorem angle_not_mem_slot (h : slot ∈ templateSlots template) :
    '>' ∉ slot.name ∧ ∀ entries ∈ slot.attributes, ∀ entry ∈ entries, '>' ∉ entry.2 := by
  rw [templateSlots_eq] at h
  obtain ⟨name, hname, rfl⟩ := List.mem_map.mp h
  rw [Text.mem_firstOccurrences, List.mem_append] at hname
  constructor
  · rcases hname with htagged | hrendered
    · simp only [List.mem_map] at htagged
      obtain ⟨_, ⟨found, hfound, rfl⟩, rfl⟩ := htagged
      exact angle_not_mem_givenName (angle_not_mem_slotTags hfound)
    · obtain ⟨tag, ⟨gap, callGap, -, -, hidentifier, -, -⟩, -⟩ := mem_renders_iff.mp hrendered
      exact not_mem_of_isIdentifier hidentifier (by decide) (by decide)
  · intro entries hentries entry hentry
    have hrel := supplied_tags ((slotTags 0 template).map attributes) name
    rw [show supplied _ name = some entries from hentries] at hrel
    cases hfind : ((slotTags 0 template).map attributes).find? fun found =>
        givenName found == name && hasOthers found with
    | none =>
        rw [hfind] at hrel
        cases hrel
    | some found =>
        rw [hfind] at hrel
        cases hrel with
        | some hothers =>
            obtain ⟨tag, htag, rfl⟩ := List.mem_map.mp (List.mem_of_find?_eq_some hfind)
            have hkeys := nodup_keys_of_inOrder hothers.inOrder
            have hlookup := (lookup_eq_some_iff_mem hkeys).mpr hentry
            rw [hothers.lookup, Option.ite_none_left_eq_some] at hlookup
            have hmem := List.mem_reverse.mp (mem_of_lookup hlookup.2)
            exact fun hangle =>
              angle_not_mem_slotTags htag ((sublist_of_mem_attributes hmem).subset hangle)

/-! ## Written tags -/

structure Attribute where
  name : Text
  value : Text
  starts : name.head?.any startsAttribute = true
  continues : name.tail.all continuesAttribute = true
  closed : '"' ∉ value

namespace Attribute

def assignment (item : Attribute) : Text :=
  item.name ++ '=' :: '"' :: (item.value ++ ['"'])

def text (item : Attribute) : Text :=
  ' ' :: item.assignment

def entry (item : Attribute) : Text × Text :=
  (item.name, trim item.value)

theorem exists_name (item : Attribute) :
    ∃ c rest, item.name = c :: rest ∧ startsAttribute c = true ∧
      ∀ d ∈ rest, continuesAttribute d = true := by
  have hstarts := item.starts
  have hcontinues := item.continues
  cases hname : item.name with
  | nil =>
      rw [hname] at hstarts
      contradiction
  | cons c rest =>
      rw [hname] at hstarts hcontinues
      exact ⟨c, rest, rfl, hstarts, List.all_eq_true.mp hcontinues⟩

theorem attributeAt?_assignment (item : Attribute) (rest : Text) :
    attributeAt? (item.assignment ++ rest) =
      some (item.name, some item.value, item.assignment.length) := by
  obtain ⟨c, more, hname, hstarts, hcontinues⟩ := item.exists_name
  have hvalue : assignedValue? ('=' :: '"' :: (item.value ++ '"' :: rest)) =
      some (item.value, rest) :=
    Text.until?_eq_some_iff.mpr ⟨rfl, item.closed⟩
  have htext : item.assignment ++ rest =
      c :: (more ++ '=' :: '"' :: (item.value ++ '"' :: rest)) := by
    simp [assignment, hname]
  have hassign : continuesAttribute '=' = false := by decide
  rw [htext, attributeAt?, if_pos hstarts, List.takeWhile_append_of_pos hcontinues,
    List.dropWhile_append_of_pos hcontinues]
  simp only [List.takeWhile_cons, List.dropWhile_cons, hassign, Bool.false_eq_true, if_false,
    List.append_nil, hvalue, ← hname]
  simp [assignment, hname]
  omega

end Attribute

theorem attributesFrom_skip (tag behind : Text) :
    attributesFrom tag.length (tag ++ behind) = attributesFrom 0 behind := by
  induction tag with
  | nil => rfl
  | cons c tag ih => rw [List.length_cons, List.cons_append, attributesFrom, ih]

theorem attributesFrom_text (item : Attribute) (rest : Text) :
    attributesFrom 0 (item.text ++ rest) =
      (item.name, some item.value) :: attributesFrom 0 rest := by
  have hspace : attributeAt? (' ' :: (item.assignment ++ rest)) = none := rfl
  have hread := item.attributeAt?_assignment rest
  rw [Attribute.text, List.cons_append, attributesFrom, hspace]
  obtain ⟨c, more, hassignment⟩ : ∃ c more, item.assignment = c :: more :=
    List.exists_cons_of_ne_nil (by simp [Attribute.assignment])
  rw [hassignment, List.cons_append] at hread ⊢
  dsimp only
  rw [attributesFrom, hread]
  exact congrArg _ (attributesFrom_skip more rest)

theorem attributes_written (written : List Attribute) :
    attributes (written.flatMap Attribute.text) = written.map Attribute.entry := by
  have hfrom : attributesFrom 0 (written.flatMap Attribute.text) =
      written.map fun item => (item.name, some item.value) := by
    induction written with
    | nil => rfl
    | cons item written ih =>
        rw [List.flatMap_cons, attributesFrom_text, ih, List.map_cons]
  rw [attributes, hfrom, List.map_map]
  rfl

def slotTag (written : List Attribute) : Text :=
  "<slot" ++ (written.flatMap Attribute.text ++ " />")

section Written

variable {written : List Attribute}

theorem Attribute.not_mem_name (item : Attribute) (hstarts : startsAttribute c = false)
    (hcontinues : continuesAttribute c = false) : c ∉ item.name := by
  obtain ⟨first, rest, hname, hfirst, hrest⟩ := item.exists_name
  rw [hname]
  exact Component.not_mem_name hfirst hrest hstarts hcontinues

theorem getLast?_written (hne : written ≠ []) :
    (written.flatMap Attribute.text).getLast? = some '"' := by
  obtain ⟨front, item, rfl⟩ := (List.eq_nil_or_concat' written).resolve_left hne
  simp [Attribute.text, Attribute.assignment, List.getLast?_append, List.getLast?_cons]

theorem isShortest_isTagEnd {before : Text} (h : ∀ c ∈ before.getLast?, isSpace c = false) :
    IsShortest IsTagEnd before [' ', '/'] := by
  refine ⟨⟨[' '], rfl, .inr rfl⟩, ?_⟩
  rintro front back rfl ⟨gap, hgap, hend | hend⟩
  · have hslash : '/' ∈ gap := by simp [← hend]
    exact absurd (List.all_eq_true.mp hgap _ hslash) (by decide)
  · have hback : back ++ [' '] = gap := by
      rw [List.append_cons] at hend
      exact List.append_cancel_right hend
    by_contra hne
    have hspace : isSpace (back.getLast hne) = false := by
      apply h
      rw [List.getLast?_append_of_ne_nil _ hne, List.getLast?_eq_some_getLast hne]
      rfl
    have hblank : isSpace (back.getLast hne) = true := by
      apply List.all_eq_true.mp hgap
      simp [← hback]
    rw [hblank] at hspace
    contradiction

theorem angle_not_mem_written (h : ∀ item ∈ written, '>' ∉ item.value) :
    '>' ∉ written.flatMap Attribute.text := by
  rw [List.mem_flatMap]
  rintro ⟨item, hitem, hangle⟩
  have hname : '>' ∉ item.name := item.not_mem_name (by decide) (by decide)
  simp [Attribute.text, Attribute.assignment, hname, h item hitem] at hangle

theorem hasAttributes_written (hne : written ≠ []) :
    HasAttributes (written.flatMap Attribute.text ++ [' ', '/'])
      (written.flatMap Attribute.text) := by
  obtain ⟨item, others, rfl⟩ := List.exists_cons_of_ne_nil hne
  have hlast := getLast?_written hne
  rw [List.flatMap_cons, Attribute.text, List.cons_append] at hlast ⊢
  refine .attributes rfl (isShortest_isTagEnd fun c hc => ?_)
  rw [List.getLast?_cons, Option.mem_def.mp hc] at hlast
  cases hlast
  rfl

theorem slotTags_written (h : ∀ item ∈ written, '>' ∉ item.value) :
    (slotTags 0 (slotTag written)).map attributes = [written.map Attribute.entry] := by
  have hread : ∀ found, IsSlotTag (slotTag written) found →
      slotTags 0 (slotTag written) = [found] := by
    intro found hfound
    have hscan := scans_slotTags.scan_written reads_slotTagAt? hfound []
    rwa [List.append_nil] at hscan
  have hangle := angle_not_mem_written h
  by_cases hne : written = []
  · subst hne
    rfl
  · rw [hread _ ⟨_, by simpa using hangle, hasAttributes_written hne, by simp [slotTag]⟩,
      List.map_singleton, attributes_written]

theorem isInfix_slotTag {item : Attribute} (h : item ∈ written) :
    item.value <:+: slotTag written := by
  have hvalue : item.value <:+: item.text :=
    ⟨' ' :: (item.name ++ ['=', '"']), ['"'], by simp [Attribute.text, Attribute.assignment]⟩
  have htext : item.text <:+: slotTag written := by
    obtain ⟨front, back, rfl⟩ := List.append_of_mem h
    exact ⟨"<slot" ++ front.flatMap Attribute.text, back.flatMap Attribute.text ++ " />".toList,
      by simp [slotTag]⟩
  exact hvalue.trans htext

theorem exists_isInfix_value {inner : Text} (hbrace : '"' ∉ '\x7b' :: inner)
    (h : '\x7b' :: inner <:+: slotTag written) :
    ∃ item ∈ written, '\x7b' :: inner <:+: item.value := by
  have htexts := Text.isInfix_of_not_mem (by decide) h
  clear h
  induction written with
  | nil => exact absurd (htexts.subset (List.mem_cons_self ..)) (by decide)
  | cons item others ih =>
      have hname : '\x7b' ∉ item.name := item.not_mem_name (by decide) (by decide)
      have hsplit : (item :: others).flatMap Attribute.text ++ " />".toList =
          (' ' :: (item.name ++ ['='])) ++ '"' ::
            (item.value ++ '"' :: (others.flatMap Attribute.text ++ " />".toList)) := by
        simp [Attribute.text, Attribute.assignment]
      rw [hsplit] at htexts
      rcases Text.isInfix_append_cons hbrace htexts with hfront | hbehind
      · have hmem := hfront.subset (List.mem_cons_self ..)
        simp [hname] at hmem
      · rcases Text.isInfix_append_cons hbrace hbehind with hvalue | hothers
        · exact ⟨item, List.mem_cons_self .., hvalue⟩
        · obtain ⟨later, hlater, hvalue⟩ := ih hothers
          exact ⟨later, List.mem_cons_of_mem _ hlater, hvalue⟩

theorem mem_renders_slotTag_iff :
    name ∈ renders 0 (slotTag written) ↔
      ∃ item ∈ written, ∃ tag, IsRenderTag tag name ∧ tag <:+: item.value := by
  rw [mem_renders_iff]
  constructor
  · rintro ⟨tag, htag, hwithin⟩
    obtain ⟨inner, rfl, -, hquote⟩ := htag.exists_cons
    obtain ⟨item, hitem, hvalue⟩ := exists_isInfix_value (by simpa using hquote) hwithin
    exact ⟨item, hitem, _, htag, hvalue⟩
  · rintro ⟨item, hitem, tag, htag, hwithin⟩
    exact ⟨tag, htag, hwithin.trans (isInfix_slotTag hitem)⟩

/-! ## The slot of a written tag -/

def writtenName (written : List Attribute) : Text :=
  ((written.find? fun item => item.name == "name".toList).map fun item => trim item.value).getD
    "default"

structure Describes (written : List Attribute) (slot : Slot) : Prop where
  name : slot.name = writtenName written
  description : slot.description = none
  absent : slot.attributes = none ↔ ∀ item ∈ written, item.name = "name".toList
  entries : ∀ entries ∈ slot.attributes, InOrder entries ∧ ∀ key value,
    (key, value) ∈ entries ↔ key ≠ "name".toList ∧ ∃ item ∈ written, item.entry = (key, value)

theorem lookup_entries (key : Text) :
    (written.map Attribute.entry).lookup key =
      (written.find? fun item => item.name == key).map fun item => trim item.value := by
  induction written with
  | nil => rfl
  | cons item others ih =>
      rw [List.map_cons, lookup_cons_eq, List.find?_cons, ih]
      by_cases hkey : key = item.name
      · simp [Attribute.entry, hkey]
      · have hbeq : (item.name == key) = false := beq_false_of_ne (Ne.symm hkey)
        simp [Attribute.entry, hkey, hbeq]

theorem lookup_reverse (hkeys : (entries.map Prod.fst).Nodup) :
    entries.reverse.lookup key = entries.lookup key := by
  have hreverse : (entries.reverse.map Prod.fst).Nodup := by
    rwa [List.map_reverse, List.nodup_reverse]
  ext value
  rw [lookup_eq_some_iff_mem hreverse, lookup_eq_some_iff_mem hkeys, List.mem_reverse]

theorem eq_none_iff_of_rel {α β : Type} {r : α → β → Prop} {x : Option α} {y : Option β}
    (h : Option.Rel r x y) : y = none ↔ x = none := by
  cases h <;> simp

section Distinct

variable (hnames : (written.map Attribute.name).Nodup)

include hnames

theorem nodup_keys_written : ((written.map Attribute.entry).map Prod.fst).Nodup := by
  rwa [List.map_map]

theorem givenName_entries : givenName (written.map Attribute.entry) = writtenName written := by
  rw [givenName, lookup_reverse (nodup_keys_written hnames), lookup_entries, writtenName]

theorem describes_ofAttributes :
    Describes written (Slot.ofAttributes (written.map Attribute.entry)) where
  name := by rw [name_ofAttributes, givenName_entries hnames]
  description := rfl
  absent := by
    rw [eq_none_iff_of_rel (attributes_ofAttributes _)]
    simp [hasOthers, Attribute.entry]
  entries := by
    intro entries hentries
    have hrel := attributes_ofAttributes (written.map Attribute.entry)
    rw [Option.mem_def.mp hentries] at hrel
    split at hrel
    · cases hrel with
      | some hothers =>
          refine ⟨hothers.inOrder, fun key value => ?_⟩
          rw [← lookup_eq_some_iff_mem (nodup_keys_of_inOrder hothers.inOrder), hothers.lookup,
            Option.ite_none_left_eq_some, lookup_reverse (nodup_keys_written hnames),
            lookup_eq_some_iff_mem (nodup_keys_written hnames), List.mem_map]
    · cases hrel

theorem Describes.angle_not_mem (h : Describes written slot) (hslot : slot ∈ templateSlots template)
    {item : Attribute} (hitem : item ∈ written) :
    '>' ∉ item.value := by
  obtain ⟨hslotName, hslotEntries⟩ := angle_not_mem_slot hslot
  rw [← Text.mem_trim_iff (by decide)]
  have hentry : item.entry ∈ written.map Attribute.entry := List.mem_map_of_mem hitem
  by_cases hname : item.name = "name".toList
  · have hlookup := (lookup_eq_some_iff_mem (nodup_keys_written hnames)).mpr hentry
    rw [hname, lookup_entries] at hlookup
    rwa [h.name, writtenName, hlookup] at hslotName
  · cases hattributes : slot.attributes with
    | none => exact absurd (h.absent.mp hattributes item hitem) hname
    | some entries =>
        have hmem := ((h.entries entries hattributes).2 item.name (trim item.value)).mpr
          ⟨hname, item, hitem, rfl⟩
        exact hslotEntries entries hattributes _ hmem

end Distinct

theorem firstOccurrences_eq_singleton {names : List Text}
    (h : ∀ other ∈ names, other = name) : Text.firstOccurrences (name :: names) = [name] := by
  rw [Text.firstOccurrences, List.cons_eq_cons, List.filter_eq_nil_iff]
  refine ⟨rfl, fun other hother => ?_⟩
  simpa using h other (Text.mem_firstOccurrences.mp hother)

theorem collected_singleton (h : slot.description = none) :
    collected [slot] slot.name = slot := by
  obtain ⟨name, description, attributes⟩ := slot
  subst h
  simp [collected, supplied]

end Written

/-- A written tag is read back, as one slot with all of its attributes, exactly if no value has
a closing angle and no value renders a snippet of another name. -/
theorem slot_tag_read_iff (options : Options) (script : Text) (written : List Attribute)
    (hnames : (written.map Attribute.name).Nodup) :
    (∃ slot, (TemplateApi.scan options (slotTag written) script).slots = [slot] ∧
        Describes written slot) ↔
      ∀ item ∈ written, '>' ∉ item.value ∧ ∀ tag name, IsRenderTag tag name →
        tag <:+: item.value → name = writtenName written := by
  have hscan : (TemplateApi.scan options (slotTag written) script).slots =
      templateSlots (slotTag written) := rfl
  rw [hscan]
  constructor
  · rintro ⟨slot, hslots, hdescribes⟩ item hitem
    refine ⟨hdescribes.angle_not_mem hnames (hslots ▸ List.mem_singleton_self slot) hitem, ?_⟩
    intro tag name htag hwithin
    have hrendered := mem_renders_slotTag_iff.mpr ⟨item, hitem, tag, htag, hwithin⟩
    have hname : name ∈ (templateSlots (slotTag written)).map Slot.name := by
      simp [templateSlots_eq, Function.comp_def, Text.mem_firstOccurrences, hrendered]
    rwa [hslots, List.map_singleton, List.mem_singleton, hdescribes.name] at hname
  · intro h
    have hslot := describes_ofAttributes hnames
    have hrendered : ∀ name ∈ renders 0 (slotTag written), name = writtenName written := by
      intro name hname
      obtain ⟨item, hitem, tag, htag, hwithin⟩ := mem_renders_slotTag_iff.mp hname
      exact (h item hitem).2 tag name htag hwithin
    refine ⟨_, ?_, hslot⟩
    rw [templateSlots_eq, slotTags_written fun item hitem => (h item hitem).1, List.map_singleton,
      List.map_singleton, List.singleton_append, givenName_entries hnames,
      firstOccurrences_eq_singleton hrendered, List.map_singleton, ← hslot.name,
      collected_singleton hslot.description]

theorem slot_tag_read_iff_card : ∃ written : List Attribute,
    slotTag written =
      "<slot name=\" card \" title=\"\x7b@render card()\x7d a='b' /\" />".toList ∧
    (written.map Attribute.name).Nodup ∧
    ∃ slot, (TemplateApi.scan {} (slotTag written) []).slots = [slot] ∧
      Describes written slot := by
  let written : List Attribute :=
    [⟨"name", " card ", rfl, rfl, by decide⟩,
      ⟨"title", "\x7b@render card()\x7d a='b' /", rfl, rfl, by decide⟩]
  have hnames : (written.map Attribute.name).Nodup := by decide
  refine ⟨written, rfl, hnames, (slot_tag_read_iff {} [] written hnames).mpr ?_⟩
  have hangle : ∀ item ∈ written, '>' ∉ item.value := by
    simp only [written, List.forall_mem_cons]
    decide
  have hrenders : renders 0 (slotTag written) = [writtenName written] := by decide
  intro item hitem
  refine ⟨hangle item hitem, fun tag name htag hwithin => ?_⟩
  have hname := mem_renders_slotTag_iff.mpr ⟨item, hitem, tag, htag, hwithin⟩
  rwa [hrenders, List.mem_singleton] at hname

/-- A closing angle in a value ends the tag, and a snippet in a value is a second slot. -/
theorem quoted_value_not_read :
    (∃ written : List Attribute, slotTag written = "<slot title=\"a > b\" />".toList ∧
      (written.map Attribute.name).Nodup ∧
      ¬∃ slot, (TemplateApi.scan {} (slotTag written) []).slots = [slot] ∧
        Describes written slot) ∧
    ∃ written : List Attribute,
      slotTag written = "<slot title=\"\x7b@render x()\x7d\" />".toList ∧
      (written.map Attribute.name).Nodup ∧
      ¬∃ slot, (TemplateApi.scan {} (slotTag written) []).slots = [slot] ∧
        Describes written slot := by
  refine ⟨⟨[⟨"title", "a > b", rfl, rfl, by decide⟩], rfl, by decide, ?_⟩,
    ⟨[⟨"title", "\x7b@render x()\x7d", rfl, rfl, by decide⟩], rfl, by decide, ?_⟩⟩
  · rintro ⟨slot, hslots, hdescribes⟩
    have hslot : slot ∈ templateSlots _ := hslots ▸ List.mem_singleton_self slot
    exact hdescribes.angle_not_mem (by decide) hslot (List.mem_singleton_self _) (by decide)
  · rintro ⟨slot, hslots, -⟩
    have hlength := congrArg List.length hslots
    rw [List.length_singleton] at hlength
    exact absurd hlength (by decide)

end Component

end ComponentDocs
