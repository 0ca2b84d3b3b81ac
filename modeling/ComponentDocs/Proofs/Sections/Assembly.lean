import ComponentDocs.Proofs.Sections.Scan
import Mathlib.Data.List.Pairwise
import Mathlib.Data.List.Sort

/-!
# Sources that are put together from sections

A component is assembled from stretches of template with blocks between them: at most
one script of each kind and at most one style.  Cutting the source into sections gives
back what it was assembled from, in whatever order the blocks stand.
-/

namespace ComponentDocs

open Block (openingTag closingTag IsAttributes)

inductive ElementKind where
  | instanceScript
  | moduleScript
  | style
  deriving DecidableEq, Repr

def ElementKind.tag : ElementKind → Text
  | .instanceScript | .moduleScript => "script"
  | .style => "style"

def ElementKind.foreignTag : ElementKind → Text
  | .instanceScript | .moduleScript => "style"
  | .style => "script"

def HasNoTags (text : Text) : Prop :=
  ¬openingTag "script" <:+: text ∧ ¬openingTag "style" <:+: text

instance : DecidablePred HasNoTags := fun _ => inferInstanceAs (Decidable (_ ∧ _))

/-- A block of a component.  Its content does not hold its closing tag, and neither its
content nor its attributes open a block of the other tag. -/
structure Element where
  kind : ElementKind
  attributes : Text
  content : Text
  isAttributes : IsAttributes attributes
  attributes_noTags : HasNoTags attributes
  content_closed : ¬closingTag kind.tag <:+: content
  content_free : ¬openingTag kind.foreignTag <:+: content
  isModule : kind ≠ .style →
    Block.isModule ⟨0, 0, attributes, content⟩ = decide (kind = .moduleScript)

namespace Element

def text (element : Element) : Text :=
  Block.write element.kind.tag element.attributes element.content

def block (element : Element) (position : Nat) : Block :=
  ⟨position, position + element.text.length, element.attributes, element.content⟩

end Element

/-- A source in parts: elements, each behind a stretch of template, and the template
behind the last one. -/
structure Assembly where
  parts : List (Text × Element)
  last : Text
  kinds_nodup : (parts.map fun part => part.2.kind).Nodup
  segments_noTags : ∀ part ∈ parts, HasNoTags part.1
  last_noTags : HasNoTags last

namespace Assembly

def textFrom (last : Text) : List (Text × Element) → Text
  | [] => last
  | (segment, element) :: parts => segment ++ (element.text ++ textFrom last parts)

def source (assembly : Assembly) : Text :=
  textFrom assembly.last assembly.parts

def template (assembly : Assembly) : Text :=
  assembly.parts.flatMap Prod.fst ++ assembly.last

def element? (assembly : Assembly) (kind : ElementKind) : Option Element :=
  (assembly.parts.map Prod.snd).find? fun element => element.kind = kind

def content (assembly : Assembly) (kind : ElementKind) : Text :=
  ((assembly.element? kind).map Element.content).getD []

def language (assembly : Assembly) : Text :=
  ((assembly.element? .instanceScript).map fun element => (element.block 0).language).getD
    Block.defaultLanguage

def placedFrom : Nat → List (Text × Element) → List (Element × Nat)
  | _, [] => []
  | position, (segment, element) :: parts =>
      (element, position + segment.length) ::
        placedFrom (position + segment.length + element.text.length) parts

def placed (assembly : Assembly) : List (Element × Nat) :=
  placedFrom 0 assembly.parts

def blockOf (item : Element × Nat) : Block :=
  item.1.block item.2

end Assembly

theorem tag_eq_script_iff {kind : ElementKind} :
    kind.tag = ElementKind.tag .instanceScript ↔ kind ≠ .style := by
  cases kind <;> decide

theorem lt_not_mem_tag (kind : ElementKind) : '<' ∉ kind.tag := by
  cases kind <;> decide

theorem HasNoTags.openingTag_not_isInfix {text : Text} (h : HasNoTags text)
    (kind : ElementKind) : ¬openingTag kind.tag <:+: text := by
  cases kind with
  | instanceScript | moduleScript => exact h.1
  | style => exact h.2

namespace Element

theorem foreignTag_of_tag_ne {kind other : ElementKind} (h : kind.tag ≠ other.tag) :
    kind.foreignTag = other.tag := by
  revert h
  cases kind <;> cases other <;> decide

theorem tag_not_isPrefix {kind other : ElementKind} (h : other.tag ≠ kind.tag) (behind : Text) :
    ¬kind.tag <+: other.tag ++ behind := by
  have hstarts : kind.tag.take 2 ≠ other.tag.take 2 := by
    revert h
    cases kind <;> cases other <;> decide
  have hlength (kind : ElementKind) : 2 ≤ kind.tag.length := by cases kind <;> decide
  intro hstart
  have htake := hstart.take 2
  rw [List.take_append_of_le_length (hlength other)] at htake
  exact hstarts (htake.eq_of_length (by simp [hlength]))

theorem not_isInfix_text (element : Element) {kind : ElementKind}
    (h : element.kind.tag ≠ kind.tag) : ¬openingTag kind.tag <:+: element.text := by
  have hmark : (openingTag kind.tag).IsMark := Block.isMark_openingTag (lt_not_mem_tag kind)
  have hangle : '>' ∉ openingTag kind.tag := by cases kind <;> decide
  have hclosing : ¬openingTag kind.tag <:+: closingTag element.kind.tag := by
    cases element.kind <;> cases kind <;> decide
  have hcontent := element.content_free
  rw [foreignTag_of_tag_ne h] at hcontent
  intro hoccurs
  rw [text, Block.write, List.append_assoc, List.cons_append] at hoccurs
  rcases Text.isInfix_append_cons hangle hoccurs with hoccurs | hoccurs
  · rw [openingTag, openingTag, List.cons_append, List.infix_cons_iff,
      List.cons_prefix_cons] at hoccurs
    rcases hoccurs with ⟨-, hoccurs⟩ | hoccurs
    · exact tag_not_isPrefix h element.attributes hoccurs
    · exact element.attributes_noTags.openingTag_not_isInfix kind
        (Text.isInfix_of_not_mem (lt_not_mem_tag element.kind) hoccurs)
  · have hmeets : Text.MeetsMark (openingTag kind.tag) (closingTag element.kind.tag) := .inr rfl
    rcases Text.isInfix_append hmark hmeets hoccurs with hoccurs | hoccurs
    · exact hcontent hoccurs
    · exact hclosing hoccurs

theorem meetsMark_text_append (element : Element) (kind : ElementKind) (behind : Text) :
    Text.MeetsMark (openingTag kind.tag) (element.text ++ behind) := .inr rfl

theorem getLast?_text (element : Element) : element.text.getLast? = some '>' := by
  rw [text, Block.write, closingTag, ← List.append_assoc, List.getLast?_append]
  rfl

theorem allFrom_text_append (element : Element) (position : Nat) (behind : Text) :
    Block.allFrom element.kind.tag 0 position (element.text ++ behind) =
      element.block position ::
        Block.allFrom element.kind.tag 0 (position + element.text.length) behind :=
  Block.allFrom_write (lt_not_mem_tag element.kind) element.isAttributes element.content_closed
    position behind

theorem isModule_block (element : Element) (h : element.kind ≠ .style) (position : Nat) :
    (element.block position).isModule = decide (element.kind = .moduleScript) :=
  element.isModule h

end Element

namespace Assembly

/-- A tag that does not occur in two texts does not occur in both together, if the first
one ends in an angle. -/
theorem not_isInfix_append {kind : ElementKind} {front segment : Text}
    (hend : ∀ c ∈ front.getLast?, c = '>') (hfront : ¬openingTag kind.tag <:+: front)
    (hsegment : HasNoTags segment) : ¬openingTag kind.tag <:+: front ++ segment := by
  have hangle : '>' ∉ openingTag kind.tag := by cases kind <;> decide
  rcases List.eq_nil_or_concat front with rfl | ⟨front, c, rfl⟩
  · exact hsegment.openingTag_not_isInfix kind
  · obtain rfl : c = '>' := hend c (by simp)
    rw [List.concat_eq_append] at hfront ⊢
    intro hoccurs
    rw [List.append_assoc, List.singleton_append] at hoccurs
    rcases Text.isInfix_append_cons hangle hoccurs with hoccurs | hoccurs
    · exact hfront (hoccurs.trans (List.prefix_append front _).isInfix)
    · exact hsegment.openingTag_not_isInfix kind hoccurs

/-- The search for the blocks of a tag finds the elements of that tag.  What has been
passed over without finding one stands in `front`. -/
theorem allFrom_textFrom (kind : ElementKind) {last : Text} (hlast : HasNoTags last)
    (front : Text) (hend : ∀ c ∈ front.getLast?, c = '>')
    (hfront : ¬openingTag kind.tag <:+: front)
    {parts : List (Text × Element)} (hparts : ∀ part ∈ parts, HasNoTags part.1)
    (position : Nat) :
    Block.allFrom kind.tag 0 position (front ++ textFrom last parts) =
      ((placedFrom (position + front.length) parts).filter
        fun item => item.1.kind.tag = kind.tag).map blockOf := by
  have hname := lt_not_mem_tag kind
  induction parts generalizing front position with
  | nil =>
      have hfree := not_isInfix_append hend hfront hlast
      have hpass := Block.allFrom_free hname hfree (.inl rfl) position
      rw [List.append_nil] at hpass
      rw [textFrom, hpass, placedFrom]
      rfl
  | cons part parts ih =>
      obtain ⟨segment, element⟩ := part
      rw [List.forall_mem_cons] at hparts
      have hfree := not_isInfix_append hend hfront hparts.1
      rw [textFrom, placedFrom, ← List.append_assoc]
      by_cases htag : element.kind.tag = kind.tag
      · -- the element is found, and the search goes on behind it
        have hrest := ih [] (by simp) (by cases kind <;> decide) hparts.2
        simp only [List.nil_append, List.length_nil, Nat.add_zero] at hrest
        rw [Block.allFrom_free hname hfree (element.meetsMark_text_append kind _), ← htag,
          element.allFrom_text_append, htag, hrest, List.length_append, ← Nat.add_assoc,
          List.filter_cons_of_pos (by simpa using htag), List.map_cons]
        rfl
      · -- the element is passed over together with what stands before it
        have hlonger : ¬openingTag kind.tag <:+: front ++ segment ++ element.text := by
          intro hoccurs
          have hmeets : Text.MeetsMark (openingTag kind.tag) element.text := .inr rfl
          rcases Text.isInfix_append (Block.isMark_openingTag hname) hmeets hoccurs with h | h
          · exact hfree h
          · exact element.not_isInfix_text htag h
        have hrest := ih (front ++ segment ++ element.text)
          (by simp [element.getLast?_text]) hlonger hparts.2 position
        rw [← List.append_assoc, hrest, List.filter_cons_of_neg (by simpa using htag)]
        simp only [List.length_append, Nat.add_assoc]

theorem all_source (assembly : Assembly) (kind : ElementKind) :
    Block.all kind.tag assembly.source =
      (assembly.placed.filter fun item => item.1.kind.tag = kind.tag).map blockOf := by
  have h := allFrom_textFrom kind assembly.last_noTags [] (by simp)
    (by cases kind <;> decide) assembly.segments_noTags 0
  exact h

/-! ## The blocks of an assembly -/

theorem map_fst_placedFrom (position : Nat) (parts : List (Text × Element)) :
    (placedFrom position parts).map Prod.fst = parts.map Prod.snd := by
  induction parts generalizing position with
  | nil => rfl
  | cons part parts ih => simp [placedFrom, ih]

theorem start_le_of_mem_placedFrom {position : Nat} {parts : List (Text × Element)}
    {item : Element × Nat} (h : item ∈ placedFrom position parts) : position ≤ item.2 := by
  induction parts generalizing position with
  | nil => simp [placedFrom] at h
  | cons part parts ih =>
      rw [placedFrom, List.mem_cons] at h
      rcases h with rfl | h
      · exact Nat.le_add_right _ _
      · have := ih h
        omega

theorem pairwise_placedFrom (position : Nat) (parts : List (Text × Element)) :
    (placedFrom position parts).Pairwise fun item later =>
      (blockOf item).stop ≤ (blockOf later).start := by
  induction parts generalizing position with
  | nil => exact .nil
  | cons part parts ih =>
      exact .cons (fun _ h => start_le_of_mem_placedFrom h) (ih _)

theorem not_holds_of_mem_placed {assembly : Assembly} {item other : Element × Nat}
    (hitem : item ∈ assembly.placed) (hother : other ∈ assembly.placed) (hne : item ≠ other) :
    (blockOf item).holds (blockOf other).start = false := by
  have hlength : (blockOf other).start < (blockOf other).stop := by
    simp only [blockOf, Element.block, Element.text, Block.length_write]
    omega
  have hpairs : assembly.placed.Pairwise (Order.Preimage blockOf Block.Apart) :=
    (pairwise_placedFrom 0 assembly.parts).imp .inl
  have hapart : Block.Apart (blockOf item) (blockOf other) := hpairs.forall hitem hother hne
  simp only [Block.holds, Bool.and_eq_false_iff, decide_eq_false_iff_not]
  rcases hapart with h | h <;> omega

def placed? (assembly : Assembly) (kind : ElementKind) : Option (Element × Nat) :=
  assembly.placed.find? fun item => item.1.kind = kind

theorem placed?_map_fst (assembly : Assembly) (kind : ElementKind) :
    (assembly.placed? kind).map Prod.fst = assembly.element? kind := by
  rw [element?, ← map_fst_placedFrom 0, List.find?_map]
  rfl

theorem find?_all_script (assembly : Assembly) {p : Block → Bool} {kind : ElementKind}
    (h : ∀ item : Element × Nat,
      (item.1.kind.tag = ElementKind.tag .instanceScript ∧ p (blockOf item) = true) ↔
        item.1.kind = kind) :
    (Block.all "script" assembly.source).find? p = (assembly.placed? kind).map blockOf := by
  have hall : Block.all "script" assembly.source = _ := assembly.all_source .instanceScript
  rw [hall, List.find?_map, List.find?_filter, placed?]
  congr 2
  funext item
  rw [decide_eq_decide, decide_eq_true_eq]
  exact h item

theorem find?_instanceScript (assembly : Assembly) :
    (Block.all "script" assembly.source).find? (fun block => !block.isModule) =
      (assembly.placed? .instanceScript).map blockOf := by
  apply find?_all_script
  rintro ⟨element, position⟩
  have hmodule := element.isModule_block
  rw [blockOf]
  cases hkind : element.kind <;> simp_all [tag_eq_script_iff]

theorem find?_moduleScript (assembly : Assembly) :
    (Block.all "script" assembly.source).find? Block.isModule =
      (assembly.placed? .moduleScript).map blockOf := by
  apply find?_all_script
  rintro ⟨element, position⟩
  have hmodule := element.isModule_block
  rw [blockOf]
  cases hkind : element.kind <;> simp_all [tag_eq_script_iff]

theorem firstOutside_style (assembly : Assembly) {around : List Block}
    (haround : ∀ block ∈ around, block ∈ Block.all "script" assembly.source) :
    Block.firstOutside "style" around 0 0 assembly.source =
      (assembly.placed? .style).map blockOf := by
  have hstyles : Block.all "style" assembly.source = _ := assembly.all_source .style
  have hscripts : Block.all "script" assembly.source = _ := assembly.all_source .instanceScript
  rw [Block.firstOutside_eq_head?]
  · rw [← Block.all, hstyles, List.head?_map, List.head?_filter, placed?]
    congr 2
    funext item
    cases item.1.kind <;> decide
  · intro block hblock outer houter
    rw [← Block.all, hstyles] at hblock
    have hscript := haround outer houter
    rw [hscripts] at hscript
    obtain ⟨item, hitem, rfl⟩ := List.mem_map.mp hblock
    obtain ⟨other, hother, rfl⟩ := List.mem_map.mp hscript
    rw [List.mem_filter, decide_eq_true_eq] at hitem hother
    apply not_holds_of_mem_placed hother.1 hitem.1
    rintro rfl
    exact absurd (hitem.2.symm.trans hother.2) (by decide)

theorem blocks_ofSource (assembly : Assembly) :
    Blocks.ofSource assembly.source =
      ⟨(assembly.placed? .instanceScript).map blockOf,
        (assembly.placed? .moduleScript).map blockOf, (assembly.placed? .style).map blockOf⟩ := by
  simp only [Blocks.ofSource, Blocks.mk.injEq]
  refine ⟨assembly.find?_instanceScript, assembly.find?_moduleScript, ?_⟩
  exact assembly.firstOutside_style fun block hblock => List.mem_of_mem_filter hblock

/-! ## The template of an assembly -/

end Assembly

def Block.Precedes (block other : Block) : Prop :=
  block.start ≤ other.start

instance : DecidableRel Block.Precedes := fun block other =>
  inferInstanceAs (Decidable (block.start ≤ other.start))

instance : Std.Total Block.Precedes :=
  ⟨fun block other => Nat.le_total block.start other.start⟩

instance : IsTrans Block Block.Precedes :=
  ⟨fun _ _ _ => Nat.le_trans⟩

theorem Blocks.insert_eq_orderedInsert (block : Block) (others : List Block) :
    insert block others = others.orderedInsert Block.Precedes block := by
  induction others with
  | nil => rfl
  | cons other others ih =>
      rw [insert, List.orderedInsert_cons, ih]
      rfl

theorem Blocks.foldr_insert_eq_insertionSort (blocks : List Block) :
    blocks.foldr insert [] = blocks.insertionSort Block.Precedes := by
  rw [show insert = List.orderedInsert Block.Precedes from
    funext₂ Blocks.insert_eq_orderedInsert]
  rfl

theorem Blocks.foldr_insert_eq {blocks inOrder : List Block} (hperm : blocks.Perm inOrder)
    (hstarts : inOrder.Pairwise fun block later => block.start < later.start) :
    blocks.foldr insert [] = inOrder := by
  have hnodup : (inOrder.map Block.start).Nodup :=
    List.pairwise_map.mpr (hstarts.imp Nat.ne_of_lt)
  have hsorted := (List.perm_insertionSort Block.Precedes blocks).trans hperm
  have hantisymm : ∀ block other, block ∈ blocks.insertionSort Block.Precedes →
      other ∈ inOrder → Block.Precedes block other → Block.Precedes other block →
        block = other := by
    intro block other hblock hother hle hge
    exact List.inj_on_of_nodup_map hnodup (hsorted.mem_iff.mp hblock) hother
      (Nat.le_antisymm hle hge)
  rw [foldr_insert_eq_insertionSort]
  exact hsorted.eq_of_pairwise hantisymm (List.pairwise_insertionSort Block.Precedes blocks)
    (hstarts.imp Nat.le_of_lt)

theorem perm_filter_kinds (items : List (Element × Nat)) :
    (items.filter (fun item => item.1.kind = .instanceScript) ++
      items.filter (fun item => item.1.kind = .moduleScript) ++
      items.filter (fun item => item.1.kind = .style)).Perm items := by
  induction items with
  | nil => exact .nil
  | cons item items ih =>
      cases hkind : item.1.kind with
      | instanceScript => simpa [hkind] using ih
      | moduleScript =>
          simpa [hkind] using List.perm_middle.trans (.cons item (by simpa using ih))
      | style =>
          simpa [hkind, ← List.append_assoc] using List.perm_middle.trans (.cons item ih)

theorem filter_eq_toList_find? {items : List (Element × Nat)}
    (h : (items.map fun item => item.1.kind).Nodup) (kind : ElementKind) :
    items.filter (fun item => item.1.kind = kind) =
      (items.find? fun item => item.1.kind = kind).toList := by
  induction items with
  | nil => rfl
  | cons item items ih =>
      rw [List.map_cons, List.nodup_cons] at h
      by_cases hkind : item.1.kind = kind
      · have hothers : items.filter (fun other => other.1.kind = kind) = [] := by
          rw [List.filter_eq_nil_iff]
          intro other hother heq
          apply h.1
          rw [hkind, ← of_decide_eq_true heq]
          exact List.mem_map_of_mem hother
        simp [hkind, hothers]
      · simp [hkind, ih h.2]

namespace Assembly

theorem kinds_placed (assembly : Assembly) :
    (assembly.placed.map fun item => item.1.kind).Nodup := by
  have h := congrArg (List.map Element.kind) (map_fst_placedFrom 0 assembly.parts)
  rw [List.map_map, List.map_map] at h
  exact h.symm ▸ assembly.kinds_nodup

theorem perm_placed (assembly : Assembly) :
    ((assembly.placed? .instanceScript).toList ++ (assembly.placed? .moduleScript).toList ++
      (assembly.placed? .style).toList).Perm assembly.placed := by
  have hnodup := assembly.kinds_placed
  unfold placed?
  rw [← filter_eq_toList_find? hnodup, ← filter_eq_toList_find? hnodup,
    ← filter_eq_toList_find? hnodup]
  exact perm_filter_kinds assembly.placed

theorem sorted_blocks (assembly : Assembly) :
    (Blocks.ofSource assembly.source).sorted = assembly.placed.map blockOf := by
  rw [blocks_ofSource]
  apply Blocks.foldr_insert_eq
  · have h := assembly.perm_placed.map blockOf
    simpa only [List.map_append, Option.toList_map] using h
  · rw [List.pairwise_map]
    refine (pairwise_placedFrom 0 assembly.parts).imp fun {item later} h => ?_
    have hlength : (blockOf item).start < (blockOf item).stop := by
      simp only [blockOf, Element.block, Element.text, Block.length_write]
      omega
    omega

theorem withoutBlocks_textFrom (last : Text) (parts : List (Text × Element)) (before : Text) :
    withoutBlocks (before ++ textFrom last parts) before.length
        ((placedFrom before.length parts).map blockOf) =
      parts.flatMap Prod.fst ++ last := by
  induction parts generalizing before with
  | nil => simp [placedFrom, withoutBlocks, textFrom]
  | cons part parts ih =>
      obtain ⟨segment, element⟩ := part
      have hrest := ih (before ++ segment ++ element.text)
      simp only [List.length_append, List.append_assoc] at hrest
      have hsegment : ((before ++ textFrom last ((segment, element) :: parts)).drop
          before.length).take (before.length + segment.length - before.length) = segment := by
        rw [Nat.add_sub_cancel_left, List.drop_left, textFrom, List.take_left]
      rw [placedFrom, List.map_cons, withoutBlocks, if_neg (by simp [blockOf, Element.block])]
      simp only [blockOf, Element.block] at hrest ⊢
      rw [hsegment, textFrom, Nat.add_assoc, hrest, List.flatMap_cons, List.append_assoc]

theorem content_placed? (assembly : Assembly) (kind : ElementKind) :
    (((assembly.placed? kind).map blockOf).map Block.content).getD [] = assembly.content kind := by
  rw [content, ← placed?_map_fst, Option.map_map, Option.map_map]
  rfl

theorem language_placed? (assembly : Assembly) :
    (((assembly.placed? .instanceScript).map blockOf).map Block.language).getD
      Block.defaultLanguage = assembly.language := by
  rw [language, ← placed?_map_fst, Option.map_map, Option.map_map]
  rfl

/--
Cutting a source into sections undoes assembling it: each script and the style come back
with their contents, the language is that of the instance script, and the template is what
stands between the blocks.
-/
theorem sections_source (assembly : Assembly) :
    Sections.ofSource assembly.source =
      { script := assembly.content .instanceScript
        language := assembly.language
        moduleScript := assembly.content .moduleScript
        template := assembly.template
        style := assembly.content .style } := by
  have htemplate : withoutBlocks assembly.source 0 (Blocks.ofSource assembly.source).sorted =
      assembly.template := by
    rw [sorted_blocks]
    exact withoutBlocks_textFrom assembly.last assembly.parts []
  unfold Sections.ofSource
  dsimp only
  rw [htemplate, blocks_ofSource, content_placed?, content_placed?, content_placed?,
    language_placed?]

/-- An assembly: a style, half a tag, a closing tag of nothing, and a script that quotes an
angle in its attributes and opens a script in its content. -/
example : ∃ assembly : Assembly, assembly.source =
    "<style>p</style><scrip</style><script a='>'>x<script</script>z" := by
  have hclosed : Block.Closed " a='>'" :=
    .plain ' ' _ (by decide) (by decide) (by decide)
      (.plain 'a' _ (by decide) (by decide) (by decide)
        (.plain '=' _ (by decide) (by decide) (by decide)
          (.quoted '\'' ">" [] (.inr rfl) (by decide) .nil)))
  let style : Element :=
    ⟨.style, [], "p", ⟨.nil, by simp, by simp⟩, by decide, by decide, by decide, by simp⟩
  let script : Element :=
    ⟨.instanceScript, " a='>'", "x<script", ⟨hclosed, by simp, by decide⟩, by decide, by decide,
      by decide, fun _ => by decide⟩
  have hsegments : ∀ part ∈ [([], style), ("<scrip</style>", script)], HasNoTags part.1 := by
    simp only [List.forall_mem_cons]
    exact ⟨by decide, by decide, by simp⟩
  exact ⟨⟨_, "z", by simp [style, script], hsegments, by decide⟩, rfl⟩

end Assembly

end ComponentDocs
