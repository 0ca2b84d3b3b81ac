import ComponentDocs.Proofs.Sections.Assembly
import ComponentDocs.Proofs.Text.Scan
import ComponentDocs.Proofs.Text.Tidy

/-!
# What the template holds

The blocks of a source are written where they were found.  The template is the source
without them, apart from one case: a script that begins inside the style and ends behind it
is left alone, so that its end stays in the template.
-/

namespace ComponentDocs

variable {behind text : Text} {block : Block} {position : Nat}

theorem Text.eq_append_of_cut? {mark before : Text}
    (h : Text.cut? mark text = some (before, behind)) (hmark : mark ≠ []) :
    text = before ++ mark ++ behind ∧ ¬mark <:+: before := by
  induction text generalizing before with
  | nil => simp [cut?, hmark] at h
  | cons c rest ih =>
      rw [cut?] at h
      split at h
      · next hprefix =>
          cases h
          refine ⟨?_, by simpa using hmark⟩
          obtain ⟨more, hmore⟩ := List.isPrefixOf_iff_prefix.mp hprefix
          rw [← hmore, List.drop_left]
          rfl
      · next hprefix =>
          obtain ⟨⟨front, back⟩, hrest, hpair⟩ := Option.map_eq_some_iff.mp h
          cases hpair
          obtain ⟨htext, hfree⟩ := ih hrest
          refine ⟨by rw [htext]; rfl, fun hoccurs => ?_⟩
          rcases List.infix_cons_iff.mp hoccurs with hbegins | hlater
          · apply hprefix
            rw [List.isPrefixOf_iff_prefix, htext, List.append_assoc, ← List.cons_append]
            exact hbegins.trans (List.prefix_append _ _)
          · exact hfree hlater

namespace Block

def Unquoted : Option Char → Text → Prop
  | none, inside => Closed inside
  | some quote, inside =>
      ∃ value rest, inside = value ++ quote :: rest ∧ quote ∉ value ∧ Closed rest

theorem eq_append_of_cutTag {quote : Option Char} {inside : Text}
    (h : cutTag quote text = some (inside, behind)) :
    text = inside ++ '>' :: behind ∧ Unquoted quote inside := by
  induction text generalizing quote inside with
  | nil => simp [cutTag] at h
  | cons c rest ih =>
      cases quote with
      | none =>
          rw [cutTag] at h
          split at h
          · next hangle =>
              cases h
              exact ⟨by simp [eq_of_beq hangle], .nil⟩
          · next hangle =>
              obtain ⟨⟨front, back⟩, hrest, hpair⟩ := Option.map_eq_some_iff.mp h
              cases hpair
              obtain ⟨htext, hfront⟩ := ih hrest
              refine ⟨by rw [htext]; rfl, ?_⟩
              split at hfront
              · next hquote =>
                  obtain ⟨value, more, rfl, hvalue, hmore⟩ := hfront
                  exact .quoted c value more (by simpa using hquote) hvalue hmore
              · next hquote =>
                  rw [Bool.or_eq_true, not_or] at hquote
                  exact .plain c front (by simpa using hangle) (by simpa using hquote.1)
                    (by simpa using hquote.2) hfront
      | some quote =>
          rw [cutTag] at h
          obtain ⟨⟨front, back⟩, hrest, hpair⟩ := Option.map_eq_some_iff.mp h
          cases hpair
          obtain ⟨htext, hfront⟩ := ih hrest
          refine ⟨by rw [htext]; rfl, ?_⟩
          split at hfront
          · next hquote => exact ⟨[], front, by simp [eq_of_beq hquote], by simp, hfront⟩
          · next hquote =>
              obtain ⟨value, more, rfl, hvalue, hmore⟩ := hfront
              have hc : quote ≠ c := fun heq => hquote (by simp [heq])
              exact ⟨c :: value, more, rfl, by simp [hc, hvalue], hmore⟩

instance : DecidablePred Closed := fun attributes =>
  decidable_of_iff (cutTag none (attributes ++ ['>']) = some (attributes, []))
    ⟨fun h => (eq_append_of_cutTag h).2, fun h => h.cutTag_append []⟩

instance : DecidablePred IsAttributes := fun attributes =>
  decidable_of_iff (Closed attributes ∧
      (∀ c ∈ attributes.head?, c = ' ' ∨ c = '\t' ∨ c = '\n' ∨ c = '\r') ∧
      attributes.getLast? ≠ some '/')
    ⟨fun ⟨hclosed, hseparated, hend⟩ => ⟨hclosed, hseparated, hend⟩,
      fun h => ⟨h.closed, h.separated, h.not_selfClosing⟩⟩

/-- The text of a block: a tag with its content and its closing tag, or a tag that closes
itself. -/
inductive WrittenAs (name : Text) : Block → Text → Prop
  | pair (start stop : Nat) (attributes content : Text) :
      Closed attributes → endsTagName (attributes ++ ['>']) = true →
      attributes.getLast? ≠ some '/' → ¬closingTag name <:+: content →
        WrittenAs name ⟨start, stop, attributes, content⟩ (write name attributes content)
  | selfClosing (start stop : Nat) (attributes : Text) :
      Closed attributes → endsTagName (attributes ++ ['>']) = true →
      attributes.getLast? = some '/' →
        WrittenAs name ⟨start, stop, Text.dropEndWhile (· == '/') attributes, []⟩
          (openingTag name ++ attributes ++ ['>'])

/-- Whether a block is written in a source from its start to its end. -/
def StandsIn (name source : Text) (block : Block) : Prop :=
  ∃ before text behind, source = before ++ text ++ behind ∧ block.start = before.length ∧
    block.stop = before.length + text.length ∧ block.WrittenAs name text

theorem endsTagName_append (attributes behind : Text) :
    endsTagName (attributes ++ '>' :: behind) = endsTagName (attributes ++ ['>']) := by
  cases attributes <;> rfl

variable {name : Text} {skip : Nat}

theorem writtenAs_of_ofTag (hends : endsTagName text = true)
    (h : ofTag name position text = .block block) :
    ∃ written behind, openingTag name ++ text = written ++ behind ∧
      block.stop = position + written.length ∧ block.WrittenAs name written := by
  unfold ofTag at h
  split at h
  · contradiction
  · next attributes behind hcut =>
      obtain ⟨rfl, hclosed⟩ := eq_append_of_cutTag hcut
      rw [endsTagName_append] at hends
      dsimp only at h
      split at h
      · next hself =>
          cases h
          refine ⟨_, behind, ?_, ?_,
            .selfClosing _ _ attributes hclosed hends (by simpa using hself)⟩
          · simp
          · simp only [List.length_append, List.length_singleton]
            omega
      · next hself =>
          split at h
          · contradiction
          · next content after hcontent =>
              cases h
              obtain ⟨rfl, hfree⟩ := Text.eq_append_of_cut? hcontent (by simp [closingTag])
              refine ⟨_, after, ?_, ?_,
                .pair _ _ attributes content hclosed hends (by simpa using hself) hfree⟩
              · simp [write]
              · dsimp only
                rw [length_write]
                omega

theorem standsIn_of_scan {before : Text}
    (h : scan name before.length text = .block block) : block.StandsIn name (before ++ text) := by
  have hstart := start_of_scan h
  unfold scan at h
  split at h
  · contradiction
  · next rest hrest =>
      split at h
      case isFalse => contradiction
      case isTrue hends =>
        obtain ⟨written, behind, htext, hstop, hwritten⟩ := writtenAs_of_ofTag hends h
        refine ⟨before, written, behind, ?_, hstart, hstop, hwritten⟩
        rw [Text.after?_eq_some_iff.mp hrest, htext, List.append_assoc]

theorem StandsIn.start_lt_stop {source : Text}
    (h : block.StandsIn name source) : block.start < block.stop := by
  obtain ⟨before, text, behind, -, hstart, hstop, hwritten⟩ := h
  have htext : 0 < text.length := by
    cases hwritten with
    | pair start stop attributes content => rw [length_write]; omega
    | selfClosing => simp only [List.length_append, List.length_singleton]; omega
  omega

theorem StandsIn.stop_le {source : Text}
    (h : block.StandsIn name source) : block.stop ≤ source.length := by
  obtain ⟨before, text, behind, rfl, -, hstop, -⟩ := h
  simp only [List.length_append]
  omega

/-! ## Where blocks are found -/

def FoundIn (name : Text) (position : Nat) (text : Text) (block : Block) : Prop :=
  ∃ before behind, text = before ++ behind ∧
    scan name (position + before.length) behind = .block block

theorem FoundIn.first (h : scan name position text = .block block) :
    block.FoundIn name position text :=
  ⟨[], text, rfl, h⟩

theorem FoundIn.cons {rest : Text} (h : block.FoundIn name (position + 1) rest) (c : Char) :
    block.FoundIn name position (c :: rest) := by
  obtain ⟨before, behind, rfl, hscan⟩ := h
  refine ⟨c :: before, behind, rfl, ?_⟩
  rw [← hscan, List.length_cons]
  congr 1
  omega

theorem FoundIn.standsIn {source : Text} (h : block.FoundIn name 0 source) :
    block.StandsIn name source := by
  obtain ⟨before, behind, rfl, hscan⟩ := h
  rw [Nat.zero_add] at hscan
  exact standsIn_of_scan hscan

theorem foundIn_of_mem_allFrom (h : block ∈ allFrom name skip position text) :
    block.FoundIn name position text := by
  induction text generalizing skip position with
  | nil => simp [allFrom] at h
  | cons c rest ih =>
      cases skip with
      | succ skip =>
          rw [allFrom] at h
          exact (ih h).cons c
      | zero =>
          rw [allFrom] at h
          split at h
          · exact (ih h).cons c
          · contradiction
          · next found hscan =>
              rcases List.mem_cons.mp h with rfl | h
              · exact .first hscan
              · exact (ih h).cons c

theorem le_start_of_mem_allFrom (h : block ∈ allFrom name skip position text) :
    position + skip ≤ block.start := by
  induction text generalizing skip position with
  | nil => simp [allFrom] at h
  | cons c rest ih =>
      cases skip with
      | succ skip =>
          rw [allFrom] at h
          have := ih h
          omega
      | zero =>
          rw [allFrom] at h
          split at h
          · have := ih h
            omega
          · contradiction
          · next found hscan =>
              rcases List.mem_cons.mp h with rfl | h
              · exact (start_of_scan hscan).ge
              · have := ih h
                omega

theorem pairwise_allFrom (name : Text) (skip position : Nat) (text : Text) :
    (allFrom name skip position text).Pairwise fun block later => block.stop ≤ later.start := by
  induction text generalizing skip position with
  | nil => cases skip <;> exact .nil
  | cons c rest ih =>
      cases skip with
      | succ skip =>
          rw [allFrom]
          exact ih skip (position + 1)
      | zero =>
          rw [allFrom]
          split
          · exact ih 0 (position + 1)
          · exact .nil
          · next found _ =>
              refine .cons (fun later hlater => ?_) (ih _ _)
              have := le_start_of_mem_allFrom hlater
              omega

theorem standsIn_of_mem_all {source : Text}
    (h : block ∈ all name source) : block.StandsIn name source :=
  (foundIn_of_mem_allFrom h).standsIn

theorem StandsIn.content_isInfix {source : Text}
    (h : block.StandsIn name source) : block.content <:+: source := by
  obtain ⟨before, text, behind, rfl, -, -, hwritten⟩ := h
  cases hwritten with
  | pair start stop attributes content =>
      refine ⟨before ++ (openingTag name ++ attributes ++ ['>']), closingTag name ++ behind, ?_⟩
      simp [write]
  | selfClosing => exact List.nil_infix

theorem foundIn_of_firstOutside {around : List Block}
    (h : firstOutside name around skip position text = some block) :
    block.FoundIn name position text ∧ ∀ outer ∈ around, outer.holds block.start = false := by
  induction text generalizing skip position with
  | nil => cases skip <;> simp [firstOutside] at h
  | cons c rest ih =>
      have hlater : ∀ {skip : Nat},
          firstOutside name around skip (position + 1) rest = some block →
            block.FoundIn name position (c :: rest) ∧
              ∀ outer ∈ around, outer.holds block.start = false :=
        fun hfound => ⟨(ih hfound).1.cons c, (ih hfound).2⟩
      cases skip with
      | succ skip =>
          rw [firstOutside] at h
          exact hlater h
      | zero =>
          rw [firstOutside] at h
          split at h
          · exact hlater h
          · contradiction
          · next found hscan =>
              split at h
              · exact hlater h
              · next hnone =>
                  cases h
                  refine ⟨.first hscan, fun outer houter => ?_⟩
                  rw [start_of_scan hscan]
                  simpa using List.find?_eq_none.mp hnone outer houter

def outsideFrom (blocks : List Block) (position : Nat) (text : Text) : Text :=
  ((text.zipIdx position).filter fun place => blocks.all fun block => !block.holds place.2).map
    Prod.fst

def outside (blocks : List Block) (source : Text) : Text :=
  outsideFrom blocks 0 source

theorem holds_eq_true_iff :
    block.holds position = true ↔ block.start ≤ position ∧ position < block.stop := by
  simp [holds]

theorem holds_eq_false_iff :
    block.holds position = false ↔ position < block.start ∨ block.stop ≤ position := by
  rw [← Bool.not_eq_true, holds_eq_true_iff]
  omega

theorem outsideFrom_append (blocks : List Block) (position : Nat) (text behind : Text) :
    outsideFrom blocks position (text ++ behind) =
      outsideFrom blocks position text ++ outsideFrom blocks (position + text.length) behind := by
  simp only [outsideFrom, List.zipIdx_append, List.filter_append, List.map_append]

theorem outsideFrom_congr {blocks others : List Block}
    (h : ∀ place, position ≤ place → place < position + text.length →
      ((∃ block ∈ blocks, block.holds place = true) ↔
        ∃ block ∈ others, block.holds place = true)) :
    outsideFrom blocks position text = outsideFrom others position text := by
  unfold outsideFrom
  congr 1
  apply List.filter_congr
  rintro ⟨c, place⟩ hmem
  have hplace := h place (List.le_snd_of_mem_zipIdx hmem) (List.snd_lt_add_of_mem_zipIdx hmem)
  rw [Bool.eq_iff_iff, ← not_iff_not]
  simpa using hplace

theorem outsideFrom_of_free {blocks : List Block}
    (h : ∀ block ∈ blocks, position + text.length ≤ block.start) :
    outsideFrom blocks position text = text := by
  have hnone : outsideFrom blocks position text = outsideFrom [] position text := by
    apply outsideFrom_congr
    intro place _ hlt
    simp only [List.not_mem_nil, false_and, exists_false, iff_false, not_exists, not_and,
      holds_eq_true_iff]
    intro block hblock hle
    have := h block hblock
    omega
  rw [hnone]
  simp [outsideFrom, List.zipIdx_map_fst]

theorem outsideFrom_of_held {blocks : List Block} (hblock : block ∈ blocks)
    (hstart : block.start ≤ position)
    (hstop : position + text.length ≤ block.stop) : outsideFrom blocks position text = [] := by
  rw [outsideFrom, List.map_eq_nil_iff, List.filter_eq_nil_iff]
  rintro ⟨c, place⟩ hmem hall
  have hfree := List.all_eq_true.mp hall block hblock
  have hle := List.le_snd_of_mem_zipIdx hmem
  have hlt := List.snd_lt_add_of_mem_zipIdx hmem
  rw [Bool.not_eq_true', holds_eq_false_iff] at hfree
  dsimp only at hle hlt hfree
  omega

theorem outside_ne_of_held {source : Text} {blocks others : List Block} (hsub : blocks ⊆ others)
    {place : Nat} (hplace : place < source.length)
    (hfree : ∀ block ∈ blocks, block.holds place = false)
    (hheld : ∃ block ∈ others, block.holds place = true) :
    outside blocks source ≠ outside others source := by
  intro heq
  let isFree (blocks : List Block) (place : Char × Nat) : Bool :=
    blocks.all fun block => !block.holds place.2
  have hfilter : (source.zipIdx.filter (isFree blocks)).filter (isFree others) =
      source.zipIdx.filter (isFree others) := by
    rw [List.filter_filter]
    apply List.filter_congr
    rintro place -
    rw [Bool.and_eq_left_iff_imp]
    intro hall
    exact List.all_eq_true.mpr fun block hblock =>
      List.all_eq_true.mp hall block (hsub hblock)
  have hlength := congrArg List.length heq
  simp only [outside, outsideFrom, List.length_map] at hlength
  change (source.zipIdx.filter (isFree blocks)).length =
    (source.zipIdx.filter (isFree others)).length at hlength
  rw [← hfilter, eq_comm, List.length_filter_eq_length_iff] at hlength
  have hmem : (source[place], place) ∈ source.zipIdx.filter (isFree blocks) := by
    rw [List.mem_filter]
    exact ⟨List.mk_mem_zipIdx_iff_getElem?.mpr (List.getElem?_eq_getElem hplace),
      List.all_eq_true.mpr fun block hblock => by simp [hfree block hblock]⟩
  obtain ⟨block, hblock, hholds⟩ := hheld
  have hnone := List.all_eq_true.mp (hlength _ hmem) block hblock
  simp [hholds] at hnone

def beginsInside (block other : Block) : Bool :=
  other.start < block.start && block.start < other.stop

theorem beginsInside_eq_true_iff {other : Block} :
    block.beginsInside other = true ↔ other.start < block.start ∧ block.start < other.stop := by
  simp [beginsInside]

end Block

theorem Sections.script_isInfix (source : Text) :
    (Sections.ofSource source).script <:+: source ∧
      (Sections.ofSource source).moduleScript <:+: source := by
  have hcontent : ∀ p : Block → Bool,
      ((((Block.all "script" source).find? p).map Block.content).getD []) <:+: source := by
    intro p
    cases hfind : (Block.all "script" source).find? p with
    | none => exact List.nil_infix
    | some block =>
        exact (Block.standsIn_of_mem_all (List.mem_of_find?_eq_some hfind)).content_isInfix
  exact ⟨hcontent _, hcontent _⟩

/-! ## Leaving blocks out -/

theorem Text.drop_eq_append (text : Text) {start stop : Nat} (h : start ≤ stop) :
    text.drop start = (text.drop start).take (stop - start) ++ text.drop stop := by
  have hdrop : text.drop stop = (text.drop start).drop (stop - start) := by
    rw [List.drop_drop, Nat.add_sub_cancel' h]
  rw [hdrop, List.take_append_drop]

theorem withoutBlocks_eq_outsideFrom {source : Text} {blocks : List Block}
    (hposition : ∀ block ∈ blocks, position ≤ block.start)
    (hspan : ∀ block ∈ blocks, block.start ≤ block.stop ∧ block.stop ≤ source.length)
    (hapart : blocks.Pairwise fun block later => block.stop ≤ later.start) :
    withoutBlocks source position blocks =
      Block.outsideFrom blocks position (source.drop position) := by
  induction blocks generalizing position with
  | nil => exact (Block.outsideFrom_of_free (by simp)).symm
  | cons block rest ih =>
      rw [List.forall_mem_cons] at hposition hspan
      rw [List.pairwise_cons] at hapart
      obtain ⟨⟨hstart, hstop⟩, hspanRest⟩ := hspan
      have hfront : ((source.drop position).take (block.start - position)).length =
          block.start - position := by
        simp only [List.length_take, List.length_drop]
        omega
      have hinside : ((source.drop block.start).take (block.stop - block.start)).length =
          block.stop - block.start := by
        simp only [List.length_take, List.length_drop]
        omega
      -- the source in three parts: before the block, the block, and behind it
      rw [source.drop_eq_append hposition.1, source.drop_eq_append hstart,
        Block.outsideFrom_append, Block.outsideFrom_append, hfront, hinside,
        Nat.add_sub_cancel' hposition.1, Nat.add_sub_cancel' hstart]
      have hbefore : Block.outsideFrom (block :: rest) position
          ((source.drop position).take (block.start - position)) =
          (source.drop position).take (block.start - position) := by
        apply Block.outsideFrom_of_free
        rw [hfront, List.forall_mem_cons]
        refine ⟨by omega, fun later hlater => ?_⟩
        have := hapart.1 later hlater
        omega
      have hblock : Block.outsideFrom (block :: rest) block.start
          ((source.drop block.start).take (block.stop - block.start)) = [] :=
        Block.outsideFrom_of_held List.mem_cons_self (Nat.le_refl _) (by omega)
      have hbehind : Block.outsideFrom (block :: rest) block.stop (source.drop block.stop) =
          Block.outsideFrom rest block.stop (source.drop block.stop) := by
        apply Block.outsideFrom_congr
        intro place hle _
        rw [List.exists_mem_cons_iff, or_iff_right]
        rw [Block.holds_eq_true_iff]
        omega
      rw [hbefore, hblock, hbehind, List.nil_append, withoutBlocks,
        if_neg (Nat.not_lt.mpr hposition.1), ih hapart.1 hspanRest hapart.2]

theorem withoutBlocks_filter {source : Text} {keep : Block → Bool} {blocks : List Block}
    (hsorted : blocks.Pairwise fun block later => block.start < later.start)
    (hspan : ∀ block ∈ blocks, block.start ≤ block.stop)
    (hkept : ∀ block ∈ blocks, keep block = true → position ≤ block.start)
    (hapart : (blocks.filter keep).Pairwise fun block later => block.stop ≤ later.start)
    (hdropped : ∀ block ∈ blocks, keep block = false → block.start < position ∨
      ∃ other ∈ blocks, keep other = true ∧ other.start < block.start ∧
        block.start < other.stop) :
    withoutBlocks source position blocks = withoutBlocks source position (blocks.filter keep) := by
  induction blocks generalizing position with
  | nil => rfl
  | cons block rest ih =>
      rw [List.pairwise_cons] at hsorted
      rw [List.forall_mem_cons] at hspan hkept
      cases hkeep : keep block with
      | true =>
          rw [List.filter_cons_of_pos hkeep] at hapart ⊢
          rw [List.pairwise_cons] at hapart
          rw [withoutBlocks, withoutBlocks]
          have hstart := Nat.not_lt.mpr (hkept.1 hkeep)
          rw [if_neg hstart, if_neg hstart]
          congr 1
          refine ih hsorted.2 hspan.2 ?_ hapart.2 ?_
          · intro later hlater hkeepLater
            exact hapart.1 later (List.mem_filter.mpr ⟨hlater, hkeepLater⟩)
          · intro later hlater hdrop
            rcases hdropped later (List.mem_cons_of_mem block hlater) hdrop with
              hbefore | ⟨other, hother, hkeepOther, hstarts, hinside⟩
            · left
              have := hspan.1
              omega
            · rcases List.mem_cons.mp hother with rfl | hother
              · exact .inl hinside
              · exact .inr ⟨other, hother, hkeepOther, hstarts, hinside⟩
      | false =>
          have hstart : block.start < position := by
            rcases hdropped block List.mem_cons_self hkeep with
              hbefore | ⟨other, hother, hkeepOther, hstarts, -⟩
            · exact hbefore
            · -- no block of the list starts before the first one
              rcases List.mem_cons.mp hother with rfl | hother
              · exact absurd hstarts (Nat.lt_irrefl _)
              · exact absurd (hsorted.1 other hother) (Nat.lt_asymm hstarts)
          rw [List.filter_cons_of_neg (by simp [hkeep])] at hapart ⊢
          rw [withoutBlocks, if_pos hstart]
          refine ih hsorted.2 hspan.2 hkept.2 hapart ?_
          intro later hlater hdrop
          rcases hdropped later (List.mem_cons_of_mem block hlater) hdrop with
            hbefore | ⟨other, hother, hkeepOther, hstarts, hinside⟩
          · exact .inl hbefore
          · rcases List.mem_cons.mp hother with rfl | hother
            · rw [hkeep] at hkeepOther
              contradiction
            · exact .inr ⟨other, hother, hkeepOther, hstarts, hinside⟩

/-! ## The blocks of a source -/

namespace Blocks

def scripts (blocks : Blocks) : List Block :=
  blocks.instanceScript.toList ++ blocks.moduleScript.toList

def toList (blocks : Blocks) : List Block :=
  blocks.scripts ++ blocks.style.toList

/-- The blocks that are left out of the template: all but the scripts that begin inside the
style. -/
def cutOut (blocks : Blocks) : List Block :=
  blocks.toList.filter fun block => !blocks.style.toList.any block.beginsInside

theorem mem_cutOut_iff {blocks : Blocks} :
    block ∈ blocks.cutOut ↔
      block ∈ blocks.toList ∧ ∀ style ∈ blocks.style, block.beginsInside style = false := by
  simp [cutOut, List.mem_filter]

theorem style_mem_cutOut {blocks : Blocks} {style : Block} (h : style ∈ blocks.style) :
    style ∈ blocks.cutOut := by
  rw [mem_cutOut_iff]
  refine ⟨List.mem_append_right _ (Option.mem_toList.mpr h), fun other hother => ?_⟩
  obtain rfl := Option.mem_unique h hother
  simp [Block.beginsInside]

/-- How the blocks of a source lie: the scripts apart from each other, and the style not
beginning inside one of them. -/
structure Arranged (source : Text) (blocks : Blocks) : Prop where
  script_standsIn : ∀ script ∈ blocks.scripts, script.StandsIn "script" source
  style_standsIn : ∀ style ∈ blocks.style, style.StandsIn "style" source
  scripts_apart : blocks.scripts.Pairwise Block.Apart
  style_outside : ∀ style ∈ blocks.style, ∀ script ∈ blocks.scripts,
    script.holds style.start = false

theorem arranged_ofSource (source : Text) : (ofSource source).Arranged source := by
  have hmem : ∀ script ∈ (ofSource source).scripts, script ∈ Block.all "script" source := by
    intro script hscript
    rcases List.mem_append.mp hscript with h | h <;>
      exact List.mem_of_find?_eq_some (Option.mem_toList.mp h)
  constructor
  case script_standsIn =>
    intro script hscript
    exact Block.standsIn_of_mem_all (hmem script hscript)
  case style_standsIn =>
    intro style hstyle
    exact (Block.foundIn_of_firstOutside hstyle).1.standsIn
  case scripts_apart =>
    have hpairs : (Block.all "script" source).Pairwise Block.Apart :=
      (Block.pairwise_allFrom "script" 0 0 source).imp .inl
    rw [scripts, List.pairwise_append]
    refine ⟨by cases (ofSource source).instanceScript <;> simp,
      by cases (ofSource source).moduleScript <;> simp, fun first hfirst second hsecond => ?_⟩
    have hinstance := List.find?_some (Option.mem_toList.mp hfirst)
    have hmodule := List.find?_some (Option.mem_toList.mp hsecond)
    apply hpairs.forall (hmem first (List.mem_append_left _ hfirst))
      (hmem second (List.mem_append_right _ hsecond))
    rintro rfl
    simp [hmodule] at hinstance
  case style_outside =>
    intro style hstyle script hscript
    apply (Block.foundIn_of_firstOutside hstyle).2
    rw [List.mem_filter, Bool.or_eq_true, beq_iff_eq, beq_iff_eq]
    refine ⟨hmem script hscript, ?_⟩
    rcases List.mem_append.mp hscript with h | h
    · exact .inl (Option.mem_toList.mp h).symm
    · exact .inr (Option.mem_toList.mp h).symm

theorem sorted_eq_insertionSort (blocks : Blocks) :
    blocks.sorted = blocks.toList.insertionSort Block.Precedes :=
  foldr_insert_eq_insertionSort _

theorem perm_sorted (blocks : Blocks) : blocks.sorted.Perm blocks.toList :=
  sorted_eq_insertionSort blocks ▸ List.perm_insertionSort Block.Precedes _

namespace Arranged

variable {source : Text} {blocks : Blocks}

theorem span (h : blocks.Arranged source) (hblock : block ∈ blocks.toList) :
    block.start < block.stop ∧ block.stop ≤ source.length := by
  rcases List.mem_append.mp hblock with hscript | hstyle
  · have hstands := h.script_standsIn block hscript
    exact ⟨hstands.start_lt_stop, hstands.stop_le⟩
  · have hstands := h.style_standsIn block (Option.mem_toList.mp hstyle)
    exact ⟨hstands.start_lt_stop, hstands.stop_le⟩

theorem starts_ne (h : blocks.Arranged source) :
    blocks.toList.Pairwise fun block other => block.start ≠ other.start := by
  rw [toList, List.pairwise_append]
  refine ⟨?_, by cases blocks.style <;> simp, ?_⟩
  · refine h.scripts_apart.imp_of_mem fun {block other} hblock hother hapart => ?_
    have hspan := h.span (List.mem_append_left _ hblock)
    have hspanOther := h.span (List.mem_append_left _ hother)
    rcases hapart with hbefore | hbefore <;> omega
  · intro script hscript style hstyle
    have hspan := h.span (List.mem_append_left _ hscript)
    have hout := h.style_outside style (Option.mem_toList.mp hstyle) script hscript
    rw [Block.holds_eq_false_iff] at hout
    omega

theorem stop_le_of_mem_cutOut (h : blocks.Arranged source) {later : Block}
    (hblock : block ∈ blocks.toList) (hlater : later ∈ blocks.cutOut)
    (hstart : block.start < later.start) : block.stop ≤ later.start := by
  obtain ⟨hmem, houtside⟩ := mem_cutOut_iff.mp hlater
  have hspan := h.span hmem
  rcases List.mem_append.mp hblock with hscript | hstyle
  · rcases List.mem_append.mp hmem with hlaterScript | hlaterStyle
    · have hne : block ≠ later := by
        rintro rfl
        exact absurd hstart (Nat.lt_irrefl _)
      rcases h.scripts_apart.forall hscript hlaterScript hne with hbefore | hbefore <;> omega
    · have hout := h.style_outside later (Option.mem_toList.mp hlaterStyle) block hscript
      rw [Block.holds_eq_false_iff] at hout
      omega
  · have hout := houtside block (Option.mem_toList.mp hstyle)
    rw [← Bool.not_eq_true, Block.beginsInside_eq_true_iff] at hout
    omega

theorem starts_lt_sorted (h : blocks.Arranged source) :
    blocks.sorted.Pairwise fun block later => block.start < later.start := by
  have hle : blocks.sorted.Pairwise Block.Precedes :=
    sorted_eq_insertionSort blocks ▸ List.pairwise_insertionSort Block.Precedes _
  have hne := (perm_sorted blocks).pairwise_iff (fun {_ _} hne => hne.symm) |>.mpr h.starts_ne
  exact (hle.and hne).imp fun hboth => Nat.lt_of_le_of_ne hboth.1 hboth.2

theorem withoutBlocks_sorted (h : blocks.Arranged source) :
    withoutBlocks source 0 blocks.sorted = Block.outside blocks.cutOut source := by
  have hperm := perm_sorted blocks
  have hstarts := h.starts_lt_sorted
  have hspan : ∀ block ∈ blocks.sorted, block.start < block.stop ∧ block.stop ≤ source.length :=
    fun block hblock => h.span (hperm.mem_iff.mp hblock)
  let keep (block : Block) : Bool := !blocks.style.toList.any block.beginsInside
  have hkept : ∀ block, block ∈ blocks.sorted.filter keep ↔ block ∈ blocks.cutOut :=
    fun block => (hperm.filter keep).mem_iff
  have hapart : (blocks.sorted.filter keep).Pairwise fun block later =>
      block.stop ≤ later.start := by
    refine (hstarts.filter keep).imp_of_mem fun {block later} hblock hlater hstart => ?_
    exact h.stop_le_of_mem_cutOut (mem_cutOut_iff.mp ((hkept block).mp hblock)).1
      ((hkept later).mp hlater) hstart
  have hdropped : ∀ block ∈ blocks.sorted, keep block = false → block.start < 0 ∨
      ∃ other ∈ blocks.sorted, keep other = true ∧ other.start < block.start ∧
        block.start < other.stop := by
    intro block _ hdrop
    rw [Bool.not_eq_false', List.any_eq_true] at hdrop
    obtain ⟨style, hstyle, hinside⟩ := hdrop
    have hcut : style ∈ blocks.cutOut := style_mem_cutOut (Option.mem_toList.mp hstyle)
    obtain ⟨hmem, hkeep⟩ := List.mem_filter.mp ((hkept style).mpr hcut)
    exact .inr ⟨style, hmem, hkeep, Block.beginsInside_eq_true_iff.mp hinside⟩
  rw [withoutBlocks_filter hstarts (fun block hblock => (hspan block hblock).1.le)
      (fun block _ _ => Nat.zero_le _) hapart hdropped,
    withoutBlocks_eq_outsideFrom (fun block _ => Nat.zero_le _)
      (fun block hblock => ?_) hapart, List.drop_zero, Block.outside]
  · apply Block.outsideFrom_congr
    intro place _ _
    simp only [hkept]
  · obtain ⟨hstart, hstop⟩ := hspan block (List.mem_of_mem_filter hblock)
    exact ⟨hstart.le, hstop⟩

/-- The template lacks all blocks just if no script that begins inside the style ends behind
it. -/
theorem outside_cutOut_eq_iff (h : blocks.Arranged source) :
    Block.outside blocks.cutOut source = Block.outside blocks.toList source ↔
      ∀ script ∈ blocks.scripts, ∀ style ∈ blocks.style,
        script.beginsInside style = true → script.stop ≤ style.stop := by
  constructor
  · intro heq script hscript style hstyle hinside
    by_contra hstop
    rw [Block.beginsInside_eq_true_iff] at hinside
    have hmem : script ∈ blocks.toList := List.mem_append_left _ hscript
    have hspan := h.span hmem
    -- the first character behind the style is one of the script, and stays
    have hplace : style.stop < source.length := by omega
    refine Block.outside_ne_of_held List.filter_sublist.subset hplace ?_
      ⟨script, hmem, Block.holds_eq_true_iff.mpr (by omega)⟩ heq
    intro block hblock
    rw [Block.holds_eq_false_iff]
    obtain ⟨hblockMem, houtside⟩ := mem_cutOut_iff.mp hblock
    rcases List.mem_append.mp hblockMem with hblockScript | hblockStyle
    · have hne : block ≠ script := by
        rintro rfl
        have := houtside style hstyle
        simp [Block.beginsInside, hinside] at this
      rcases h.scripts_apart.forall hblockScript hscript hne with hbefore | hbefore <;> omega
    · obtain rfl := Option.mem_unique hstyle (Option.mem_toList.mp hblockStyle)
      exact .inr (Nat.le_refl _)
  · intro hends
    apply Block.outsideFrom_congr
    intro place _ _
    constructor
    · rintro ⟨block, hblock, hholds⟩
      exact ⟨block, (mem_cutOut_iff.mp hblock).1, hholds⟩
    · rintro ⟨block, hblock, hholds⟩
      by_cases hcut : block ∈ blocks.cutOut
      · exact ⟨block, hcut, hholds⟩
      · -- the block is a script that lies in the style as a whole
        obtain ⟨style, hstyle, hinside⟩ : ∃ style ∈ blocks.style,
            block.beginsInside style = true := by
          simpa [mem_cutOut_iff, hblock] using hcut
        have hscript : block ∈ blocks.scripts := by
          refine (List.mem_append.mp hblock).resolve_right fun hstyle => ?_
          exact hcut (style_mem_cutOut (Option.mem_toList.mp hstyle))
        have hstop := hends block hscript style hstyle hinside
        rw [Block.beginsInside_eq_true_iff] at hinside
        rw [Block.holds_eq_true_iff] at hholds
        exact ⟨style, style_mem_cutOut hstyle, Block.holds_eq_true_iff.mpr (by omega)⟩

end Arranged

end Blocks

/--
What the template of a source holds.  The scripts and the style are written in the source
from where they start to where they stop, and their contents are the other sections.  The
template is the source without the style and without the scripts that do not begin inside
the style.  So it is the source without all of its blocks just if no script that begins
inside the style ends behind it.
-/
theorem template_outside_blocks (source : Text) :
    let blocks := Blocks.ofSource source
    let sections := Sections.ofSource source
    (∀ script ∈ blocks.scripts, script.StandsIn "script" source) ∧
      (∀ style ∈ blocks.style, style.StandsIn "style" source) ∧
      sections.script = (blocks.instanceScript.map Block.content).getD [] ∧
      sections.moduleScript = (blocks.moduleScript.map Block.content).getD [] ∧
      sections.style = (blocks.style.map Block.content).getD [] ∧
      sections.template = Block.outside blocks.cutOut source ∧
      (sections.template = Block.outside blocks.toList source ↔
        ∀ script ∈ blocks.scripts, ∀ style ∈ blocks.style,
          script.beginsInside style = true → script.stop ≤ style.stop) := by
  intro blocks sections
  have harranged : blocks.Arranged source := Blocks.arranged_ofSource source
  have htemplate : sections.template = Block.outside blocks.cutOut source :=
    harranged.withoutBlocks_sorted
  refine ⟨harranged.script_standsIn, harranged.style_standsIn, rfl, rfl, rfl, htemplate, ?_⟩
  rw [htemplate]
  exact harranged.outside_cutOut_eq_iff

/-- A comment in the style mentions a script, which therefore begins there and goes on up to
the end of the real one. -/
def straddlingSource : Text :=
  "<style>/* <script> */</style><script>let a = 1</script>"

/-- The end of a script that begins in the style is in the template, although the script was
found. -/
theorem template_straddling :
    (Sections.ofSource straddlingSource).script = " */</style><script>let a = 1" ∧
      (Sections.ofSource straddlingSource).template = "<script>let a = 1</script>" ∧
      Block.outside (Blocks.ofSource straddlingSource).toList straddlingSource = [] := by
  decide

end ComponentDocs
