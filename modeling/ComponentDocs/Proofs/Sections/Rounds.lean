import ComponentDocs.Proofs.Sections.Content
import ComponentDocs.Proofs.Text.Offsets
import Mathlib.Data.List.DropRight

/-!
# One round of a search in the bytes of a source

A search that sees the source as bytes looks for the next tag with a name from an offset on, and
cuts its block out of the source at byte offsets.  From a boundary each round comes to what the
search among the characters comes to, and all offsets it cuts at are boundaries in their order.
-/

namespace ComponentDocs

open Text (IsAscii IsBoundary byteCount byteCount_append bytes findBytes? slice?)

variable {position : Nat} {text : Text}

namespace Block

/-- The first block of a tag, unless a tag before it is left open. -/
def nextFrom (name : Text) : Nat → Text → Option Block
  | _, [] => none
  | position, c :: rest =>
      match scan name position (c :: rest) with
      | .other => nextFrom name (position + 1) rest
      | .unclosed => none
      | .block found => some found

theorem lt_stop_of_scan {name : Text} {found : Block}
    (h : scan name position text = .block found) : position < found.stop := by
  have hscan : scan name (List.replicate position ' ').length text = .block found := by
    rwa [List.length_replicate]
  rw [← start_of_scan h]
  exact (standsIn_of_scan hscan).start_lt_stop

theorem drop_succ_of_drop {source rest : Text} {c : Char}
    (h : source.drop position = c :: rest) : source.drop (position + 1) = rest := by
  rw [← List.drop_drop, h, List.drop_one, List.tail_cons]

theorem drop_skip {source rest : Text} {stop : Nat} (hrest : source.drop (position + 1) = rest)
    (hstop : position < stop) :
    position + 1 + (stop - position - 1) = stop ∧
      rest.drop (stop - position - 1) = source.drop stop := by
  have hsum : position + 1 + (stop - position - 1) = stop := by omega
  exact ⟨hsum, by rw [← hrest, List.drop_drop, hsum]⟩

theorem allFrom_drop (name source : Text) (position : Nat) :
    allFrom name 0 position (source.drop position) =
      match nextFrom name position (source.drop position) with
      | none => []
      | some found => found :: allFrom name 0 found.stop (source.drop found.stop) := by
  induction htext : source.drop position generalizing position with
  | nil => rfl
  | cons c rest ih =>
      have hrest := drop_succ_of_drop htext
      rw [allFrom, nextFrom]
      cases hscan : scan name position (c :: rest) with
      | other => exact ih (position + 1) hrest
      | unclosed => rfl
      | block found =>
          obtain ⟨hsum, hdrop⟩ := drop_skip hrest (lt_stop_of_scan hscan)
          dsimp only
          rw [allFrom_skip, hsum, hdrop]

theorem firstOutside_drop (name : Text) (around : List Block) (source : Text) (position : Nat) :
    firstOutside name around 0 position (source.drop position) =
      match nextFrom name position (source.drop position) with
      | none => none
      | some found =>
          match around.find? fun block => block.holds found.start with
          | some outer => firstOutside name around 0 outer.stop (source.drop outer.stop)
          | none => some found := by
  induction htext : source.drop position generalizing position with
  | nil => rfl
  | cons c rest ih =>
      have hrest := drop_succ_of_drop htext
      rw [firstOutside, nextFrom]
      cases hscan : scan name position (c :: rest) with
      | other => exact ih (position + 1) hrest
      | unclosed => rfl
      | block found =>
          dsimp only
          rw [start_of_scan hscan]
          cases hfind : around.find? fun block => block.holds position with
          | none => rfl
          | some outer =>
              have hholds := List.find?_some hfind
              obtain ⟨hsum, hdrop⟩ := drop_skip hrest (holds_eq_true_iff.mp hholds).2
              dsimp only
              rw [firstOutside_skip, hsum, hdrop]

theorem nextFrom_append {name behind : Text}
    (h : ∀ front rest, text = front ++ rest → rest ≠ [] → ¬openingTag name <+: rest ++ behind)
    (position : Nat) :
    nextFrom name position (text ++ behind) =
      nextFrom name (position + text.length) behind := by
  induction text generalizing position with
  | nil => rfl
  | cons c text ih =>
      have hbegins := h [] (c :: text) rfl (List.cons_ne_nil c text)
      rw [List.cons_append] at hbegins ⊢
      rw [nextFrom, scan_eq_other hbegins]
      dsimp only
      rw [ih fun front rest htext => h (c :: front) rest (by rw [htext]; rfl), List.length_cons,
        Nat.add_assoc, Nat.add_comm 1]

theorem nextFrom_free {name behind : Text} (hname : '<' ∉ name) (hfree : ¬openingTag name <:+: text)
    (hmeets : Text.MeetsMark (openingTag name) behind) (position : Nat) :
    nextFrom name position (text ++ behind) =
      nextFrom name (position + text.length) behind := by
  refine nextFrom_append (fun front rest htext hne => ?_) position
  refine Text.not_isPrefix_append (isMark_openingTag hname) (fun hbegins => hfree ?_) hne hmeets
  rw [htext]
  exact hbegins.isInfix.trans (List.suffix_append front rest).isInfix

theorem nextFrom_other {name behind : Text} (hname : '<' ∉ name)
    (h : scan name position (openingTag name ++ behind) = .other) :
    nextFrom name position (openingTag name ++ behind) =
      nextFrom name (position + (openingTag name).length) behind := by
  have hpass : nextFrom name (position + 1) (name ++ behind) =
      nextFrom name (position + 1 + name.length) behind := by
    refine nextFrom_append (fun front rest htext hne hbegins => ?_) _
    obtain ⟨c, rest, rfl⟩ := List.exists_cons_of_ne_nil hne
    rw [openingTag, List.cons_append, List.cons_prefix_cons] at hbegins
    exact hname (by rw [htext, ← hbegins.1]; simp)
  rw [openingTag, List.cons_append] at h ⊢
  rw [nextFrom, h]
  dsimp only
  rw [hpass, List.length_cons, Nat.add_assoc, Nat.add_comm 1]

end Block

open Block (openingTag closingTag nextFrom cutTag endsTagName ofTag scan)

/-! ## A search in bytes -/

/-- A block with the byte offsets at which it is cut out of a source. -/
structure Cut where
  start : Nat
  nameEnd : Nat
  tagEnd : Nat
  contentEnd : Nat
  stop : Nat
  attributes : Text
  content : Text
  deriving DecidableEq, Repr

inductive Round where
  | nothing
  /-- The tag has another name; the search goes on behind the part that it shares. -/
  | onward (pointer : Nat)
  | found (cut : Cut)
  deriving DecidableEq, Repr

theorem Text.not_isInfix_of_cut? {mark : Text} (h : Text.cut? mark text = none) :
    ¬mark <:+: text := by
  induction text with
  | nil =>
      rw [cut?] at h
      split at h
      · contradiction
      · next hne => simpa using hne
  | cons c rest ih =>
      rw [cut?] at h
      split at h
      · contradiction
      · next hbegins =>
          rw [List.infix_cons_iff, not_or]
          exact ⟨by simpa using hbegins, ih (Option.map_eq_none_iff.mp h)⟩

namespace Round

def bytesFrom? (all : List UInt8) (start : Nat) : Option (List UInt8) :=
  if start ≤ all.length then some (all.drop start) else none

def endsName (byte? : Option UInt8) : Bool :=
  byte?.any fun byte => [' ', '\t', '\n', '\r', '>', '/'].any fun c => byte == c.toUInt8

/-- Where the closing angle of a tag stands.  An angle inside quotes does not close it. -/
def findAngle? : Option UInt8 → List UInt8 → Option Nat
  | _, [] => none
  | none, byte :: rest =>
      if byte == '>'.toUInt8 then some 0
      else
        let quote := if byte == '"'.toUInt8 || byte == '\''.toUInt8 then some byte else none
        (findAngle? quote rest).map (· + 1)
  | some quote, byte :: rest =>
      (findAngle? (if byte == quote then none else some quote) rest).map (· + 1)

def endsInSlash? (all : List UInt8) (stop : Nat) : Option Bool :=
  if 0 < stop then all[stop - 1]?.map (· == '/'.toUInt8) else some false

/-- Cut out the content of a block behind its tag.  There is no answer if the source would have to
be cut or read at an offset where that cannot be done. -/
def atContent (name source : Text) (start nameEnd tagEnd : Nat) (attributes : Text) :
    Option Round := do
  let behindTag ← bytesFrom? (bytes source) (tagEnd + 1)
  match findBytes? (bytes (closingTag name)) behindTag with
  | none => return .nothing
  | some length =>
      let contentEnd := tagEnd + 1 + length
      let content ← slice? source (tagEnd + 1) contentEnd
      return .found ⟨start, nameEnd, tagEnd, contentEnd,
        contentEnd + byteCount (closingTag name), attributes, content⟩

def atTag (name source : Text) (start : Nat) : Option Round := do
  let nameEnd := start + byteCount (openingTag name)
  let behindName ← bytesFrom? (bytes source) nameEnd
  match findAngle? none behindName with
  | none => return .nothing
  | some angle =>
      let tagEnd := nameEnd + angle
      let attributes ← slice? source nameEnd tagEnd
      let selfClosing ← endsInSlash? (bytes source) tagEnd
      if selfClosing then
        return .found ⟨start, nameEnd, tagEnd, tagEnd + 1, tagEnd + 1,
          Text.dropEndWhile (· == '/') attributes, []⟩
      else atContent name source start nameEnd tagEnd attributes

def seek (name source : Text) (pointer : Nat) : Option Round :=
  match (bytesFrom? (bytes source) pointer).bind (findBytes? (bytes (openingTag name))) with
  | none => some .nothing
  | some length =>
      let start := pointer + length
      let nameEnd := start + byteCount (openingTag name)
      if endsName (bytes source)[nameEnd]? then atTag name source start
      else some (.onward nameEnd)

theorem bytesFrom?_of_eq_append {before behind : Text} (h : text = before ++ behind) :
    bytesFrom? (bytes text) (byteCount before) = some (bytes behind) := by
  rw [h, bytesFrom?, Text.bytes_append, ← Text.length_bytes, if_pos (by simp), List.drop_left]

theorem endsName_append (before behind : Text) :
    endsName (bytes (before ++ behind))[byteCount before]? = endsTagName behind := by
  rw [Text.bytes_append, ← Text.length_bytes, List.getElem?_append_right (Nat.le_refl _),
    Nat.sub_self]
  cases behind with
  | nil => rfl
  | cons c rest =>
      obtain ⟨byte, more, hc⟩ := List.exists_cons_of_ne_nil (Text.utf8EncodeChar_ne_nil c)
      have hbyte (d : Char) : IsAscii d → (byte == d.toUInt8) = (c == d) :=
        Text.beq_toUInt8 (by rw [hc]; exact List.mem_cons_self)
      simp only [endsName, Text.bytes_cons, hc, List.cons_append, List.getElem?_cons_zero,
        Option.any_some, List.any_cons, List.any_nil, Bool.or_false, endsTagName]
      rw [hbyte ' ' rfl, hbyte '\t' rfl, hbyte '\n' rfl, hbyte '\r' rfl, hbyte '>' rfl,
        hbyte '/' rfl]
      simp only [Bool.or_assoc]

theorem findAngle?_append {quote : Option UInt8} {front : List UInt8}
    (h : ∀ byte ∈ front, '>'.toUInt8 ≠ byte ∧ '"'.toUInt8 ≠ byte ∧ '\''.toUInt8 ≠ byte ∧
      quote ≠ some byte) (rest : List UInt8) :
    findAngle? quote (front ++ rest) = (findAngle? quote rest).map (· + front.length) := by
  induction front with
  | nil => simp
  | cons byte front ih =>
      rw [List.forall_mem_cons] at h
      obtain ⟨⟨hangle, hdouble, hsingle, hquote⟩, hfront⟩ := h
      have hnext : findAngle? quote (byte :: (front ++ rest)) =
          (findAngle? quote (front ++ rest)).map (· + 1) := by
        cases quote with
        | none => simp [findAngle?, hangle.symm, hdouble.symm, hsingle.symm]
        | some quote =>
            have hother : byte ≠ quote := fun heq => hquote (by rw [heq])
            simp [findAngle?, hother]
      rw [List.cons_append, hnext, ih hfront, Option.map_map]
      rfl

theorem isAscii_of_opensQuote {c : Char} (h : (c == '"' || c == '\'') = true) : IsAscii c := by
  rw [Bool.or_eq_true, beq_iff_eq, beq_iff_eq] at h
  rcases h with rfl | rfl <;> rfl

/-- The bytes behind the first one of a character leave the search where it was. -/
theorem findAngle?_more {c : Char} {byte : UInt8} {more : List UInt8} {quote : Option Char}
    (hc : String.utf8EncodeChar c = byte :: more) (hquote : ∀ q ∈ quote, IsAscii q)
    (rest : List UInt8) :
    findAngle? (quote.map Char.toUInt8) (more ++ rest) =
      (findAngle? (quote.map Char.toUInt8) rest).map (· + more.length) := by
  apply findAngle?_append
  intro other hother
  have hne (d : Char) (hd : IsAscii d) : d.toUInt8 ≠ other := Text.toUInt8_ne_of_mem hd hc hother
  refine ⟨hne '>' rfl, hne '"' rfl, hne '\'' rfl, ?_⟩
  cases quote with
  | none => simp
  | some q => simpa using hne q (hquote q rfl)

theorem findAngle?_bytes {quote : Option Char} (hquote : ∀ q ∈ quote, IsAscii q) (text : Text) :
    findAngle? (quote.map Char.toUInt8) (bytes text) =
      (cutTag quote text).map fun cut => byteCount cut.1 := by
  induction text generalizing quote with
  | nil => cases quote <;> rfl
  | cons c rest ih =>
      obtain ⟨byte, more, hc⟩ := List.exists_cons_of_ne_nil (Text.utf8EncodeChar_ne_nil c)
      have hbyte (d : Char) : IsAscii d → (byte == d.toUInt8) = (c == d) :=
        Text.beq_toUInt8 (by rw [hc]; exact List.mem_cons_self)
      have hsize : c.utf8Size = more.length + 1 := by
        rw [← String.length_utf8EncodeChar, hc, List.length_cons]
      have hnext (later : Option Char) {extend : Text × Text → Text × Text}
          (hlater : ∀ q ∈ later, IsAscii q) (hextend : ∀ cut, (extend cut).1 = c :: cut.1) :
          (findAngle? (later.map Char.toUInt8) (more ++ bytes rest)).map (· + 1) =
            ((cutTag later rest).map extend).map fun cut => byteCount cut.1 := by
        rw [findAngle?_more hc hlater, ih hlater, Option.map_map, Option.map_map, Option.map_map]
        congr 1
        funext cut
        simp only [Function.comp_apply, hextend, byteCount, hsize]
        omega
      rw [Text.bytes_cons, hc, List.cons_append]
      cases quote with
      | none =>
          rw [Option.map_none, findAngle?, cutTag, hbyte '>' rfl, hbyte '"' rfl,
            hbyte '\'' rfl]
          split
          · rfl
          · cases hopens : c == '"' || c == '\'' with
            | true =>
                have hascii := isAscii_of_opensQuote hopens
                rw [eq_of_beq ((hbyte c hascii).trans BEq.rfl)]
                exact hnext (some c) (by rintro q ⟨⟩; exact hascii) fun _ => rfl
            | false => exact hnext none (by simp) fun _ => rfl
      | some q =>
          have hclosed : (if (c == q) = true then none else some q.toUInt8) =
              (if (c == q) = true then none else some q).map Char.toUInt8 := by
            split <;> rfl
          rw [Option.map_some, findAngle?, cutTag, hbyte q (hquote q rfl), hclosed]
          refine hnext _ ?_ fun _ => rfl
          split
          · simp
          · exact hquote

theorem getElem?_append {front : Text} (hne : front ≠ []) (behind : Text) {d : Char}
    (hd : IsAscii d) :
    (bytes (front ++ behind))[byteCount front - 1]?.map (· == d.toUInt8) =
      some (front.getLast? == some d) := by
  obtain ⟨start, c, rfl⟩ := (List.eq_nil_or_concat front).resolve_left hne
  obtain ⟨more, byte, hc⟩ :=
    (List.eq_nil_or_concat (String.utf8EncodeChar c)).resolve_left (Text.utf8EncodeChar_ne_nil c)
  rw [List.concat_eq_append] at hc ⊢
  have hbytes : bytes (start ++ [c] ++ behind) = bytes start ++ more ++ byte :: bytes behind := by
    simp [Text.bytes_append, Text.bytes_cons, hc]
  have hoffset : byteCount (start ++ [c]) - 1 = (bytes start ++ more).length := by
    rw [← Text.length_bytes, Text.bytes_append, Text.bytes_cons, hc]
    simp
  have hbyte : byte ∈ String.utf8EncodeChar c := by simp [hc]
  rw [hbytes, hoffset, List.getElem?_append_right (Nat.le_refl _), Nat.sub_self,
    List.getElem?_cons_zero, Option.map_some, List.getLast?_concat, Text.beq_toUInt8 hbyte hd,
    Option.some_beq_some]

end Round

/-! ## Cuts -/

namespace Cut

def offsets (cut : Cut) : List Nat :=
  [cut.start, cut.nameEnd, cut.tagEnd, cut.tagEnd + 1, cut.contentEnd, cut.stop]

/-- Whether the source can be cut at all offsets, and what is cut out stands between them. -/
structure Sound (source : Text) (cut : Cut) : Prop where
  boundaries : ∀ offset ∈ cut.offsets, IsBoundary source offset
  ordered : cut.offsets.Pairwise (· ≤ ·)
  attributes : ∃ slashes, slice? source cut.nameEnd cut.tagEnd = some (cut.attributes ++ slashes)
  content : slice? source (cut.tagEnd + 1) cut.contentEnd = some cut.content

structure Marks (source : Text) (block : Block) (cut : Cut) : Prop where
  start : cut.start = source.offset block.start
  stop : cut.stop = source.offset block.stop
  attributes : cut.attributes = block.attributes
  content : cut.content = block.content

end Cut

structure IsTagName (name : Text) : Prop where
  angle : '<' ∉ name
  ascii : ∀ c ∈ name, IsAscii c
  last : name.getLast? ≠ some '/'

namespace IsTagName

variable {name : Text}

theorem isAscii_openingTag (h : IsTagName name) : ∀ c ∈ openingTag name, IsAscii c :=
  List.forall_mem_cons.mpr ⟨rfl, h.ascii⟩

theorem isAscii_closingTag (h : IsTagName name) : ∀ c ∈ closingTag name, IsAscii c := by
  simp only [closingTag, List.forall_mem_append]
  exact ⟨⟨by decide, h.ascii⟩, by decide⟩

theorem getLast?_attributes (h : IsTagName name) (before attributes : Text) :
    ((before ++ openingTag name ++ attributes).getLast? == some '/') =
      (attributes.getLast? == some '/') := by
  cases hlast : attributes.getLast? with
  | some c => rw [List.getLast?_append, hlast]; rfl
  | none =>
      rw [List.getLast?_eq_none_iff] at hlast
      rw [hlast, List.append_nil, List.getLast?_append, openingTag, List.getLast?_cons]
      cases hname : name.getLast? with
      | none => rfl
      | some c => exact beq_false_of_ne fun heq => h.last (hname.trans heq)

end IsTagName

inductive Cut.AtTag (source : Text) : Block.Outcome → Option Round → Prop
  | unclosed : AtTag source .unclosed (some .nothing)
  | block {found : Block} {cut : Cut} (marks : cut.Marks source found) (sound : cut.Sound source) :
      AtTag source (.block found) (some (.found cut))

namespace Round

section AtTag

variable {name source before attributes behind : Text}

theorem byteCount_tag (name before attributes : Text) :
    byteCount (before ++ openingTag name ++ attributes ++ ['>']) =
      byteCount before + byteCount (openingTag name) + byteCount attributes + 1 := by
  rw [byteCount_append, byteCount_append, byteCount_append]
  rfl

theorem atTag_parts (content closing : Text) {shown after : Text}
    (hsource : source =
      before ++ openingTag name ++ attributes ++ ['>'] ++ content ++ closing ++ after)
    (hshown : shown <+: attributes) :
    Cut.AtTag source
      (.block ⟨before.length,
        before.length + (openingTag name).length + attributes.length + 1 + content.length +
          closing.length, shown, content⟩)
      (some (.found ⟨byteCount before, byteCount before + byteCount (openingTag name),
        byteCount before + byteCount (openingTag name) + byteCount attributes,
        byteCount before + byteCount (openingTag name) + byteCount attributes + 1 +
          byteCount content,
        byteCount before + byteCount (openingTag name) + byteCount attributes + 1 +
          byteCount content + byteCount closing, shown, content⟩)) := by
  have hchain : List.IsChain (· <+: ·)
      ([before, before ++ openingTag name, before ++ openingTag name ++ attributes,
        before ++ openingTag name ++ attributes ++ ['>'],
        before ++ openingTag name ++ attributes ++ ['>'] ++ content,
        before ++ openingTag name ++ attributes ++ ['>'] ++ content ++ closing] ++
        [source]) := by
    simp [hsource]
  have hbounds := Text.isBoundary_of_isChain hchain
  have hstart := Text.offset_append before
    (openingTag name ++ attributes ++ ['>'] ++ content ++ closing ++ after)
  have hstop := Text.offset_append
    (before ++ openingTag name ++ attributes ++ ['>'] ++ content ++ closing) after
  have hattributes := Text.slice?_append (before ++ openingTag name) attributes
    (['>'] ++ content ++ closing ++ after)
  have hcontent := Text.slice?_append (before ++ openingTag name ++ attributes ++ ['>'])
    content (closing ++ after)
  simp only [← List.append_assoc, ← hsource] at hstart hstop hattributes hcontent
  simp only [List.map_cons, List.map_nil, byteCount_append, List.length_append,
    List.length_singleton] at hbounds hstop hattributes hcontent
  obtain ⟨slashes, rfl⟩ := hshown
  exact .block ⟨hstart.symm, hstop.symm, rfl, rfl⟩
    ⟨hbounds.1, hbounds.2, ⟨slashes, hattributes⟩, hcontent⟩

theorem endsInSlash?_tag (h : IsTagName name)
    (hsource : source = before ++ openingTag name ++ (attributes ++ '>' :: behind)) :
    endsInSlash? (bytes source)
        (byteCount before + byteCount (openingTag name) + byteCount attributes) =
      some (attributes.getLast? == some '/') := by
  have hne : before ++ openingTag name ++ attributes ≠ [] := by simp [openingTag]
  have hpositive : 0 < byteCount (openingTag name) := by
    have := ('<').utf8Size_pos
    rw [openingTag, byteCount]
    omega
  rw [endsInSlash?, if_pos (by omega), ← byteCount_append, ← byteCount_append, hsource,
    ← List.append_assoc, getElem?_append (d := '/') hne _ rfl, h.getLast?_attributes]

theorem atContent_spec (h : IsTagName name)
    (hsource : source = before ++ openingTag name ++ attributes ++ ['>'] ++ behind) :
    Cut.AtTag source
      (match Text.cut? (closingTag name) behind with
        | none => .unclosed
        | some (content, _) => .block ⟨before.length,
            before.length + (openingTag name).length + attributes.length + 1 +
              content.length + (closingTag name).length, attributes, content⟩)
      (atContent name source (byteCount before)
        (byteCount before + byteCount (openingTag name))
        (byteCount before + byteCount (openingTag name) + byteCount attributes)
        attributes) := by
  have hne : closingTag name ≠ [] := by simp [closingTag]
  rw [atContent, ← byteCount_tag, bytesFrom?_of_eq_append hsource]
  simp only [Option.bind_eq_bind, Option.bind_some,
    Text.findBytes?_bytes hne h.isAscii_closingTag behind]
  cases hcontent : Text.cut? (closingTag name) behind with
  | none => exact .unclosed
  | some parts =>
      obtain ⟨content, after⟩ := parts
      have hslice := Text.slice?_append (before ++ openingTag name ++ attributes ++ ['>'])
        content (closingTag name ++ after)
      rw [(Text.eq_append_of_cut? hcontent hne).1] at hsource
      simp only [← List.append_assoc] at hsource hslice
      rw [← hsource] at hslice
      simp only [Option.map_some, hslice, Option.bind_some]
      rw [byteCount_tag]
      exact atTag_parts content (closingTag name) hsource (List.prefix_refl _)

theorem atTag_spec (h : IsTagName name) (before behindName : Text) :
    Cut.AtTag (before ++ openingTag name ++ behindName)
      (ofTag name before.length behindName)
      (atTag name (before ++ openingTag name ++ behindName) (byteCount before)) := by
  obtain ⟨source, hsource⟩ : ∃ source, source = before ++ openingTag name ++ behindName :=
    ⟨_, rfl⟩
  have hangle : findAngle? none (bytes behindName) =
      (cutTag none behindName).map fun cut => byteCount cut.1 :=
    @findAngle?_bytes none (by simp) behindName
  have hfrom := bytesFrom?_of_eq_append hsource
  rw [byteCount_append] at hfrom
  rw [← hsource, atTag, hfrom]
  simp only [Option.bind_eq_bind, Option.bind_some, hangle, ofTag]
  cases htag : cutTag none behindName with
  | none => exact .unclosed
  | some tag =>
      obtain ⟨attributes, behind⟩ := tag
      rw [(Block.eq_append_of_cutTag htag).1] at hsource
      have hslice := Text.slice?_append (before ++ openingTag name) attributes ('>' :: behind)
      rw [← hsource, byteCount_append] at hslice
      simp only [Option.map_some, hslice, Option.bind_some, endsInSlash?_tag h hsource]
      have hbehind : source =
          before ++ openingTag name ++ attributes ++ ['>'] ++ behind := by simp [hsource]
      split
      · refine atTag_parts [] [] (by simpa using hbehind) ?_
        exact List.rdropWhile_prefix _ attributes
      · exact atContent_spec h hbehind

end AtTag

/-! ## What a round comes to -/

/-- What a round from a position comes to, and what the search among the characters has to do with
it. -/
inductive Spec (name source : Text) (position : Nat) : Option Round → Prop
  | nothing (next : nextFrom name position (source.drop position) = none) :
      Spec name source position (some .nothing)
  | onward {later : Nat} (lt : position < later) (le : later ≤ source.length)
      (next : nextFrom name position (source.drop position) =
        nextFrom name later (source.drop later)) :
      Spec name source position (some (.onward (source.offset later)))
  | found {block : Block} {cut : Cut}
      (next : nextFrom name position (source.drop position) = some block)
      (le : position ≤ block.start) (stands : block.StandsIn name source)
      (marks : cut.Marks source block) (sound : cut.Sound source) :
      Spec name source position (some (.found cut))

theorem Spec.of_le {name source : Text} {later : Nat} {round : Option Round}
    (h : Spec name source later round) (hle : position ≤ later)
    (hnext : nextFrom name position (source.drop position) =
      nextFrom name later (source.drop later)) : Spec name source position round := by
  cases h with
  | nothing next => exact .nothing (hnext.trans next)
  | onward lt le next => exact .onward (Nat.lt_of_le_of_lt hle lt) le (hnext.trans next)
  | found next le stands marks sound =>
      exact .found (hnext.trans next) (hle.trans le) stands marks sound

theorem spec_openingTag {name : Text} (h : IsTagName name) (before behind : Text) :
    Spec name (before ++ openingTag name ++ behind) before.length
      (if endsTagName behind then
        atTag name (before ++ openingTag name ++ behind) (byteCount before)
      else some (.onward (byteCount before + byteCount (openingTag name)))) := by
  have hdrop : (before ++ openingTag name ++ behind).drop before.length =
      openingTag name ++ behind := by
    rw [List.append_assoc, List.drop_left]
  have hscan : scan name before.length (openingTag name ++ behind) =
      if endsTagName behind then ofTag name before.length behind else .other := by
    rw [scan, Text.after?, if_pos (by simp), List.drop_left]
  split
  · next hends =>
      have hat := atTag_spec h before behind
      have hnext : nextFrom name before.length (openingTag name ++ behind) =
          match scan name before.length (openingTag name ++ behind) with
          | .other => nextFrom name (before.length + 1) (name ++ behind)
          | .unclosed => none
          | .block block => some block := rfl
      rw [if_pos hends] at hscan
      rw [hscan, ← hdrop] at hnext
      generalize ofTag name before.length behind = outcome at hat hnext hscan
      generalize atTag name _ (byteCount before) = round at hat ⊢
      cases hat with
      | unclosed => exact .nothing hnext
      | block marks sound =>
          have hstands := Block.standsIn_of_scan hscan
          rw [← List.append_assoc] at hstands
          exact .found hnext (Block.start_of_scan hscan).ge hstands marks sound
  · next hends =>
      rw [if_neg hends] at hscan
      rw [← byteCount_append, ← Text.offset_append _ behind]
      refine .onward (by simp [openingTag]) (by simp) ?_
      rw [hdrop, Block.nextFrom_other h.angle hscan, List.drop_left, List.length_append]

theorem seek_spec {name : Text} (h : IsTagName name) (source : Text)
    (hposition : position ≤ source.length) :
    Spec name source position (seek name source (source.offset position)) := by
  have hne : openingTag name ≠ [] := List.cons_ne_nil _ _
  have hfrom : bytesFrom? (bytes source) (source.offset position) =
      some (bytes (source.drop position)) :=
    bytesFrom?_of_eq_append (List.take_append_drop position source).symm
  rw [seek, hfrom, Option.bind_some, Text.findBytes?_bytes hne h.isAscii_openingTag]
  cases hcut : Text.cut? (openingTag name) (source.drop position) with
  | none =>
      refine .nothing ?_
      have hnext := Block.nextFrom_free h.angle (Text.not_isInfix_of_cut? hcut) (.inl rfl) position
      rwa [List.append_nil] at hnext
  | some parts =>
      obtain ⟨passed, behind⟩ := parts
      obtain ⟨hdrop, hfree⟩ := Text.eq_append_of_cut? hcut hne
      obtain ⟨before, hbefore⟩ : ∃ before, before = source.take position ++ passed := ⟨_, rfl⟩
      have hsource : source = before ++ openingTag name ++ behind := by
        rw [hbefore, List.append_assoc, List.append_assoc, ← List.append_assoc passed, ← hdrop,
          List.take_append_drop]
      have hlength : before.length = position + passed.length := by
        rw [hbefore, List.length_append, List.length_take_of_le hposition]
      have hstart : source.offset position + byteCount passed = byteCount before := by
        rw [hbefore, byteCount_append, Text.offset]
      have hends : endsName (bytes source)[byteCount before + byteCount (openingTag name)]? =
          endsTagName behind := by
        rw [← byteCount_append, hsource, endsName_append]
      have hrest : source.drop before.length = openingTag name ++ behind := by
        rw [hsource, List.append_assoc, List.drop_left]
      have hspec := spec_openingTag h before behind
      rw [← hsource] at hspec
      simp only [Option.map_some, hstart, hends]
      refine hspec.of_le (by omega) ?_
      rw [hrest, hdrop, List.append_assoc, hlength]
      refine Block.nextFrom_free h.angle hfree (.inr ?_) position
      rfl

end Round

end ComponentDocs
