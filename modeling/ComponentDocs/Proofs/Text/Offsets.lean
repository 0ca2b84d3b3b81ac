import ComponentDocs.Component.Template
import Mathlib.Data.List.Infix

/-!
# Offsets in bytes

The bytes of a text, and what can be cut out of it between two byte offsets.  An offset is a
boundary if a character starts there or the text ends.  A search for ASCII marks among the bytes
finds them where they stand among the characters, because no byte of another character is one
of theirs.
-/

namespace ComponentDocs

open Component (dropBytes?)

theorem Text.byteCount_append (front back : Text) :
    byteCount (front ++ back) = byteCount front + byteCount back := by
  induction front with
  | nil => simp [byteCount]
  | cons c front ih => simp [byteCount, ih, Nat.add_assoc]

theorem Component.dropBytes?_append (front back : Text) :
    dropBytes? (Text.byteCount front) (front ++ back) = some back := by
  induction front with
  | nil => cases back <;> rfl
  | cons c front ih =>
      obtain ⟨size, hsize⟩ := Nat.exists_eq_add_one_of_ne_zero c.utf8Size_pos.ne'
      have hcount : Text.byteCount (c :: front) = size + Text.byteCount front + 1 := by
        rw [Text.byteCount, hsize, Nat.add_right_comm]
      have hrest : size + Text.byteCount front + 1 - (size + 1) = Text.byteCount front := by omega
      rw [hcount, List.cons_append, dropBytes?, hsize, if_pos (by omega), hrest, ih]

variable {text : Text}

theorem Component.dropBytes?_eq_some_iff {offset : Nat} {behind : Text} :
    dropBytes? offset text = some behind ↔
      ∃ before, text = before ++ behind ∧ Text.byteCount before = offset := by
  constructor
  · intro h
    fun_induction dropBytes? offset text with
    | case1 text => exact ⟨[], by simpa using h, rfl⟩
    | case2 => contradiction
    | case3 count c rest hsize ih =>
        obtain ⟨before, rfl, hbefore⟩ := ih h
        refine ⟨c :: before, rfl, ?_⟩
        rw [Text.byteCount, hbefore]
        omega
    | case4 => contradiction
  · rintro ⟨before, rfl, rfl⟩
    exact dropBytes?_append before behind

namespace Text

def offset (text : Text) (position : Nat) : Nat :=
  byteCount (text.take position)

/-- Whether a character starts at a byte offset, or the text ends there. -/
def IsBoundary (text : Text) (offset : Nat) : Prop :=
  ∃ position ≤ text.length, text.offset position = offset

variable {later position start stop : Nat} {c d : Char} {byte : UInt8}

theorem offset_lt (h : position < later)
    (hlater : later ≤ text.length) : text.offset position < text.offset later := by
  have htake : text.take later =
      text.take position ++ (text.drop position).take (later - position) := by
    rw [← List.take_add, Nat.add_sub_cancel' h.le]
  have hpositive : 0 < byteCount ((text.drop position).take (later - position)) := by
    cases hpart : (text.drop position).take (later - position) with
    | nil =>
        have := congrArg List.length hpart
        simp only [List.length_take, List.length_drop, List.length_nil] at this
        omega
    | cons c rest =>
        have := c.utf8Size_pos
        rw [byteCount]
        omega
  rw [offset, offset, htake, byteCount_append]
  omega

theorem offset_lt_iff (hposition : position ≤ text.length) (hlater : later ≤ text.length) :
    text.offset position < text.offset later ↔ position < later := by
  refine ⟨fun h => ?_, fun h => offset_lt h hlater⟩
  by_contra hle
  rcases Nat.lt_or_eq_of_le (Nat.le_of_not_lt hle) with hlt | rfl
  · exact absurd (offset_lt hlt hposition) (Nat.lt_asymm h)
  · exact absurd h (Nat.lt_irrefl _)

theorem offset_le_iff (hposition : position ≤ text.length) (hlater : later ≤ text.length) :
    text.offset position ≤ text.offset later ↔ position ≤ later := by
  rw [← Nat.not_lt, offset_lt_iff hlater hposition, Nat.not_lt]

theorem offset_length (text : Text) : text.offset text.length = byteCount text := by
  rw [offset, List.take_length]

theorem isBoundary_zero (text : Text) : IsBoundary text 0 :=
  ⟨0, Nat.zero_le _, rfl⟩

theorem isBoundary_byteCount (text : Text) : IsBoundary text (byteCount text) :=
  ⟨text.length, Nat.le_refl _, offset_length text⟩

theorem IsBoundary.le_byteCount {offset : Nat} (h : IsBoundary text offset) :
    offset ≤ byteCount text := by
  obtain ⟨position, hposition, rfl⟩ := h
  rwa [← offset_length, offset_le_iff hposition (Nat.le_refl _)]

theorem offset_append (before behind : Text) :
    (before ++ behind).offset before.length = byteCount before := by
  rw [offset, List.take_left]

theorem isBoundary_of_isChain {fronts : List Text} (h : List.IsChain (· <+: ·) (fronts ++ [text])) :
    (∀ offset ∈ fronts.map byteCount, IsBoundary text offset) ∧
      (fronts.map byteCount).Pairwise (· ≤ ·) := by
  have hpairwise : (fronts ++ [text]).Pairwise (· <+: ·) := List.isChain_iff_pairwise.mp h
  rw [List.pairwise_append] at hpairwise
  constructor
  · rw [List.forall_mem_map]
    intro front hfront
    obtain ⟨behind, rfl⟩ := hpairwise.2.2 front hfront text List.mem_cons_self
    exact ⟨front.length, by simp, offset_append front behind⟩
  · rw [List.pairwise_map]
    refine hpairwise.1.imp ?_
    rintro front next ⟨behind, rfl⟩
    rw [byteCount_append]
    exact Nat.le_add_right _ _

def takeBytes? : Nat → Text → Option Text
  | 0, _ => some []
  | _ + 1, [] => none
  | count + 1, c :: rest =>
      if c.utf8Size ≤ count + 1 then (takeBytes? (count + 1 - c.utf8Size) rest).map (c :: ·)
      else none

/-- The text between two byte offsets.  There is none unless both are boundaries, in this
order. -/
def slice? (text : Text) (start stop : Nat) : Option Text :=
  if start ≤ stop then (dropBytes? start text).bind (takeBytes? (stop - start)) else none

theorem takeBytes?_append (front back : Text) :
    takeBytes? (byteCount front) (front ++ back) = some front := by
  induction front with
  | nil => simp [byteCount, takeBytes?]
  | cons c front ih =>
      obtain ⟨size, hsize⟩ := Nat.exists_eq_add_one_of_ne_zero c.utf8Size_pos.ne'
      have hcount : byteCount (c :: front) = size + byteCount front + 1 := by
        rw [byteCount, hsize, Nat.add_right_comm]
      have hrest : size + byteCount front + 1 - (size + 1) = byteCount front := by omega
      rw [hcount, List.cons_append, takeBytes?, hsize, if_pos (by omega), hrest, ih]
      rfl

theorem slice?_append (before part behind : Text) :
    slice? (before ++ (part ++ behind)) (byteCount before) (byteCount before + byteCount part) =
      some part := by
  rw [slice?, if_pos (Nat.le_add_right _ _), Component.dropBytes?_append, Option.bind_some,
    Nat.add_sub_cancel_left, takeBytes?_append]

theorem slice?_offset (text : Text) (h : start ≤ stop) :
    slice? text (text.offset start) (text.offset stop) =
      some ((text.drop start).take (stop - start)) := by
  have htext : text = text.take start ++ ((text.drop start).take (stop - start) ++
      text.drop stop) := by
    rw [← List.append_assoc, ← List.take_add, Nat.add_sub_cancel' h, List.take_append_drop]
  have hoffset : text.offset stop = byteCount (text.take start) +
      byteCount ((text.drop start).take (stop - start)) := by
    rw [← byteCount_append, ← List.take_add, Nat.add_sub_cancel' h, offset]
  have hslice := slice?_append (text.take start) ((text.drop start).take (stop - start))
    (text.drop stop)
  rwa [← htext, ← hoffset] at hslice

theorem exists_slice? (hstart : IsBoundary text start) (hstop : IsBoundary text stop)
    (h : start ≤ stop) :
    ∃ part, slice? text start stop = some part := by
  obtain ⟨position, hposition, rfl⟩ := hstart
  obtain ⟨later, hlater, rfl⟩ := hstop
  exact ⟨_, slice?_offset text ((offset_le_iff hposition hlater).mp h)⟩

theorem isPrefix_of_takeBytes? {count : Nat} {front : Text}
    (h : takeBytes? count text = some front) : front <+: text := by
  induction text generalizing count front with
  | nil =>
      cases count with
      | zero =>
          cases h
          exact List.nil_prefix
      | succ count => cases h
  | cons c rest ih =>
      cases count with
      | zero =>
          cases h
          exact List.nil_prefix
      | succ count =>
          rw [takeBytes?] at h
          split at h
          · obtain ⟨front, hfront, rfl⟩ := Option.map_eq_some_iff.mp h
            exact List.cons_prefix_cons.mpr ⟨rfl, ih hfront⟩
          · contradiction

theorem isInfix_of_slice? {part : Text}
    (h : slice? text start stop = some part) : part <:+: text := by
  unfold slice? at h
  split at h
  · obtain ⟨rest, hrest, hpart⟩ := Option.bind_eq_some_iff.mp h
    obtain ⟨before, rfl, -⟩ := Component.dropBytes?_eq_some_iff.mp hrest
    exact (isPrefix_of_takeBytes? hpart).isInfix.trans (List.suffix_append before rest).isInfix
  · contradiction

def bytes (text : Text) : List UInt8 :=
  text.flatMap String.utf8EncodeChar

@[simp] theorem bytes_nil : bytes [] = [] := rfl

theorem bytes_cons (c : Char) (rest : Text) :
    bytes (c :: rest) = String.utf8EncodeChar c ++ bytes rest := rfl

theorem bytes_append (front back : Text) : bytes (front ++ back) = bytes front ++ bytes back :=
  List.flatMap_append

@[simp] theorem length_bytes (text : Text) : (bytes text).length = byteCount text := by
  induction text with
  | nil => rfl
  | cons c rest ih => simp [bytes_cons, byteCount, ih]

def IsAscii (c : Char) : Prop :=
  c.utf8Size = 1

instance : DecidablePred IsAscii :=
  fun c => inferInstanceAs (Decidable (c.utf8Size = 1))

theorem bytes_cons_of_isAscii (h : IsAscii c) (rest : Text) :
    bytes (c :: rest) = c.toUInt8 :: bytes rest := by
  rw [bytes_cons, String.utf8EncodeChar_eq_singleton h]
  rfl

theorem toNat_toUInt8 (h : IsAscii c) : c.toUInt8.toNat = c.toNat ∧ c.toNat < 128 := by
  have hle : c.val.toNat ≤ 127 := UInt32.le_iff_toNat_le.mp (Char.utf8Size_eq_one_iff.mp h)
  have hcode : c.toNat = c.val.toNat := rfl
  refine ⟨?_, by omega⟩
  rw [Char.toUInt8, UInt32.toNat_toUInt8]
  omega

theorem toUInt8_inj (hc : IsAscii c) (hd : IsAscii d) :
    c.toUInt8 = d.toUInt8 ↔ c = d := by
  refine ⟨fun h => ?_, congrArg Char.toUInt8⟩
  rw [← Char.ofNat_toNat c, ← Char.ofNat_toNat d, ← (toNat_toUInt8 hc).1, h, (toNat_toUInt8 hd).1]

theorem le_of_mem_utf8EncodeChar (h : ¬IsAscii c)
    (hbyte : byte ∈ String.utf8EncodeChar c) : 128 ≤ byte.toNat := by
  have hlarge : ¬c.val.toNat ≤ 127 := fun hle =>
    h (Char.utf8Size_eq_one_iff.mpr (UInt32.le_iff_toNat_le.mpr hle))
  unfold String.utf8EncodeChar at hbyte
  simp only [hlarge, if_false] at hbyte
  -- each byte is a constant of 128 or more and a remainder that keeps it below 256
  split at hbyte <;> [skip; split at hbyte] <;>
    simp only [List.mem_cons, List.not_mem_nil, or_false] at hbyte <;>
    rcases hbyte with rfl | rfl | rfl | rfl <;> rw [UInt8.toNat_ofNat'] <;> omega

theorem toUInt8_eq_iff (hc : IsAscii c)
    (hbyte : byte ∈ String.utf8EncodeChar d) : c.toUInt8 = byte ↔ c = d := by
  by_cases hd : IsAscii d
  · rw [String.utf8EncodeChar_eq_singleton hd, List.mem_singleton] at hbyte
    rw [hbyte]
    exact toUInt8_inj hc hd
  · have hlarge := le_of_mem_utf8EncodeChar hd hbyte
    have hsmall := toNat_toUInt8 hc
    constructor
    · rintro rfl
      omega
    · rintro rfl
      exact absurd hc hd

theorem beq_toUInt8 (hbyte : byte ∈ String.utf8EncodeChar c)
    (hd : IsAscii d) : (byte == d.toUInt8) = (c == d) := by
  rw [Bool.eq_iff_iff, beq_iff_eq, beq_iff_eq, eq_comm, eq_comm (a := c)]
  exact toUInt8_eq_iff hd hbyte

theorem utf8EncodeChar_ne_nil (c : Char) : String.utf8EncodeChar c ≠ [] := by
  intro hnil
  have hlength := String.length_utf8EncodeChar c
  rw [hnil] at hlength
  exact c.utf8Size_pos.ne hlength

theorem toUInt8_ne_of_mem (hc : IsAscii c) {other : UInt8} {more : List UInt8}
    (hd : String.utf8EncodeChar d = byte :: more) (hother : other ∈ more) : c.toUInt8 ≠ other := by
  intro heq
  have hmem : other ∈ String.utf8EncodeChar d := by
    rw [hd]
    exact List.mem_cons_of_mem _ hother
  rw [(toUInt8_eq_iff hc hmem).mp heq] at hc
  rw [String.utf8EncodeChar_eq_singleton hc] at hd
  cases hd
  contradiction

def findBytes? (mark : List UInt8) : List UInt8 → Option Nat
  | [] => if mark.isEmpty then some 0 else none
  | byte :: rest =>
      if mark.isPrefixOf (byte :: rest) then some 0 else (findBytes? mark rest).map (· + 1)

theorem isPrefixOf_bytes {mark : Text} (hmark : ∀ c ∈ mark, IsAscii c) (text : Text) :
    (bytes mark).isPrefixOf (bytes text) = mark.isPrefixOf text := by
  induction mark generalizing text with
  | nil => simp
  | cons c mark ih =>
      rw [List.forall_mem_cons] at hmark
      rw [bytes_cons_of_isAscii hmark.1]
      cases text with
      | nil => rfl
      | cons d rest =>
          obtain ⟨byte, others, hbytes⟩ := List.exists_cons_of_ne_nil (utf8EncodeChar_ne_nil d)
          have hfirst := toUInt8_eq_iff hmark.1 (by rw [hbytes]; exact List.mem_cons_self)
          by_cases hsame : c = d
          · subst hsame
            rw [bytes_cons_of_isAscii hmark.1, List.isPrefixOf_cons_cons,
              List.isPrefixOf_cons_cons, ih hmark.2, BEq.rfl, BEq.rfl]
          · rw [bytes_cons, hbytes, List.cons_append, List.isPrefixOf_cons_cons,
              List.isPrefixOf_cons_cons, beq_false_of_ne (mt hfirst.mp hsame),
              beq_false_of_ne hsame, Bool.false_and, Bool.false_and]

theorem findBytes?_append {first : UInt8} {mark front : List UInt8}
    (h : ∀ byte ∈ front, first ≠ byte) (rest : List UInt8) :
    findBytes? (first :: mark) (front ++ rest) =
      (findBytes? (first :: mark) rest).map (· + front.length) := by
  induction front with
  | nil => simp
  | cons byte front ih =>
      rw [List.forall_mem_cons] at h
      rw [List.cons_append, findBytes?, List.isPrefixOf_cons_cons, beq_false_of_ne h.1,
        Bool.false_and, if_neg Bool.false_ne_true, ih h.2, Option.map_map]
      congr 1

theorem findBytes?_bytes {mark : Text} (hne : mark ≠ []) (hmark : ∀ c ∈ mark, IsAscii c)
    (text : Text) :
    findBytes? (bytes mark) (bytes text) = (cut? mark text).map fun cut => byteCount cut.1 := by
  obtain ⟨first, others, rfl⟩ := List.exists_cons_of_ne_nil hne
  have hfirst := (List.forall_mem_cons.mp hmark).1
  have hbytes := bytes_cons_of_isAscii hfirst others
  induction text with
  | nil => simp [findBytes?, cut?, hbytes]
  | cons c rest ih =>
      obtain ⟨byte, more, hc⟩ := List.exists_cons_of_ne_nil (utf8EncodeChar_ne_nil c)
      have hsource : bytes (c :: rest) = byte :: (more ++ bytes rest) := by
        rw [bytes_cons, hc, List.cons_append]
      have hbegins := isPrefixOf_bytes hmark (c :: rest)
      rw [hsource] at hbegins ⊢
      rw [findBytes?, hbegins, cut?]
      split
      · simp [byteCount]
      · -- what is left of the bytes of the character does not begin the mark
        have hmore : findBytes? (bytes (first :: others)) (more ++ bytes rest) =
            (findBytes? (bytes (first :: others)) (bytes rest)).map (· + more.length) := by
          rw [hbytes]
          exact findBytes?_append (fun _ hother => toUInt8_ne_of_mem hfirst hc hother) _
        have hsize : c.utf8Size = more.length + 1 := by
          rw [← String.length_utf8EncodeChar, hc, List.length_cons]
        rw [hmore, ih, Option.map_map, Option.map_map, Option.map_map]
        congr 1
        funext cut
        simp only [Function.comp_apply, byteCount, hsize]
        omega

end Text

end ComponentDocs
