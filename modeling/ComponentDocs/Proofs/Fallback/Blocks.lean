import ComponentDocs.Proofs.Fallback.Nesting
import ComponentDocs.Proofs.Text.Offsets

/-!
# Balanced blocks

The scan for the end of a block counts braces and skips strings.  It accepts just the texts of
a grammar: plain characters, strings, and groups in braces.  On the way it keeps the number of
braces that are open, which is never less than none.
-/

namespace ComponentDocs.Component

open Text (byteCount byteCount_append)

/-- What stands between two quotes.  A backslash protects the character behind it. -/
inductive StringBody (quote : Char) : Text → Prop
  | nil : StringBody quote []
  | plain {c : Char} {rest : Text} : c ≠ quote → c ≠ '\\' → StringBody quote rest →
      StringBody quote (c :: rest)
  | escape (c : Char) {rest : Text} : StringBody quote rest → StringBody quote ('\\' :: c :: rest)

/-- A text whose braces outside strings match, and whose strings are closed. -/
inductive BraceBalanced : Text → Prop
  | nil : BraceBalanced []
  | plain {c : Char} {rest : Text} : isQuote c = false → c ≠ '\x7b' → c ≠ '\x7d' →
      BraceBalanced rest → BraceBalanced (c :: rest)
  | string {quote : Char} {body rest : Text} : isQuote quote = true → StringBody quote body →
      BraceBalanced rest → BraceBalanced (quote :: (body ++ quote :: rest))
  | group {inner rest : Text} : BraceBalanced inner → BraceBalanced rest →
      BraceBalanced ('\x7b' :: (inner ++ '\x7d' :: rest))

namespace BlockPlace

def next : BlockPlace → Char → BlockPlace
  | .escaped quote, _ => .quoted quote
  | .quoted quote, c =>
      if c == '\\' then .escaped quote else if c == quote then .code else .quoted quote
  | .code, c => if isQuote c then .quoted c else .code

def depthBehind (place : BlockPlace) (depth : Nat) (c : Char) : Nat :=
  if place = .code then
    if c == '\x7b' then depth + 1 else if c == '\x7d' then depth - 1 else depth
  else depth

end BlockPlace

theorem blockFrom_cons (place : BlockPlace) (depth : Nat) (c : Char) (rest : Text) :
    blockFrom place depth (c :: rest) =
      if place = .code ∧ c = '\x7d' ∧ depth = 0 then some ([], rest)
      else
        (blockFrom (place.next c) (place.depthBehind depth c) rest).map fun (inside, behind) =>
          (c :: inside, behind) := by
  cases place with
  | escaped quote => simp [blockFrom, BlockPlace.next, BlockPlace.depthBehind]
  | quoted quote =>
      simp only [blockFrom, BlockPlace.next, BlockPlace.depthBehind, consInside_eq_map]
      split <;> [skip; split] <;> simp
  | code =>
      by_cases hopen : c = '\x7b'
      · simp [blockFrom, BlockPlace.next, BlockPlace.depthBehind, hopen, isQuote]
      · by_cases hclose : c = '\x7d'
        · cases depth <;>
            simp [blockFrom, BlockPlace.next, BlockPlace.depthBehind, hclose, isQuote]
        · simp only [blockFrom, BlockPlace.next, BlockPlace.depthBehind, beq_iff_eq, hopen, hclose,
            consInside_eq_map]
          split <;> simp

variable {c : Char} {place : BlockPlace} {inside source : Text} {start : Nat}

theorem ne_backslash_of_isQuote (h : isQuote c = true) : c ≠ '\\' := by
  rintro rfl
  contradiction

theorem StringBody.blockFrom_append {quote : Char} {body : Text} (h : StringBody quote body)
    (hquote : isQuote quote = true) (depth : Nat) (rest : Text) :
    blockFrom (.quoted quote) depth (body ++ quote :: rest) =
      (blockFrom .code depth rest).map fun (inside, behind) =>
        (body ++ quote :: inside, behind) := by
  induction h with
  | nil => simp [blockFrom, ne_backslash_of_isQuote hquote]
  | plain hc hback _ ih => simp [blockFrom, hc, hback, ih, Function.comp_def]
  | escape c _ ih => simp [blockFrom, ih, Function.comp_def]

theorem BraceBalanced.blockFrom_append {text : Text} (h : BraceBalanced text) (depth : Nat)
    (rest : Text) :
    blockFrom .code depth (text ++ rest) =
      (blockFrom .code depth rest).map fun (inside, behind) => (text ++ inside, behind) := by
  induction h generalizing depth rest with
  | nil => simp
  | plain hquote hopen hclose _ ih =>
      simp [blockFrom, hquote, hopen, hclose, ih, Function.comp_def]
  | string hquote hbody _ ih =>
      simp [blockFrom, hquote, hbody.blockFrom_append hquote, ih, Function.comp_def]
  | group _ _ ihinner ihrest =>
      simp [blockFrom, isQuote, ihinner, ihrest, Function.comp_def]

/-- A text that closes braces that were opened before it, and is balanced apart from that. -/
inductive ClosesBraces : Nat → Text → Prop
  | zero {text : Text} : BraceBalanced text → ClosesBraces 0 text
  | succ {depth : Nat} {front rest : Text} : BraceBalanced front → ClosesBraces depth rest →
      ClosesBraces (depth + 1) (front ++ '\x7d' :: rest)

namespace ClosesBraces

variable {depth : Nat} {text : Text}

theorem append (h : ClosesBraces depth text) (front : Text)
    (hfront : ∀ {rest}, BraceBalanced rest → BraceBalanced (front ++ rest)) :
    ClosesBraces depth (front ++ text) := by
  cases h with
  | zero htext => exact .zero (hfront htext)
  | succ hfirst hrest =>
      rw [← List.append_assoc]
      exact .succ (hfront hfirst) hrest

theorem open_cons (h : ClosesBraces (depth + 1) text) : ClosesBraces depth ('\x7b' :: text) := by
  cases h with
  | succ hfront hrest =>
      have hgroup := hrest.append ('\x7b' :: (_ ++ ['\x7d'])) fun {rest} h => by
        simpa using BraceBalanced.group hfront h
      simpa using hgroup

end ClosesBraces

def BlockPlace.Reads (depth : Nat) : BlockPlace → Text → Prop
  | .code, inside => ClosesBraces depth inside
  | .quoted quote, inside => ∃ body rest, inside = body ++ quote :: rest ∧
      StringBody quote body ∧ ClosesBraces depth rest
  | .escaped quote, inside => ∃ c body rest, inside = c :: (body ++ quote :: rest) ∧
      StringBody quote body ∧ ClosesBraces depth rest

theorem BlockPlace.Reads.cons {depth : Nat}
    (h : (place.next c).Reads (place.depthBehind depth c) inside)
    (hgoes : ¬(place = .code ∧ c = '\x7d' ∧ depth = 0)) : place.Reads depth (c :: inside) := by
  cases place with
  | escaped quote =>
      obtain ⟨body, rest, rfl, hbody, hrest⟩ := h
      exact ⟨c, body, rest, rfl, hbody, hrest⟩
  | quoted quote =>
      simp only [next, depthBehind, reduceCtorEq, if_false] at h
      split at h
      · next hback =>
          obtain ⟨d, body, rest, rfl, hbody, hrest⟩ := h
          rw [beq_iff_eq.mp hback]
          exact ⟨'\\' :: d :: body, rest, rfl, .escape d hbody, hrest⟩
      · next hback =>
          split at h
          · next hc => exact ⟨[], inside, by simp [beq_iff_eq.mp hc], .nil, h⟩
          · next hc =>
              obtain ⟨body, rest, rfl, hbody, hrest⟩ := h
              exact ⟨c :: body, rest, rfl, .plain (by simpa using hc) (by simpa using hback) hbody,
                hrest⟩
  | code =>
      by_cases hopen : c = '\x7b'
      · rw [hopen] at h ⊢
        exact ClosesBraces.open_cons h
      · by_cases hclose : c = '\x7d'
        · obtain ⟨depth, rfl⟩ : ∃ less, depth = less + 1 :=
            Nat.exists_eq_add_one_of_ne_zero fun hzero => hgoes ⟨rfl, hclose, hzero⟩
          rw [hclose] at h ⊢
          exact .succ .nil h
        · simp only [next, depthBehind, beq_iff_eq, hopen, hclose, if_true, if_false] at h
          split at h
          · next hquote =>
              obtain ⟨body, rest, rfl, hbody, hrest⟩ := h
              have hstring := hrest.append (c :: (body ++ [c])) fun {rest} h => by
                simpa using BraceBalanced.string hquote hbody h
              simpa [Reads] using hstring
          · next hquote =>
              refine ClosesBraces.append h [c] fun {rest} hrest => ?_
              exact .plain (by simpa using hquote) hopen hclose hrest

theorem reads_of_blockFrom {depth : Nat} {text behind : Text}
    (h : blockFrom place depth text = some (inside, behind)) :
    text = inside ++ '\x7d' :: behind ∧ place.Reads depth inside := by
  induction text generalizing place depth inside with
  | nil => simp [blockFrom] at h
  | cons c text ih =>
      rw [blockFrom_cons] at h
      split at h
      · next hends =>
          obtain ⟨rfl, rfl, rfl⟩ := hends
          cases h
          exact ⟨rfl, .zero .nil⟩
      · next hgoes =>
          obtain ⟨⟨front, back⟩, hrest, hpair⟩ := Option.map_eq_some_iff.mp h
          cases hpair
          obtain ⟨rfl, hreads⟩ := ih hrest
          exact ⟨rfl, hreads.cons hgoes⟩

theorem balancedBlock_eq_some_iff {text behind : Text} :
    balancedBlock text = some (inside, behind) ↔
      BraceBalanced inside ∧ text = inside ++ '\x7d' :: behind := by
  constructor
  · intro h
    obtain ⟨htext, hreads⟩ := reads_of_blockFrom h
    cases hreads with
    | zero hinside => exact ⟨hinside, htext⟩
  · rintro ⟨hinside, rfl⟩
    rw [balancedBlock, hinside.blockFrom_append]
    simp [blockFrom, isQuote]

/-- Whether a balanced text with a closing brace behind it stands at a byte offset. -/
def IsBlockAt (source : Text) (start : Nat) (inside : Text) : Prop :=
  BraceBalanced inside ∧
    ∃ before behind, source = before ++ (inside ++ '\x7d' :: behind) ∧ byteCount before = start

/-- The block whose content starts at a byte offset, and the offset behind its closing brace. -/
def blockAt? (source : Text) (start : Nat) : Option (Text × Nat) :=
  (dropBytes? start source).bind fun text =>
    (balancedBlock text).map fun (inside, behind) =>
      (inside, byteCount source - byteCount behind)

theorem blockAt?_eq_some_iff {after : Nat} :
    blockAt? source start = some (inside, after) ↔
      IsBlockAt source start inside ∧ after = start + byteCount inside + 1 := by
  have hoffset (before behind : Text) :
      byteCount (before ++ (inside ++ '\x7d' :: behind)) - byteCount behind =
        byteCount before + byteCount inside + 1 := by
    have hbrace : byteCount ('\x7d' :: behind) = 1 + byteCount behind := rfl
    rw [byteCount_append, byteCount_append, hbrace]
    omega
  simp only [blockAt?, Option.bind_eq_some_iff, Option.map_eq_some_iff, Prod.exists,
    dropBytes?_eq_some_iff, balancedBlock_eq_some_iff, Prod.mk.injEq]
  constructor
  · rintro ⟨_, ⟨before, rfl, hstart⟩, _, behind, ⟨hinside, rfl⟩, rfl, hafter⟩
    exact ⟨⟨hinside, before, behind, rfl, hstart⟩, by rw [← hafter, hoffset, hstart]⟩
  · rintro ⟨⟨hinside, before, behind, rfl, hstart⟩, rfl⟩
    exact ⟨_, ⟨before, rfl, hstart⟩, inside, behind, ⟨hinside, rfl⟩, rfl,
      by rw [hoffset, hstart]⟩

theorem IsBlockAt.unique {other : Text} (h : IsBlockAt source start inside)
    (hother : IsBlockAt source start other) :
    inside = other := by
  have hfirst := blockAt?_eq_some_iff.mpr ⟨h, rfl⟩
  have hsecond := blockAt?_eq_some_iff.mpr ⟨hother, rfl⟩
  exact congrArg Prod.fst (Option.some.inj (hfirst.symm.trans hsecond))

theorem blockAt?_eq_none_iff :
    blockAt? source start = none ↔ ∀ inside, ¬IsBlockAt source start inside := by
  constructor
  · intro hnone inside hblock
    have hsome := blockAt?_eq_some_iff.mpr ⟨hblock, rfl⟩
    rw [hnone] at hsome
    contradiction
  · intro hall
    rw [Option.eq_none_iff_forall_ne_some]
    rintro ⟨inside, after⟩ hsome
    exact hall inside (blockAt?_eq_some_iff.mp hsome).1

namespace BlockPlace

def behind (place : BlockPlace) (text : Text) : BlockPlace :=
  text.foldl next place

def bare : BlockPlace → Text → Text
  | _, [] => []
  | place, c :: rest =>
      if place = .code then c :: (place.next c).bare rest else (place.next c).bare rest

end BlockPlace

theorem depthBehind_add_count {depth : Nat} (h : ¬(place = .code ∧ c = '\x7d' ∧ depth = 0))
    (rest : Text) :
    place.depthBehind depth c + (place.bare (c :: rest)).count '\x7d' +
        ((place.next c).bare rest).count '\x7b' =
      depth + (place.bare (c :: rest)).count '\x7b' +
        ((place.next c).bare rest).count '\x7d' := by
  by_cases hplace : place = .code
  · by_cases hopen : c = '\x7b'
    · simp [BlockPlace.depthBehind, BlockPlace.bare, hplace, hopen]
      omega
    · by_cases hclose : c = '\x7d'
      · have hdepth : depth ≠ 0 := fun hzero => h ⟨hplace, hclose, hzero⟩
        simp [BlockPlace.depthBehind, BlockPlace.bare, hplace, hclose]
        omega
      · simp [BlockPlace.depthBehind, BlockPlace.bare, hplace, hopen, hclose]
        omega
  · simp [BlockPlace.depthBehind, BlockPlace.bare, hplace]
    omega

theorem blockFrom_append {depth : Nat} {front rest : Text}
    (h : ∀ inside behind, blockFrom place depth (front ++ rest) = some (inside, behind) →
      front <+: inside) :
    ∃ deeper, deeper + (place.bare front).count '\x7d' = depth + (place.bare front).count '\x7b' ∧
      blockFrom place depth (front ++ rest) =
        (blockFrom (place.behind front) deeper rest).map fun (inside, behind) =>
          (front ++ inside, behind) := by
  induction front generalizing place depth with
  | nil => exact ⟨depth, rfl, by simp [BlockPlace.behind]⟩
  | cons c front ih =>
      rw [List.cons_append, blockFrom_cons] at h ⊢
      split
      · next hends =>
          rw [if_pos hends] at h
          simpa using h _ _ rfl
      · next hgoes =>
          rw [if_neg hgoes] at h
          have hreads (inside behind : Text) (hsome : blockFrom (place.next c)
              (place.depthBehind depth c) (front ++ rest) = some (inside, behind)) :
              front <+: inside := by
            have hinside := h (c :: inside) behind (by simp [hsome])
            exact (List.prefix_cons_inj c).mp hinside
          obtain ⟨deeper, hcount, hrest⟩ := ih hreads
          have hstep := depthBehind_add_count hgoes front
          refine ⟨deeper, by omega, ?_⟩
          rw [hrest]
          simp [BlockPlace.behind, Function.comp_def]

/--
The scan for the end of a block accepts just the balanced blocks.  At a byte offset of a source
it finds a content and an offset exactly if the content is balanced, stands there with a closing
brace behind it, and the offset is the one behind that brace.  It finds nothing exactly if no
such content stands there, and there are no two of them.  As long as it goes on, the closing
braces outside strings are no more than the opening ones, and the depth is what they leave open.
-/
theorem blockAt?_accepts_balanced (source : Text) (start : Nat) :
    (∀ inside after, blockAt? source start = some (inside, after) ↔
      IsBlockAt source start inside ∧ after = start + byteCount inside + 1) ∧
    (blockAt? source start = none ↔ ∀ inside, ¬IsBlockAt source start inside) ∧
    (∀ inside other, IsBlockAt source start inside → IsBlockAt source start other →
      inside = other) ∧
    ∀ before front rest, source = before ++ (front ++ rest) → byteCount before = start →
      (∀ inside, IsBlockAt source start inside → front <+: inside) →
      ∃ depth, depth + (BlockPlace.code.bare front).count '\x7d' =
          (BlockPlace.code.bare front).count '\x7b' ∧
        balancedBlock (front ++ rest) =
          (blockFrom (BlockPlace.code.behind front) depth rest).map fun (inside, behind) =>
            (front ++ inside, behind) := by
  refine ⟨fun _ _ => blockAt?_eq_some_iff, blockAt?_eq_none_iff,
    fun _ _ h hother => h.unique hother, fun before front rest hsource hstart hreads => ?_⟩
  have hgoes (inside behind : Text)
      (hsome : balancedBlock (front ++ rest) = some (inside, behind)) : front <+: inside := by
    obtain ⟨hinside, htext⟩ := balancedBlock_eq_some_iff.mp hsome
    exact hreads inside ⟨hinside, before, behind, by rw [hsource, htext], hstart⟩
  obtain ⟨depth, hcount, hrest⟩ := blockFrom_append hgoes
  exact ⟨depth, by simpa using hcount, hrest⟩

end ComponentDocs.Component
