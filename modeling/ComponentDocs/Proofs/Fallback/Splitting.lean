import ComponentDocs.Component.Fallback.Brackets
import ComponentDocs.Proofs.Text.Pieces
import Mathlib.Data.List.Induction

/-!
# Splitting and joining

A split outside brackets and quotes undoes the joining of pieces with separators between them,
if each piece leaves the scan where it found it.  What a split gives joins to the text again.
-/

namespace ComponentDocs.Component

def isPlain (c : Char) : Bool :=
  !isQuote c && !opensGroup c && !closesGroup c

theorem isPlain_of_comma (c : Char) (h : (c == ',') = true) : isPlain c = true := by
  rw [beq_iff_eq.mp h]
  rfl

theorem piecesFrom_ne_nil (isSeparator : Char → Bool) (depth : Nat) (quote previous : Option Char)
    (text : Text) : piecesFrom isSeparator depth quote previous text ≠ [] := by
  have hcons : ∀ c pieces, consPiece c pieces ≠ [] := by
    intro c pieces
    cases pieces <;> exact List.cons_ne_nil _ _
  fun_cases piecesFrom isSeparator depth quote previous text with
  | case1 | case7 => exact List.cons_ne_nil _ _
  | _ => exact hcons _ _

theorem foldr_consPiece (text piece : Text) (pieces : List Text) :
    text.foldr consPiece (piece :: pieces) = (text ++ piece) :: pieces := by
  induction text with
  | nil => rfl
  | cons c text ih => simp [ih, consPiece]

structure SplitPlace where
  depth : Nat := 0
  quote : Option Char := none
  previous : Option Char := none
  deriving DecidableEq, Repr

variable {mark : Char} {text : Text}

namespace SplitPlace

def IsOutside (place : SplitPlace) : Prop :=
  place.depth = 0 ∧ place.quote = none

instance (place : SplitPlace) : Decidable place.IsOutside :=
  inferInstanceAs (Decidable (_ ∧ _))

def next (place : SplitPlace) (c : Char) : SplitPlace :=
  match place.quote with
  | some quote =>
      ⟨place.depth, if c == quote && place.previous != some '\\' then none else some quote, some c⟩
  | none =>
      if isQuote c then ⟨place.depth, some c, some c⟩
      else if opensGroup c then ⟨place.depth + 1, none, some c⟩
      else if c == '>' && place.previous == some '=' then ⟨place.depth, none, some c⟩
      else if closesGroup c then ⟨place.depth - 1, none, some c⟩
      else ⟨place.depth, none, some c⟩

def behind (place : SplitPlace) (text : Text) : SplitPlace :=
  text.foldl next place

def Cuts (isSeparator : Char → Bool) (place : SplitPlace) (c : Char) : Prop :=
  place.IsOutside ∧ isPlain c = true ∧ isSeparator c = true

instance (isSeparator : Char → Bool) (place : SplitPlace) (c : Char) :
    Decidable (place.Cuts isSeparator c) :=
  inferInstanceAs (Decidable (_ ∧ _))

def pieces (isSeparator : Char → Bool) (place : SplitPlace) (text : Text) : List Text :=
  piecesFrom isSeparator place.depth place.quote place.previous text

variable {isSeparator : Char → Bool}

@[simp] theorem behind_nil (place : SplitPlace) : place.behind [] = place := rfl

@[simp] theorem behind_cons (place : SplitPlace) (c : Char) (text : Text) :
    place.behind (c :: text) = (place.next c).behind text := rfl

theorem behind_append (place : SplitPlace) (front back : Text) :
    place.behind (front ++ back) = (place.behind front).behind back :=
  List.foldl_append

theorem pieces_cons (isSeparator : Char → Bool) (place : SplitPlace) (c : Char) (rest : Text) :
    place.pieces isSeparator (c :: rest) =
      if place.Cuts isSeparator c then [] :: (place.next c).pieces isSeparator rest
      else consPiece c ((place.next c).pieces isSeparator rest) := by
  obtain ⟨depth, quote, previous⟩ := place
  cases quote with
  | some quote => simp [pieces, piecesFrom, next, Cuts, IsOutside]
  | none =>
      cases hplain : isPlain c with
      | true =>
          have hc := hplain
          simp only [isPlain, Bool.and_eq_true, Bool.not_eq_true'] at hc
          have harrow : (c == '>' && previous == some '=') = false := by
            have hne : c ≠ '>' := by rintro rfl; simp [closesGroup] at hc
            simp [hne]
          simp [pieces, piecesFrom, next, Cuts, IsOutside, hplain, hc, harrow]
      | false =>
          simp only [pieces, piecesFrom, next, Cuts, hplain, Bool.false_eq_true, false_and,
            and_false, if_false]
          split <;> [rfl; split <;> [rfl; split <;> [rfl; split]]]
          · rfl
          · next hquote hopens _ hcloses => simp_all [isPlain]

/-- Outside brackets it does not matter what stands before: an arrow closes as little as a
bracket that nothing opens. -/
theorem IsOutside.next_eq {place : SplitPlace} (h : place.IsOutside) (c : Char) :
    place.next c = next {} c := by
  simp [next, h.1, h.2]

theorem IsOutside.isOutside_behind_iff {place : SplitPlace} (h : place.IsOutside) (text : Text) :
    (place.behind text).IsOutside ↔ (behind {} text).IsOutside := by
  cases text with
  | nil => exact iff_of_true h ⟨rfl, rfl⟩
  | cons c text => rw [behind_cons, behind_cons, h.next_eq]

theorem IsOutside.pieces_eq {place : SplitPlace} (h : place.IsOutside) (text : Text) :
    place.pieces isSeparator text = splitTopLevel isSeparator text := by
  change _ = pieces isSeparator {} text
  cases text with
  | nil => rfl
  | cons c text =>
      have hcuts : place.Cuts isSeparator c ↔ Cuts isSeparator {} c :=
        and_congr_left fun _ => iff_of_true h ⟨rfl, rfl⟩
      rw [pieces_cons, pieces_cons, h.next_eq, if_congr hcuts rfl rfl]

theorem Cuts.isOutside_next {place : SplitPlace} {c : Char} (h : place.Cuts isSeparator c) :
    (place.next c).IsOutside := by
  obtain ⟨⟨hdepth, hquote⟩, hplain, -⟩ := h
  simp only [isPlain, Bool.and_eq_true, Bool.not_eq_true'] at hplain
  simp only [next, hquote, hplain, Bool.false_eq_true, if_false]
  split <;> exact ⟨hdepth, rfl⟩

theorem pieces_append_cut (place : SplitPlace) {front : Text}
    (h : (place.behind front).Cuts isSeparator mark) (rest : Text) :
    place.pieces isSeparator (front ++ mark :: rest) =
      place.pieces isSeparator front ++ splitTopLevel isSeparator rest := by
  induction front generalizing place with
  | nil =>
      rw [behind_nil] at h
      rw [List.nil_append, pieces_cons, if_pos h, h.isOutside_next.pieces_eq]
      rfl
  | cons c front ih =>
      rw [List.cons_append, pieces_cons, pieces_cons, ih _ h]
      split
      · rfl
      · obtain ⟨piece, more, hpieces⟩ :=
          List.exists_cons_of_ne_nil (piecesFrom_ne_nil isSeparator (place.next c).depth
            (place.next c).quote (place.next c).previous front)
        rw [pieces, hpieces]
        rfl

theorem pieces_append (place : SplitPlace)
    (h : ∀ front c rest, text = front ++ c :: rest → ¬(place.behind front).Cuts isSeparator c)
    (rest : Text) :
    place.pieces isSeparator (text ++ rest) =
      text.foldr consPiece ((place.behind text).pieces isSeparator rest) := by
  induction text generalizing place with
  | nil => rfl
  | cons c text ih =>
      have hfirst : ¬place.Cuts isSeparator c := h [] c text rfl
      rw [List.cons_append, pieces_cons, if_neg hfirst, List.foldr_cons, behind_cons,
        ih _ fun front d rest htext => h (c :: front) d rest (by rw [htext]; rfl)]

end SplitPlace

theorem splitTopLevel_append_cut {isSeparator : Char → Bool} {front : Text}
    (h : (SplitPlace.behind {} front).Cuts isSeparator mark) (rest : Text) :
    splitTopLevel isSeparator (front ++ mark :: rest) =
      splitTopLevel isSeparator front ++ splitTopLevel isSeparator rest :=
  SplitPlace.pieces_append_cut {} h rest

def Unparted (isSeparator : Char → Bool) (text : Text) : Prop :=
  ∀ front c rest, text = front ++ c :: rest → isSeparator c = true →
    ¬(SplitPlace.behind {} front).IsOutside

instance (isSeparator : Char → Bool) (text : Text) : Decidable (Unparted isSeparator text) :=
  decidable_of_iff (∀ i : Fin text.length, isSeparator (text.get i) = true →
      ¬(SplitPlace.behind {} (text.take i)).IsOutside) <| by
    constructor
    · rintro h front c rest rfl
      simpa using h ⟨front.length, by simp⟩
    · intro h i
      refine h _ _ (text.drop (i + 1)) ?_
      rw [List.get_eq_getElem, List.getElem_cons_drop, List.take_append_drop]

/-- A text without a separator outside brackets and quotes that leaves none of them open. -/
structure IsPiece (isSeparator : Char → Bool) (text : Text) : Prop where
  unparted : Unparted isSeparator text
  closed : (SplitPlace.behind {} text).IsOutside

instance (isSeparator : Char → Bool) (text : Text) : Decidable (IsPiece isSeparator text) :=
  decidable_of_iff (Unparted isSeparator text ∧ (SplitPlace.behind {} text).IsOutside)
    ⟨fun ⟨hwhole, hclosed⟩ => ⟨hwhole, hclosed⟩, fun h => ⟨h.unparted, h.closed⟩⟩

variable {isSeparator : Char → Bool}

theorem Unparted.splitTopLevel_append (h : Unparted isSeparator text) (rest : Text) :
    splitTopLevel isSeparator (text ++ rest) =
      text.foldr consPiece ((SplitPlace.behind {} text).pieces isSeparator rest) :=
  SplitPlace.pieces_append {} (fun front c rest htext hcuts =>
    h front c rest htext hcuts.2.2 hcuts.1) rest

theorem Unparted.splitTopLevel_eq (h : Unparted isSeparator text) :
    splitTopLevel isSeparator text = [text] := by
  have hend := h.splitTopLevel_append []
  rw [List.append_nil] at hend
  rw [hend]
  simp [SplitPlace.pieces, piecesFrom, foldr_consPiece]

theorem Unparted.nil : Unparted isSeparator [] := by
  intro front c rest htext
  simp at htext

theorem Unparted.concat (h : Unparted isSeparator text) {c : Char}
    (hc : isSeparator c = true → ¬(SplitPlace.behind {} text).IsOutside) :
    Unparted isSeparator (text ++ [c]) := by
  intro front d rest htext
  rcases List.eq_nil_or_concat rest with rfl | ⟨rest, last, rfl⟩
  · obtain ⟨rfl, hlast⟩ := List.append_inj' htext rfl
    cases hlast
    exact hc
  · rw [List.concat_eq_append, ← List.cons_append, ← List.append_assoc] at htext
    exact h front d rest (List.append_inj' htext rfl).1

theorem unparted_or_first (isSeparator : Char → Bool) (text : Text) :
    Unparted isSeparator text ∨ ∃ piece mark rest, text = piece ++ mark :: rest ∧
      IsPiece isSeparator piece ∧ isSeparator mark = true := by
  induction text using List.reverseRecOn with
  | nil => exact .inl .nil
  | append_singleton text c ih =>
      rcases ih with hwhole | ⟨piece, mark, rest, rfl, hpiece, hmark⟩
      · by_cases hc : isSeparator c = true ∧ (SplitPlace.behind {} text).IsOutside
        · exact .inr ⟨text, c, [], rfl, ⟨hwhole, hc.2⟩, hc.1⟩
        · exact .inl (hwhole.concat fun hsep hout => hc ⟨hsep, hout⟩)
      · exact .inr ⟨piece, mark, rest ++ [c], by simp, hpiece, hmark⟩

theorem IsPiece.nil : IsPiece isSeparator [] :=
  ⟨.nil, rfl, rfl⟩

theorem IsPiece.append {first second : Text} (hfirst : IsPiece isSeparator first)
    (hsecond : IsPiece isSeparator second) : IsPiece isSeparator (first ++ second) where
  unparted := by
    intro front c rest htext hc
    rcases List.append_eq_append_iff.mp htext with ⟨middle, rfl, hmiddle⟩ | ⟨middle, hmiddle, hrest⟩
    · rw [SplitPlace.behind_append, hfirst.closed.isOutside_behind_iff]
      exact hsecond.unparted middle c rest hmiddle hc
    · cases middle with
      | nil =>
          exact absurd ⟨rfl, rfl⟩ (hsecond.unparted [] c rest hrest.symm hc)
      | cons d middle =>
          cases hrest
          exact hfirst.unparted front c middle hmiddle hc
  closed := by
    rw [SplitPlace.behind_append, hfirst.closed.isOutside_behind_iff]
    exact hsecond.closed

theorem IsPiece.of_all (h : text.all (fun c => isPlain c && !isSeparator c) = true) :
    IsPiece isSeparator text := by
  induction text with
  | nil => exact .nil
  | cons c text ih =>
      rw [List.all_cons, Bool.and_eq_true, Bool.and_eq_true, Bool.not_eq_true'] at h
      obtain ⟨⟨hplain, hseparator⟩, hrest⟩ := h
      have hout : (SplitPlace.behind {} [c]).IsOutside := by
        simp only [isPlain, Bool.and_eq_true, Bool.not_eq_true'] at hplain
        simp [SplitPlace.behind, SplitPlace.next, SplitPlace.IsOutside, hplain]
      have hone : IsPiece isSeparator [c] :=
        ⟨Unparted.nil.concat (by simp [hseparator]), hout⟩
      exact hone.append (ih hrest)

theorem IsPiece.splitTopLevel_append (h : IsPiece isSeparator text) (rest : Text) :
    splitTopLevel isSeparator (text ++ rest) =
      text.foldr consPiece (splitTopLevel isSeparator rest) := by
  rw [h.unparted.splitTopLevel_append, h.closed.pieces_eq]

def interleave (first : Text) (others : List (Char × Text)) : Text :=
  first ++ others.flatMap fun (mark, piece) => mark :: piece

theorem interleave_cons (first : Text) (mark : Char) (second : Text)
    (others : List (Char × Text)) :
    interleave first ((mark, second) :: others) = first ++ mark :: interleave second others := by
  simp [interleave]

theorem splitTopLevel_cons {piece : Text} (hpiece : IsPiece isSeparator piece)
    (hplain : isPlain mark = true) (hmark : isSeparator mark = true) (rest : Text) :
    splitTopLevel isSeparator (piece ++ mark :: rest) =
      piece :: splitTopLevel isSeparator rest := by
  rw [splitTopLevel_append_cut ⟨hpiece.closed, hplain, hmark⟩, hpiece.unparted.splitTopLevel_eq]
  rfl

theorem join_eq_interleave (mark : Char) (first : Text) (others : List Text) :
    Text.join [mark] (first :: others) = interleave first (others.map (mark, ·)) := by
  induction others generalizing first with
  | nil => simp [Text.join, interleave]
  | cons second others ih =>
      rw [Text.join_cons (List.cons_ne_nil _ _), ih, List.map_cons, interleave_cons,
        List.append_assoc, List.singleton_append]

theorem splitTopLevel_interleave (hplain : ∀ c, isSeparator c = true → isPlain c = true)
    {first : Text} {others : List (Char × Text)} (hfirst : IsPiece isSeparator first)
    (hothers : ∀ other ∈ others, isSeparator other.1 = true ∧ IsPiece isSeparator other.2) :
    splitTopLevel isSeparator (interleave first others) = first :: others.map Prod.snd := by
  induction others generalizing first with
  | nil => simpa [interleave] using hfirst.unparted.splitTopLevel_eq
  | cons other others ih =>
      rw [List.forall_mem_cons] at hothers
      rw [interleave_cons, splitTopLevel_cons hfirst (hplain _ hothers.1.1) hothers.1.1,
        ih hothers.1.2 hothers.2, List.map_cons]

/-- How a text is put together from pieces.  Separators stand between them, no piece has a
separator outside brackets and quotes, and only the last one may leave one of these open. -/
structure IsParting (isSeparator : Char → Bool) (text first : Text)
    (others : List (Char × Text)) : Prop where
  joins : interleave first others = text
  separated : ∀ other ∈ others, isSeparator other.1 = true
  unparted : ∀ piece ∈ first :: others.map Prod.snd, Unparted isSeparator piece
  closed : ∀ piece ∈ (first :: others.map Prod.snd).dropLast,
    (SplitPlace.behind {} piece).IsOutside

theorem IsParting.cons {second : Text} {others : List (Char × Text)}
    (h : IsParting isSeparator text second others) {piece : Text}
    (hpiece : IsPiece isSeparator piece) (hmark : isSeparator mark = true) :
    IsParting isSeparator (piece ++ mark :: text) piece ((mark, second) :: others) where
  joins := by rw [interleave_cons, h.joins]
  separated := List.forall_mem_cons.mpr ⟨hmark, h.separated⟩
  unparted := List.forall_mem_cons.mpr ⟨hpiece.unparted, h.unparted⟩
  closed := by
    rw [List.map_cons, List.dropLast_cons_cons]
    exact List.forall_mem_cons.mpr ⟨hpiece.closed, h.closed⟩

theorem exists_isParting (hplain : ∀ c, isSeparator c = true → isPlain c = true) (text : Text) :
    ∃ first others, IsParting isSeparator text first others ∧
      splitTopLevel isSeparator text = first :: others.map Prod.snd := by
  induction hlength : text.length using Nat.strongRecOn generalizing text with
  | _ length ih =>
      rcases unparted_or_first isSeparator text with hwhole |
        ⟨piece, mark, rest, rfl, hpiece, hmark⟩
      · refine ⟨text, [], ⟨?_, ?_, ?_, ?_⟩, hwhole.splitTopLevel_eq⟩
        · simp [interleave]
        · simp
        · simpa using hwhole
        · simp
      · have hshorter : rest.length < length := by
          rw [← hlength, List.length_append, List.length_cons]
          omega
        obtain ⟨second, others, hparting, hsplit⟩ := ih rest.length hshorter rest rfl
        refine ⟨piece, (mark, second) :: others, hparting.cons hpiece hmark, ?_⟩
        rw [splitTopLevel_cons hpiece (hplain mark hmark) hmark, hsplit]
        rfl

/--
Splitting undoes joining, for separators that are no quotes and no brackets.  The pieces of a
text join to the text again, with the separators between them that the split took out.  And
pieces that have no separator outside brackets and quotes, and leave none of these open, are
what a split of the joined text gives.
-/
theorem split_inverse_of_join (hplain : ∀ c, isSeparator c = true → isPlain c = true) :
    (∀ text, ∃ first others, IsParting isSeparator text first others ∧
      splitTopLevel isSeparator text = first :: others.map Prod.snd) ∧
    ∀ first others, IsPiece isSeparator first →
      (∀ other ∈ others, isSeparator other.1 = true ∧ IsPiece isSeparator other.2) →
      splitTopLevel isSeparator (interleave first others) = first :: others.map Prod.snd :=
  ⟨exists_isParting hplain, fun _ _ => splitTopLevel_interleave hplain⟩

/-- Separators in brackets and quotes, a bracket that closes nothing and an arrow. -/
theorem split_inverse_of_join_parameters :
    isPlain ',' = true ∧ isPlain ';' = true ∧
    (∀ piece ∈ ["a: Map<K, V>)".toList, " b = ';,'".toList, "(x, y) => [z]".toList],
      IsPiece (fun c => c == ',' || c == ';') piece) ∧
    splitTopLevel (fun c => c == ',' || c == ';')
        "a: Map<K, V>), b = ';,';(x, y) => [z]".toList =
      ["a: Map<K, V>)".toList, " b = ';,'".toList, "(x, y) => [z]".toList] := by
  have hplain (c : Char) (hc : (c == ',' || c == ';') = true) : isPlain c = true := by
    rw [Bool.or_eq_true, beq_iff_eq, beq_iff_eq] at hc
    rcases hc with rfl | rfl <;> rfl
  refine ⟨rfl, rfl, by decide, ?_⟩
  exact (split_inverse_of_join hplain).2 "a: Map<K, V>)".toList
    [(',', " b = ';,'".toList), (';', "(x, y) => [z]".toList)] (by decide) (by decide)

end ComponentDocs.Component
