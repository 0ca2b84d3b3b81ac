import ComponentDocs.Proofs.Fallback.Nesting
import ComponentDocs.Proofs.Script.Lexemes
import ComponentDocs.Proofs.Text.Tidy
import ComponentDocs.Proofs.Text.Trim

/-!
# Texts with balanced brackets

A balanced text is a nested one, so the scans that count brackets and quotes pass over it as a
whole: they neither leave a block in it nor split it.
-/

namespace ComponentDocs.Component

open ComponentDocs.Script (Quoted)

def isInert (c : Char) : Bool :=
  Text.isAsciiPart c || [' ', ':', '?', '|', '-'].contains c

/-- A text in which every bracket is closed and every quote ends. -/
inductive Balanced : Text → Prop
  | nil : Balanced []
  | atom {c : Char} : isInert c = true → Balanced [c]
  | quoted (quoted : Quoted) : Balanced quoted.text
  | append {first second : Text} : Balanced first → Balanced second → Balanced (first ++ second)
  | group {opener closer : Char} {inner : Text} : (opener, closer) ∈ bracketPairs →
      Balanced inner → Balanced (opener :: (inner ++ [closer]))

variable {c mark : Char} {texts : List Text}

theorem isInert_lt (h : isInert c = true) : c.toNat < 128 := by
  rw [isInert, Bool.or_eq_true, List.contains_iff_mem] at h
  rcases h with hpart | hmark
  · exact Text.lt_of_isAsciiPart hpart
  · simp only [List.mem_cons, List.not_mem_nil, or_false] at hmark
    rcases hmark with rfl | rfl | rfl | rfl | rfl <;> decide

theorem of_isInert {p : Char → Bool}
    (h : ∀ code < 128, (!isInert (Char.ofNat code) || p (Char.ofNat code)) = true)
    (hc : isInert c = true) : p c = true := by
  have hall := Text.forall_ascii (p := fun c => !isInert c || p c) h (isInert_lt hc)
  simpa [hc] using hall

namespace Balanced

variable {text : Text}

theorem of_all (h : text.all isInert = true) : Balanced text := by
  induction text with
  | nil => exact .nil
  | cons c text ih =>
      rw [List.all_cons, Bool.and_eq_true] at h
      exact (Balanced.atom h.1).append (ih h.2)

def characters (c : Char) : Bool :=
  isInert c || ['"', '\'', '(', ')', '[', ']', '<', '>'].contains c

theorem all_characters (h : Balanced text) : text.all characters = true := by
  induction h with
  | nil => rfl
  | atom hc => simp [characters, hc]
  | quoted quoted =>
      have hinner : quoted.inner.all characters = true := by
        rw [List.all_eq_true]
        exact fun c hc => quoted.of_mem_inner (by decide) hc
      rcases quoted.isQuote with hquote | hquote <;> simp [Quoted.text, hquote, hinner, characters]
  | append _ _ ihfirst ihsecond => simp [ihfirst, ihsecond]
  | group hpair _ ih =>
      simp only [bracketPairs, List.mem_cons, Prod.mk.injEq, List.not_mem_nil, or_false] at hpair
      rcases hpair with ⟨rfl, rfl⟩ | ⟨rfl, rfl⟩ | ⟨rfl, rfl⟩ <;> simp [ih, characters]

theorem not_mem (h : Balanced text) (hc : characters c = false) : c ∉ text := by
  intro hmem
  have hall := List.all_eq_true.mp h.all_characters c hmem
  rw [hc] at hall
  contradiction

end Balanced

section Nested

variable {place : Nesting} {text : Text}

theorem Nesting.next?_of_isInert (hc : isInert c = true) (hquote : place.quote = none) :
    place.next? isInert c = some ⟨place.awaited, none, some c⟩ := by
  have hinert := of_isInert (p := fun c => !isQuote c && !closesGroup c &&
    (allPairs.lookup c).isNone) (by decide) hc
  simp only [Bool.and_eq_true, Bool.not_eq_true', Option.isNone_iff_eq_none] at hinert
  cases hawaited : place.awaited <;> simp [next?, hquote, hinert, hc, hawaited]

theorem Nesting.foldlM_quoted (quoted : Quoted) (hquote : place.quote = none) :
    quoted.text.foldlM (next? isInert) place =
      some ⟨place.awaited, none, some quoted.quote⟩ := by
  have hopens : isQuote quoted.quote = true ∧ quoted.quote ≠ '\\' := by
    rcases quoted.isQuote with hquote | hquote <;> rw [hquote] <;> decide
  have hinner : ∀ c ∈ quoted.inner, c ≠ '\\' ∧ c ≠ quoted.quote := by
    intro c hc
    have hplain := quoted.of_mem_inner (p := fun c => c != '\\' && c != '"' && c != '\'')
      (by decide) hc
    simp only [Bool.and_eq_true, bne_iff_ne] at hplain
    rcases quoted.isQuote with hquote | hquote <;> simp [hquote, hplain]
  have hrest : ∀ (inner : Text) (previous : Option Char),
      (∀ c ∈ inner, c ≠ '\\' ∧ c ≠ quoted.quote) →
      (inner ++ [quoted.quote]).foldlM (next? isInert)
        ⟨place.awaited, some quoted.quote, previous⟩ =
          some ⟨place.awaited, none, some quoted.quote⟩ := by
    intro inner
    induction inner with
    | nil => simp [next?, hopens.2]
    | cons c inner ih =>
        intro previous hinner
        rw [List.forall_mem_cons] at hinner
        have hnext : next? isInert ⟨place.awaited, some quoted.quote, previous⟩ c =
            some ⟨place.awaited, some quoted.quote, some c⟩ := by
          simp [next?, hinner.1]
        rw [List.cons_append, List.foldlM_cons, hnext]
        exact ih _ hinner.2
  have hfirst : place.next? isInert quoted.quote =
      some ⟨place.awaited, some quoted.quote, some quoted.quote⟩ := by
    simp [next?, hquote, hopens.1]
  rw [Quoted.text, List.foldlM_cons, hfirst]
  exact hrest _ _ hinner

/-- The reader passes over a balanced text and waits for the same brackets behind it. -/
theorem Balanced.foldlM_next? (h : Balanced text) (place : Nesting) (hquote : place.quote = none)
    (hprevious : place.previous ≠ some '=') :
    ∃ previous, previous ≠ some '=' ∧
      text.foldlM (Nesting.next? isInert) place = some ⟨place.awaited, none, previous⟩ := by
  induction h generalizing place with
  | nil =>
      obtain ⟨awaited, quote, previous⟩ := place
      cases hquote
      exact ⟨previous, hprevious, rfl⟩
  | atom hc =>
      have hassign := of_isInert (p := (· != '=')) (by decide) hc
      refine ⟨some _, by simpa using hassign, ?_⟩
      simp [Nesting.next?_of_isInert hc hquote]
  | quoted quoted =>
      refine ⟨some quoted.quote, ?_, Nesting.foldlM_quoted quoted hquote⟩
      rcases quoted.isQuote with hquote | hquote <;> rw [hquote] <;> decide
  | append _ _ ihfirst ihsecond =>
      obtain ⟨middle, hmiddle, hfirst⟩ := ihfirst place hquote hprevious
      obtain ⟨last, hlast, hsecond⟩ := ihsecond ⟨place.awaited, none, middle⟩ rfl hmiddle
      refine ⟨last, hlast, ?_⟩
      rw [List.foldlM_append, hfirst]
      exact hsecond
  | @group opener closer inner hpair _ ih =>
      have hmarks : isQuote opener = false ∧ allPairs.lookup opener = some closer ∧
          opener ≠ '=' ∧ isQuote closer = false ∧ allPairs.lookup closer = none ∧
          closesGroup closer = true ∧ closer ≠ '=' := by
        simp only [bracketPairs, List.mem_cons, Prod.mk.injEq, List.not_mem_nil, or_false] at hpair
        rcases hpair with ⟨rfl, rfl⟩ | ⟨rfl, rfl⟩ | ⟨rfl, rfl⟩ <;> decide
      obtain ⟨hopener, hlookup, hassign, hcloser, hnone, hcloses, hend⟩ := hmarks
      obtain ⟨middle, hmiddle, hinner⟩ := ih ⟨closer :: place.awaited, none, some opener⟩
        rfl (by simpa using hassign)
      refine ⟨some closer, by simpa using hend, ?_⟩
      have hopen : place.next? isInert opener =
          some ⟨closer :: place.awaited, none, some opener⟩ := by
        simp [Nesting.next?, hquote, hopener, hlookup]
      have hclose : Nesting.next? isInert ⟨closer :: place.awaited, none, middle⟩ closer =
          some ⟨place.awaited, none, some closer⟩ := by
        simp [Nesting.next?, hcloser, hnone, hcloses, Nesting.endsArrow, hmiddle]
      simp [hopen, hinner, hclose]

theorem Balanced.isNested (h : Balanced text) : isNested isInert text = true := by
  obtain ⟨previous, -, hread⟩ := h.foldlM_next? {} rfl (by simp)
  rw [Component.isNested, hread]
  rfl

theorem Balanced.enclosed (h : Balanced text) : Enclosed text :=
  .of_isNested h.isNested (by decide)

theorem Balanced.isPiece {isSeparator : Char → Bool} (h : Balanced text)
    (hseparator : ∀ c, isSeparator c = true → isInert c = false)
    (hplain : ∀ c, isSeparator c = true → isPlain c = true) : IsPiece isSeparator text :=
  .of_isNested h.isNested hseparator hplain

end Nested

def listed (mark : Char) (texts : List Text) : Text :=
  Text.join [mark] (texts.map (' ' :: ·)) ++ [' ']

@[simp] theorem listed_nil (mark : Char) : listed mark [] = [' '] := rfl

theorem listed_singleton (mark : Char) (text : Text) :
    listed mark [text] = [' '] ++ (text ++ [' ']) := rfl

theorem listed_cons (mark : Char) (text next : Text) (texts : List Text) :
    listed mark (text :: next :: texts) =
      [' '] ++ (text ++ (mark :: listed mark (next :: texts))) := by
  simp [listed, Text.join]

theorem not_mem_listed (hmark : c ≠ mark) (hblank : c ≠ ' ')
    (h : ∀ text ∈ texts, c ∉ text) : c ∉ listed mark texts := by
  induction texts with
  | nil => simpa using hblank
  | cons text texts ih =>
      rw [List.forall_mem_cons] at h
      cases texts with
      | nil => simp [listed_singleton, hblank, h.1]
      | cons next texts => simp [listed_cons, hblank, h.1, hmark, ih h.2]

theorem enclosed_listed (hmark : isPlain mark = true)
    (h : ∀ text ∈ texts, Enclosed text) : Enclosed (listed mark texts) := by
  have hblank : Enclosed [' '] := .of_all (by decide)
  induction texts with
  | nil => exact hblank
  | cons text texts ih =>
      rw [List.forall_mem_cons] at h
      cases texts with
      | nil => exact hblank.append (h.1.append hblank)
      | cons next texts =>
          have hcut : Enclosed [mark] := .of_all (by simpa using hmark)
          rw [listed_cons]
          exact hblank.append (h.1.append (hcut.append (ih h.2)))

theorem splitTopLevel_listed {isSeparator : Char → Bool}
    (h : ∀ text ∈ texts, IsPiece isSeparator text) (hne : texts ≠ []) (hplain : isPlain mark = true)
    (hmark : isSeparator mark = true) (hspace : isSeparator ' ' = false) :
    List.Forall₂ (fun text piece => Text.trim piece = Text.trim text) texts
      (splitTopLevel isSeparator (listed mark texts)) := by
  have hblank : IsPiece isSeparator [' '] := .of_all (by simpa [hspace] using (by decide))
  induction texts with
  | nil => contradiction
  | cons text texts ih =>
      rw [List.forall_mem_cons] at h
      cases texts with
      | nil =>
          rw [listed_singleton, (hblank.append (h.1.append hblank)).unparted.splitTopLevel_eq]
          exact .cons (Text.trim_around [' '] text [' '] rfl rfl) .nil
      | cons next texts =>
          rw [listed_cons, ← List.append_assoc, splitTopLevel_cons (hblank.append h.1) hplain hmark]
          refine .cons ?_ (ih h.2 (List.cons_ne_nil _ _))
          simpa using Text.trim_around [' '] text [] rfl rfl

end ComponentDocs.Component
