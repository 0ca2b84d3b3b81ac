import ComponentDocs.Proofs.Fallback.Splitting

/-!
# Nested texts

In a nested text every opening bracket is closed in its turn and every quote is closed.  A
reader that keeps the brackets it waits for decides it.  The scans of the fallback only count,
and on a nested text counting is enough.
-/

namespace ComponentDocs.Component

def bracketPairs : List (Char × Char) :=
  [('(', ')'), ('[', ']'), ('<', '>')]

def allPairs : List (Char × Char) :=
  ('\x7b', '\x7d') :: bracketPairs

structure Nesting where
  awaited : List Char := []
  quote : Option Char := none
  previous : Option Char := none

def Nesting.endsArrow (place : Nesting) (c : Char) : Bool :=
  c == '>' && place.previous == some '='

/-- Take in a character.  Outside brackets and quotes only bare characters and arrows may
stand. -/
def Nesting.next? (isBare : Char → Bool) (place : Nesting) (c : Char) : Option Nesting :=
  match place.quote with
  | some quote =>
      if c == '\\' then none
      else some ⟨place.awaited, if c == quote then none else some quote, some c⟩
  | none =>
      if isQuote c then some ⟨place.awaited, some c, some c⟩
      else
        match allPairs.lookup c with
        | some closer => some ⟨closer :: place.awaited, none, some c⟩
        | none =>
            match place.awaited with
            | [] => if isBare c || place.endsArrow c then some ⟨[], none, some c⟩ else none
            | closer :: awaited =>
                if closesGroup c && !place.endsArrow c then
                  if c == closer then some ⟨awaited, none, some c⟩ else none
                else some ⟨closer :: awaited, none, some c⟩

/-- Whether brackets are nested and quotes closed, with nothing but bare characters outside
them and no backslash in quotes. -/
def isNested (isBare : Char → Bool) (text : Text) : Bool :=
  (text.foldlM (Nesting.next? isBare) {}).any fun place =>
    place.awaited.isEmpty && place.quote.isNone

def isInline (isSeparator : Char → Bool) (c : Char) : Bool :=
  !isSeparator c && !closesGroup c

example : isNested (isInline (· == ',')) "(a, b) => Map<K, ',>'>" = true := by decide
example : isNested (isInline (· == ',')) "[a)" = false := by decide

inductive Nesting.Step (isBare : Char → Bool) (place : Nesting) (c : Char) : Nesting → Prop
  | quoted (quote : Char) : place.quote = some quote → c ≠ '\\' →
      Step isBare place c ⟨place.awaited, if c == quote then none else some quote, some c⟩
  | opensQuote : place.quote = none → isQuote c = true →
      Step isBare place c ⟨place.awaited, some c, some c⟩
  | opens (closer : Char) : place.quote = none → isQuote c = false → (c, closer) ∈ allPairs →
      Step isBare place c ⟨closer :: place.awaited, none, some c⟩
  | closes (awaited : List Char) : place.quote = none → isQuote c = false →
      opensGroup c = false → closesGroup c = true → place.endsArrow c = false →
      place.awaited = c :: awaited → Step isBare place c ⟨awaited, none, some c⟩
  | bare : place.quote = none → isQuote c = false → opensGroup c = false →
      (closesGroup c = true → place.endsArrow c = true ∨ place.awaited = []) →
      (place.awaited = [] → isBare c = true ∨ place.endsArrow c = true) →
      Step isBare place c ⟨place.awaited, none, some c⟩

variable {c : Char} {next place last : Nesting} {text : Text}

theorem opensGroup_eq_false (h : allPairs.lookup c = none) : opensGroup c = false := by
  simp only [allPairs, bracketPairs, List.lookup_eq_none_iff, List.mem_cons, List.not_mem_nil,
    or_false, forall_eq_or_imp, forall_eq, bne_iff_ne] at h
  simp [opensGroup, h]

variable {isBare isSeparator : Char → Bool}

theorem Nesting.step_of_next? (h : place.next? isBare c = some next) :
    Step isBare place c next := by
  unfold next? at h
  split at h
  · next quote hquote =>
      rw [Option.ite_none_left_eq_some, beq_iff_eq] at h
      obtain ⟨hback, h⟩ := h
      cases h
      exact .quoted quote hquote hback
  · next hquote =>
      split at h
      · next hc =>
          cases h
          exact .opensQuote hquote hc
      · next hc =>
          rw [Bool.not_eq_true] at hc
          split at h
          · next closer hlookup =>
              cases h
              obtain ⟨front, back, hpairs, -⟩ := List.lookup_eq_some_iff.mp hlookup
              exact .opens closer hquote hc (by simp [hpairs])
          · next hlookup =>
              have hopens := opensGroup_eq_false hlookup
              split at h
              · next hawaited =>
                  rw [Option.ite_none_right_eq_some, Bool.or_eq_true] at h
                  obtain ⟨hbare, h⟩ := h
                  cases h
                  rw [← hawaited]
                  exact .bare hquote hc hopens (fun _ => .inr hawaited) fun _ => hbare
              · next closer awaited hawaited =>
                  split at h
                  · next hcloses =>
                      rw [Bool.and_eq_true, Bool.not_eq_true'] at hcloses
                      rw [Option.ite_none_right_eq_some, beq_iff_eq] at h
                      obtain ⟨rfl, h⟩ := h
                      cases h
                      exact .closes awaited hquote hc hopens hcloses.1 hcloses.2 hawaited
                  · next hcloses =>
                      cases h
                      rw [← hawaited]
                      refine .bare hquote hc hopens (fun hclose => .inl ?_) fun hnil => ?_
                      · simpa [hclose] using hcloses
                      · simp [hawaited] at hnil

def Nesting.block (place : Nesting) : BlockPlace :=
  match place.quote with
  | none => .code
  | some quote => .quoted quote

def Nesting.braces (place : Nesting) : Nat :=
  place.awaited.count '\x7d'

theorem opener_cases {opener closer : Char} (h : (opener, closer) ∈ allPairs) :
    opensGroup opener = true ∧ opener ≠ '\x7d' ∧ (opener = '\x7b' ↔ closer = '\x7d') := by
  simp only [allPairs, bracketPairs, List.mem_cons, Prod.mk.injEq, List.not_mem_nil,
    or_false] at h
  rcases h with ⟨rfl, rfl⟩ | ⟨rfl, rfl⟩ | ⟨rfl, rfl⟩ | ⟨rfl, rfl⟩ <;> decide

theorem Nesting.Step.blockFrom (h : Step isBare place c next) (hbrace : isBare '\x7d' = false)
    (rest : Text) :
    blockFrom place.block place.braces (c :: rest) =
      blockFrom.consInside c (blockFrom next.block next.braces rest) := by
  cases h with
  | quoted quote hquote hback =>
      simp only [block, braces, hquote, Component.blockFrom, beq_iff_eq, hback, ↓reduceIte]
      split <;> rfl
  | opensQuote hquote hopens =>
      simp [block, braces, hquote, Component.blockFrom, hopens]
  | opens closer hquote hc hpair =>
      obtain ⟨-, hclose, hbrace⟩ := opener_cases hpair
      by_cases hopen : c = '\x7b'
      · simp [block, braces, hquote, Component.blockFrom, hopen, hbrace.mp hopen, isQuote]
      · have hcloser : closer ≠ '\x7d' := fun h => hopen (hbrace.mpr h)
        simp [block, braces, hquote, Component.blockFrom, hc, hopen, hclose, hcloser]
  | closes awaited hquote hc hopens hcloses _ hawaited =>
      have hopen : c ≠ '\x7b' := by
        rintro rfl
        contradiction
      by_cases hclose : c = '\x7d'
      · simp [block, braces, hquote, Component.blockFrom, hawaited, hclose, isQuote]
      · simp [block, braces, hquote, Component.blockFrom, hawaited, hc, hopen, hclose]
  | bare hquote hc hopens hcloses hbare =>
      have hopen : c ≠ '\x7b' := by
        rintro rfl
        contradiction
      have hclose : c ≠ '\x7d' := by
        rintro rfl
        have harrow : place.endsArrow '\x7d' = false := rfl
        have hawaited : place.awaited = [] := by simpa [harrow] using hcloses rfl
        simpa [harrow, hbrace] using hbare hawaited
      simp [block, braces, hquote, Component.blockFrom, hc, hopen, hclose]

def Nesting.split (place : Nesting) : SplitPlace :=
  ⟨place.awaited.length, place.quote, place.previous⟩

theorem Nesting.Step.split_next (h : Step isBare place c next)
    (hprevious : place.quote ≠ none → place.previous ≠ some '\\') :
    place.split.next c = next.split := by
  cases h with
  | quoted quote hquote => simp [split, SplitPlace.next, hquote, hprevious]
  | opensQuote hquote hopens => simp [split, SplitPlace.next, hquote, hopens]
  | opens closer hquote hc hpair =>
      obtain ⟨hopens, -, -⟩ := opener_cases hpair
      simp [split, SplitPlace.next, hquote, hc, hopens]
  | closes awaited hquote hc hopens hcloses harrow hawaited =>
      rw [endsArrow] at harrow
      simp only [split, SplitPlace.next, hquote, hc, hopens, hcloses, harrow, hawaited,
        Bool.false_eq_true, ↓reduceIte, List.length_cons, Nat.add_sub_cancel]
  | bare hquote hc hopens hcloses hbare =>
      simp only [endsArrow] at hcloses
      cases harrow : c == '>' && place.previous == some '=' with
      | true => simp only [split, SplitPlace.next, hquote, hc, hopens, harrow, Bool.false_eq_true,
          ↓reduceIte]
      | false =>
          cases hclose : closesGroup c with
          | true =>
              -- nothing is open that the bracket could close
              have hawaited : place.awaited = [] := by simpa [harrow] using hcloses hclose
              simp only [split, SplitPlace.next, hquote, hc, hopens, harrow, hclose, hawaited,
                Bool.false_eq_true, ↓reduceIte, List.length_nil, Nat.zero_sub]
          | false =>
              simp only [split, SplitPlace.next, hquote, hc, hopens, harrow, hclose,
                Bool.false_eq_true, ↓reduceIte]

theorem Nesting.Step.isBare_of_isOutside (h : Step isBare place c next) (hplain : isPlain c = true)
    (houtside : place.split.IsOutside) : isBare c = true := by
  have hawaited : place.awaited = [] := List.length_eq_zero_iff.mp houtside.1
  have hquote : place.quote = none := houtside.2
  simp only [isPlain, Bool.and_eq_true, Bool.not_eq_true'] at hplain
  cases h with
  | quoted quote hsome => simp [hquote] at hsome
  | opensQuote _ hopens => simp [hopens] at hplain
  | opens _ _ _ hpair => simp [(opener_cases hpair).1] at hplain
  | closes _ _ _ _ hcloses => simp [hcloses] at hplain
  | bare _ _ _ _ hbare =>
      refine (hbare hawaited).resolve_right fun harrow => ?_
      simp only [endsArrow, Bool.and_eq_true, beq_iff_eq] at harrow
      simp [harrow.1, closesGroup] at hplain

theorem Nesting.Step.previous_ne (h : Step isBare place c next)
    (hquote : next.quote ≠ none) : next.previous ≠ some '\\' := by
  cases h with
  | quoted quote _ hback => simpa using hback
  | opensQuote _ hopens =>
      rintro ⟨⟩
      contradiction
  | opens | closes | bare => contradiction

@[simp] theorem consInside_eq_map (c : Char) (found : Option (Text × Text)) :
    blockFrom.consInside c found = found.map fun (inside, behind) => (c :: inside, behind) := by
  cases found <;> rfl

theorem Nesting.blockFrom_append (h : text.foldlM (next? isBare) place = some last)
    (hbrace : isBare '\x7d' = false) (rest : Text) :
    blockFrom place.block place.braces (text ++ rest) =
      (blockFrom last.block last.braces rest).map fun (inside, behind) =>
        (text ++ inside, behind) := by
  induction text generalizing place with
  | nil =>
      cases h
      simp
  | cons c text ih =>
      rw [List.foldlM_cons, Option.bind_eq_bind, Option.bind_eq_some_iff] at h
      obtain ⟨next, hnext, hlast⟩ := h
      rw [List.cons_append, (step_of_next? hnext).blockFrom hbrace, ih hlast]
      simp [Function.comp_def]

theorem Nesting.split_behind (h : text.foldlM (next? isBare) place = some last)
    (hprevious : place.quote ≠ none → place.previous ≠ some '\\') :
    place.split.behind text = last.split := by
  induction text generalizing place with
  | nil =>
      cases h
      rfl
  | cons c text ih =>
      rw [List.foldlM_cons, Option.bind_eq_bind, Option.bind_eq_some_iff] at h
      obtain ⟨next, hnext, hlast⟩ := h
      have hstep := step_of_next? hnext
      rw [SplitPlace.behind_cons, hstep.split_next hprevious, ih hlast hstep.previous_ne]

theorem Nesting.isQuote_of_foldlM (h : text.foldlM (next? isBare) place = some last)
    (hplace : ∀ quote ∈ place.quote, isQuote quote = true) :
    ∀ quote ∈ last.quote, isQuote quote = true := by
  induction text generalizing place with
  | nil =>
      cases h
      exact hplace
  | cons c text ih =>
      rw [List.foldlM_cons, Option.bind_eq_bind, Option.bind_eq_some_iff] at h
      obtain ⟨next, hnext, hlast⟩ := h
      refine ih hlast ?_
      cases step_of_next? hnext with
      | quoted quote hquote =>
          dsimp only
          split
          · simp
          · rwa [hquote] at hplace
      | opensQuote _ hopens =>
          rintro quote ⟨⟩
          exact hopens
      | opens | closes | bare => simp

theorem getLast?_of_isNested (h : isNested isBare text = true) :
    ∀ c ∈ text.getLast?, (isBare c || closesGroup c || isQuote c) = true := by
  intro c hc
  obtain ⟨init, rfl⟩ := List.getLast?_eq_some_iff.mp hc
  obtain ⟨last, hlast, hend⟩ := (Option.any_eq_true _ _).mp h
  rw [Bool.and_eq_true, List.isEmpty_iff, Option.isNone_iff_eq_none] at hend
  rw [List.foldlM_append, Option.bind_eq_bind, Option.bind_eq_some_iff] at hlast
  obtain ⟨place, hinit, hnext⟩ := hlast
  have hquotes := Nesting.isQuote_of_foldlM hinit (by simp)
  have hstep : Nesting.Step isBare place c last := Nesting.step_of_next? (by simpa using hnext)
  cases hstep with
  | quoted quote hquote =>
      obtain ⟨-, hnone⟩ := hend
      dsimp only at hnone
      split at hnone
      · next hc =>
          rw [beq_iff_eq.mp hc, hquotes quote hquote, Bool.or_true]
      · contradiction
  | opensQuote | opens => simp at hend
  | closes _ _ _ _ hcloses => simp [hcloses]
  | bare _ _ _ hcloses hbare =>
      rcases hbare hend.1 with hbare | harrow
      · simp [hbare]
      · simp only [Nesting.endsArrow, Bool.and_eq_true, beq_iff_eq] at harrow
        simp [harrow.1, closesGroup]

def Enclosed (text : Text) : Prop :=
  ∀ rest, balancedBlock (text ++ rest) =
    (balancedBlock rest).map fun (inside, behind) => (text ++ inside, behind)

theorem exists_of_isNested (h : isNested isBare text = true) :
    ∃ previous, text.foldlM (Nesting.next? isBare) {} = some ⟨[], none, previous⟩ := by
  obtain ⟨⟨awaited, quote, previous⟩, hread, hlast⟩ := (Option.any_eq_true _ _).mp h
  rw [Bool.and_eq_true, List.isEmpty_iff, Option.isNone_iff_eq_none] at hlast
  obtain ⟨rfl, rfl⟩ := hlast
  exact ⟨previous, hread⟩

theorem Enclosed.of_isNested (h : isNested isBare text = true)
    (hbrace : isBare '\x7d' = false) : Enclosed text := by
  obtain ⟨previous, hread⟩ := exists_of_isNested h
  exact Nesting.blockFrom_append hread hbrace

theorem IsPiece.of_isNested (h : isNested isBare text = true)
    (hseparator : ∀ c, isSeparator c = true → isBare c = false)
    (hplain : ∀ c, isSeparator c = true → isPlain c = true) : IsPiece isSeparator text where
  unparted := by
    rintro front c rest rfl hc houtside
    obtain ⟨previous, hread⟩ := exists_of_isNested h
    rw [List.foldlM_append, Option.bind_eq_bind, Option.bind_eq_some_iff] at hread
    obtain ⟨place, hfront, hrest⟩ := hread
    rw [List.foldlM_cons, Option.bind_eq_bind, Option.bind_eq_some_iff] at hrest
    obtain ⟨next, hnext, -⟩ := hrest
    have hplace : SplitPlace.behind {} front = place.split :=
      Nesting.split_behind hfront (absurd rfl)
    have hbare := hseparator c hc
    rw [hplace] at houtside
    rw [(Nesting.step_of_next? hnext).isBare_of_isOutside (hplain c hc) houtside] at hbare
    contradiction
  closed := by
    obtain ⟨previous, hread⟩ := exists_of_isNested h
    have hplace : SplitPlace.behind {} text = ⟨0, none, previous⟩ :=
      Nesting.split_behind hread (absurd rfl)
    rw [hplace]
    exact ⟨rfl, rfl⟩

theorem IsPiece.of_isInline (h : isNested (isInline isSeparator) text = true)
    (hplain : ∀ c, isSeparator c = true → isPlain c = true) : IsPiece isSeparator text :=
  .of_isNested h (fun c hc => by simp [isInline, hc]) hplain

theorem Enclosed.append {first second : Text} (hfirst : Enclosed first)
    (hsecond : Enclosed second) : Enclosed (first ++ second) := by
  intro rest
  rw [List.append_assoc, hfirst, hsecond]
  simp [Function.comp_def]

theorem Enclosed.of_all (h : text.all isPlain = true) : Enclosed text := by
  induction text with
  | nil =>
      intro rest
      simp
  | cons c text ih =>
      rw [List.all_cons, Bool.and_eq_true] at h
      have hplain := h.1
      simp only [isPlain, Bool.and_eq_true, Bool.not_eq_true'] at hplain
      have hopen : c ≠ '\x7b' := by
        rintro rfl
        exact absurd hplain.1.2 (by decide)
      have hclose : c ≠ '\x7d' := by
        rintro rfl
        exact absurd hplain.2 (by decide)
      intro rest
      have hrest := ih h.2 rest
      rw [balancedBlock] at hrest
      simp [balancedBlock, blockFrom, hplain, hopen, hclose, hrest, Function.comp_def]

theorem balancedBlock_close (h : Enclosed text) (rest : Text) :
    balancedBlock (text ++ '\x7d' :: rest) = some (text, rest) := by
  have hclose : balancedBlock ('\x7d' :: rest) = some ([], rest) := rfl
  rw [h, hclose]
  simp

end ComponentDocs.Component
