import ComponentDocs.Proofs.Text.Pieces

/-!
# Marks in a text

Where a mark occurs in texts that are put together.  A mark such as a tag has its first
character nowhere else, so that it cannot begin in one text and go on with another mark; and no
mark goes over a character that it does not have.
-/

namespace ComponentDocs.Text

/-- A text whose first character occurs only once in it. -/
def IsMark : Text → Prop
  | [] => False
  | c :: rest => c ∉ rest

def MeetsMark (mark text : Text) : Prop :=
  text = [] ∨ text.head? = mark.head?

variable {behind mark before : Text} {c : Char}

theorem not_isPrefix_append {text : Text} (hmark : mark.IsMark) (hfree : ¬mark <+: text)
    (hne : text ≠ []) (hmeets : MeetsMark mark behind) :
    ¬mark <+: text ++ behind := by
  rintro ⟨rest, heq⟩
  rcases List.append_eq_append_iff.mp heq with ⟨more, htext, -⟩ | ⟨more, hsplit, hbehind⟩
  · exact hfree ⟨more, htext.symm⟩
  · cases more with
    | nil => exact hfree ⟨[], by simpa using hsplit⟩
    | cons c more =>
        obtain ⟨first, text, rfl⟩ := List.exists_cons_of_ne_nil hne
        subst hsplit hbehind
        rcases hmeets with h | h
        · contradiction
        · simp only [List.cons_append, List.head?_cons, Option.some.injEq] at h
          subst h
          simp [IsMark] at hmark

theorem not_isInfix_of_cons {text : Text} (h : ¬mark <:+: c :: text) :
    ¬mark <:+: text :=
  fun hoccurs => h (hoccurs.trans (List.suffix_cons c text).isInfix)

theorem cut?_append (hmark : mark.IsMark) (hfree : ¬mark <:+: before)
    (behind : Text) : cut? mark (before ++ mark ++ behind) = some (before, behind) := by
  induction before with
  | nil =>
      cases mark with
      | nil => exact hmark.elim
      | cons c rest => simp [cut?]
  | cons c before ih =>
      have hmeets : MeetsMark mark (mark ++ behind) := by
        cases mark with
        | nil => exact hmark.elim
        | cons d rest => exact .inr rfl
      have hbegins := not_isPrefix_append hmark (fun h => hfree h.isInfix)
        (List.cons_ne_nil c before) hmeets
      rw [← List.append_assoc, List.cons_append, List.cons_append] at hbegins
      rw [List.cons_append, List.cons_append, cut?, if_neg (by simpa using hbegins),
        ih (not_isInfix_of_cons hfree)]
      rfl

theorem isPrefix_of_append_cons {word front rest : Text} {mark : Char} (hmark : mark ∉ word)
    (h : word <+: front ++ mark :: rest) : word <+: front := by
  rcases List.prefix_or_prefix_of_prefix h (List.prefix_append front (mark :: rest)) with
    hshort | ⟨more, rfl⟩
  · exact hshort
  · cases more with
    | nil => simp
    | cons c more =>
        rw [List.prefix_append_right_inj, List.cons_prefix_cons] at h
        exact absurd (by simp [h.1]) hmark

theorem isInfix_append_cons (hc : c ∉ mark)
    (h : mark <:+: before ++ c :: behind) : mark <:+: before ∨ mark <:+: behind := by
  obtain ⟨front, back, heq⟩ := h
  rw [List.append_assoc] at heq
  rcases List.append_eq_append_iff.mp heq with ⟨middle, hbefore, hrest⟩ | ⟨middle, hfront, hrest⟩
  · rcases List.append_eq_append_iff.mp hrest with ⟨more, hmiddle, -⟩ | ⟨more, hmark, hback⟩
    · exact .inl ⟨front, more, by rw [hbefore, hmiddle, List.append_assoc]⟩
    · cases more with
      | nil => exact .inl ⟨front, [], by simp [hbefore, hmark]⟩
      | cons d more =>
          cases hback
          exact absurd (by simp [hmark]) hc
  · cases middle with
    | nil =>
        cases mark with
        | nil => exact .inl List.nil_infix
        | cons d mark =>
            cases hrest
            exact absurd (by simp) hc
    | cons d middle =>
        cases hrest
        exact .inr ⟨middle, back, by simp⟩

theorem isInfix_of_not_mem (hc : c ∉ before)
    (h : c :: mark <:+: before ++ behind) : c :: mark <:+: behind := by
  induction before with
  | nil => exact h
  | cons d before ih =>
      rw [List.mem_cons, not_or] at hc
      rw [List.cons_append, List.infix_cons_iff, List.cons_prefix_cons] at h
      rcases h with ⟨heq, -⟩ | hlater
      · exact absurd heq hc.1
      · exact ih hc.2 hlater

/-- A mark that occurs in two texts of which the second begins with the mark's first
character occurs in one of them. -/
theorem isInfix_append (hmark : mark.IsMark) (hmeets : MeetsMark mark behind)
    (h : mark <:+: before ++ behind) :
    mark <:+: before ∨ mark <:+: behind := by
  induction before with
  | nil => exact .inr h
  | cons c before ih =>
      by_cases hoccurs : mark <:+: c :: before
      · exact .inl hoccurs
      · rw [List.cons_append, List.infix_cons_iff] at h
        rcases h with hbegins | hlater
        · exact absurd hbegins (not_isPrefix_append hmark (fun h => hoccurs h.isInfix)
            (List.cons_ne_nil c before) hmeets)
        · exact .inr ((ih hlater).resolve_left (not_isInfix_of_cons hoccurs))

theorem cut?_append_cons (hne : mark ≠ []) (hc : c ∉ mark) (hfree : ¬mark <:+: before)
    (behind : Text) :
    cut? mark (before ++ c :: (mark ++ behind)) = some (before ++ [c], behind) := by
  have hother : ∀ front, ¬mark <+: front → ¬mark <+: front ++ c :: (mark ++ behind) :=
    fun front hfront h => hfront (isPrefix_of_append_cons hc h)
  induction before with
  | nil =>
      have hbegins : ¬mark <+: c :: (mark ++ behind) := hother [] fun h => hfree h.isInfix
      have hcut : cut? mark (mark ++ behind) = some ([], behind) := by
        obtain ⟨d, rest, rfl⟩ := List.exists_cons_of_ne_nil hne
        simp [cut?]
      rw [List.nil_append, cut?, if_neg (by simpa using hbegins), hcut]
      rfl
  | cons d before ih =>
      have hbegins := hother (d :: before) fun h => hfree h.isInfix
      rw [List.cons_append] at hbegins
      rw [List.cons_append, cut?, if_neg (by simpa using hbegins), ih (not_isInfix_of_cons hfree)]
      rfl

theorem exists_isInfix_of_join (hne : mark ≠ []) (hc : c ∉ mark) {texts : List Text}
    (h : mark <:+: join [c] texts) : ∃ text ∈ texts, mark <:+: text := by
  induction texts with
  | nil => exact absurd (List.infix_nil.mp h) hne
  | cons first rest ih =>
      cases rest with
      | nil => exact ⟨first, List.mem_singleton_self first, h⟩
      | cons second rest =>
          rw [join_cons (List.cons_ne_nil _ _), List.append_assoc] at h
          rcases isInfix_append_cons hc h with hfirst | hrest
          · exact ⟨first, List.mem_cons_self, hfirst⟩
          · obtain ⟨text, htext, hmark⟩ := ih hrest
            exact ⟨text, List.mem_cons_of_mem _ htext, hmark⟩

end ComponentDocs.Text
