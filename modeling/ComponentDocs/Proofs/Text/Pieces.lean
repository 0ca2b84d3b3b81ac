import ComponentDocs.Text.Basic
import Mathlib.Data.List.Infix

/-!
# Pieces of a text

A text is its pieces between marks, joined again, and joined texts without the mark are the
pieces of what they are joined to.
-/

namespace ComponentDocs.Text

theorem pieces_eq_splitOn (mark : Char) (text : Text) :
    pieces mark text = text.splitOn mark := by
  induction text with
  | nil => rfl
  | cons c rest ih =>
      rw [pieces, List.splitOn_cons_eq_if_modifyHead, ih]
      split
      · rfl
      · cases h : rest.splitOn mark with
        | nil => exact absurd h (List.splitOn_ne_nil mark rest)
        | cons piece more => rfl

theorem mark_not_mem_of_mem_pieces {mark : Char} {text piece : Text}
    (h : piece ∈ pieces mark text) : mark ∉ piece := by
  induction text generalizing piece with
  | nil =>
      rw [pieces, List.mem_singleton] at h
      simp [h]
  | cons c rest ih =>
      rw [pieces] at h
      split at h
      · rcases List.mem_cons.mp h with rfl | h
        · simp
        · exact ih h
      · next hc =>
          have hmark : mark ≠ c := by
            rintro rfl
            simp at hc
          split at h
          · simpa [List.mem_singleton.mp h] using hmark
          · next first more hpieces =>
              rw [hpieces] at ih
              rcases List.mem_cons.mp h with rfl | h
              · simp [hmark, ih (List.mem_cons_self)]
              · exact ih (List.mem_cons_of_mem _ h)

theorem eq_append_of_cutAt? {p : Char → Bool} {text before behind : Text}
    (h : cutAt? p text = some (before, behind)) :
    ∃ c, p c = true ∧ text = before ++ c :: behind := by
  induction text generalizing before with
  | nil => contradiction
  | cons c rest ih =>
      rw [cutAt?] at h
      split at h
      · next hc =>
          cases h
          exact ⟨c, hc, rfl⟩
      · obtain ⟨⟨front, back⟩, hrest, hpair⟩ := Option.map_eq_some_iff.mp h
        cases hpair
        obtain ⟨mark, hmark, htext⟩ := ih hrest
        exact ⟨mark, hmark, by rw [htext, List.cons_append]⟩

theorem join_eq_intercalate (separator : Text) (texts : List Text) :
    join separator texts = separator.intercalate texts := by
  induction texts with
  | nil => rfl
  | cons first rest ih =>
      cases rest with
      | nil => simp [join]
      | cons second rest =>
          rw [List.intercalate_cons_cons, ← ih]
          rfl

theorem join_cons {texts : List Text} (h : texts ≠ []) (separator first : Text) :
    join separator (first :: texts) = first ++ separator ++ join separator texts := by
  obtain ⟨second, rest, rfl⟩ := List.exists_cons_of_ne_nil h
  rfl

theorem join_concat {texts : List Text} (h : texts ≠ []) (separator last : Text) :
    join separator (texts ++ [last]) = join separator texts ++ separator ++ last := by
  induction texts with
  | nil => contradiction
  | cons first rest ih =>
      cases rest with
      | nil => rfl
      | cons second rest =>
          have hmore : second :: rest ++ [last] ≠ [] := by simp
          rw [List.cons_append, join_cons hmore, ih (by simp),
            join_cons (List.cons_ne_nil second rest)]
          simp only [List.append_assoc]

theorem join_pieces (mark : Char) (text : Text) : join [mark] (pieces mark text) = text := by
  rw [join_eq_intercalate, pieces_eq_splitOn, List.intercalate_splitOn]

theorem pieces_ne_nil (mark : Char) (text : Text) : pieces mark text ≠ [] := by
  rw [pieces_eq_splitOn]
  exact List.splitOn_ne_nil mark text

theorem isInfix_join {text separator : Text} {texts : List Text} (h : text ∈ texts) :
    text <:+: join separator texts := by
  induction texts with
  | nil => contradiction
  | cons first rest ih =>
      rcases List.mem_cons.mp h with rfl | hrest
      · cases rest with
        | nil => exact List.infix_refl _
        | cons second rest =>
            rw [join_cons (List.cons_ne_nil _ _), List.append_assoc]
            exact (List.prefix_append _ _).isInfix
      · rw [join_cons (List.ne_nil_of_mem hrest)]
        exact (ih hrest).trans (List.suffix_append _ _).isInfix

end ComponentDocs.Text
