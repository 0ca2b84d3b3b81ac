import ComponentDocs.Text.Scan
import Mathlib.Data.List.Infix

/-!
# Scanning texts

What scanners give where the text has nothing for them.
-/

namespace ComponentDocs.Text

variable {p : Char → Bool} {text start : Text} {c : Char}

theorem dropWhile_of_head? (h : ∀ c ∈ text.head?, p c = false) :
    text.dropWhile p = text := by
  cases text with
  | nil => rfl
  | cons c text => simp [h c rfl]

theorem takeWhile_of_head? (h : ∀ c ∈ text.head?, p c = false) :
    text.takeWhile p = [] := by
  cases text with
  | nil => rfl
  | cons c text => simp [h c rfl]

theorem dropWhile_append_of_head? {tail : Text} (h : ∀ c ∈ tail.head?, p c = false) (front : Text) :
    (front ++ tail).dropWhile p = front.dropWhile p ++ tail := by
  rw [List.dropWhile_append]
  split
  · next hempty => rw [List.isEmpty_iff.mp hempty, dropWhile_of_head? h, List.nil_append]
  · rfl

theorem dropEndWhile_of_getLast? (h : ∀ c ∈ text.getLast?, p c = false) :
    dropEndWhile p text = text := by
  rw [dropEndWhile, dropWhile_of_head? (by simpa using h), List.reverse_reverse]

theorem after?_eq_some_iff {behind : Text} :
    after? start text = some behind ↔ text = start ++ behind := by
  rw [after?]
  split
  · next h =>
      obtain ⟨rest, rfl⟩ := List.isPrefixOf_iff_prefix.mp h
      simp
  · next h =>
      simp only [reduceCtorEq, false_iff]
      rintro rfl
      exact h (List.isPrefixOf_iff_prefix.mpr (List.prefix_append _ _))

theorem isPrefixOf_eq_false (hc : c ∈ start) (h : c ∉ text) :
    start.isPrefixOf text = false := by
  rw [Bool.eq_false_iff]
  intro hstart
  exact h ((List.isPrefixOf_iff_prefix.mp hstart).subset hc)

theorem after?_eq_none (hc : c ∈ start) (h : c ∉ text) :
    after? start text = none := by
  rw [after?, isPrefixOf_eq_false hc h]
  rfl

theorem cut?_eq_none {mark : Text} (hc : c ∈ mark) (h : c ∉ text) :
    cut? mark text = none := by
  have hne : mark.isEmpty = false := by
    cases mark with
    | nil => contradiction
    | cons => rfl
  induction text with
  | nil => simp [cut?, hne]
  | cons d text ih =>
      simp [cut?, isPrefixOf_eq_false hc h, ih (List.not_mem_of_not_mem_cons h)]

theorem cutAt?_append {before : Text} {mark : Char} (hbefore : ∀ c ∈ before, p c = false)
    (hmark : p mark = true) (behind : Text) :
    cutAt? p (before ++ mark :: behind) = some (before, behind) := by
  induction before with
  | nil => simp [cutAt?, hmark]
  | cons c before ih =>
      rw [List.forall_mem_cons] at hbefore
      simp [cutAt?, hbefore.1, ih hbefore.2]

theorem cutAt?_mark {mark : Char} {before : Text} (h : mark ∉ before) (behind : Text) :
    cutAt? (· == mark) (before ++ mark :: behind) = some (before, behind) := by
  have hbefore : ∀ c ∈ before, (c == mark) = false := by
    intro c hc
    exact beq_false_of_ne fun heq => h (heq ▸ hc)
  exact cutAt?_append (p := (· == mark)) hbefore (beq_self_eq_true mark) behind

end ComponentDocs.Text
