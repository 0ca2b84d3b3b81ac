import ComponentDocs.Text.Basic

/-!
# Tidy texts

A tidy text neither starts nor ends with a blank, and its words have one space between
them.  White space is normalised in it already.
-/

namespace ComponentDocs.Text

-- there are finitely many characters, but a text is what should be gone through
instance (priority := high) decidableForallMem (text : Text) (p : Char → Prop)
    [DecidablePred p] : Decidable (∀ c ∈ text, p c) :=
  List.decidableBAll p text

instance (priority := high) decidableForallMemOption (c? : Option Char) (p : Char → Prop)
    [DecidablePred p] : Decidable (∀ c ∈ c?, p c) :=
  Option.decidableForallMem c?

inductive Tidy : Text → Prop
  | single {c : Char} : isSpace c = false → Tidy [c]
  | cons {c : Char} {text : Text} : isSpace c = false → Tidy text → Tidy (c :: text)
  | space {c : Char} {text : Text} : isSpace c = false → Tidy text → Tidy (c :: ' ' :: text)

namespace Tidy

variable {text first second : Text}

theorem of_all (hne : text ≠ []) (h : ∀ c ∈ text, isSpace c = false) : Tidy text := by
  induction text with
  | nil => contradiction
  | cons c text ih =>
      rw [List.forall_mem_cons] at h
      cases text with
      | nil => exact .single h.1
      | cons d text => exact .cons h.1 (ih (by simp) h.2)

theorem append (hfirst : Tidy first) (hsecond : Tidy second) : Tidy (first ++ second) := by
  induction hfirst with
  | single hc => exact .cons hc hsecond
  | cons hc _ ih => exact .cons hc ih
  | space hc _ ih => exact .space hc ih

theorem append_space (hfirst : Tidy first) (hsecond : Tidy second) :
    Tidy (first ++ ' ' :: second) := by
  induction hfirst with
  | single hc => exact .space hc hsecond
  | cons hc _ ih => exact .cons hc ih
  | space hc _ ih => exact .space hc ih

theorem exists_cons (h : Tidy text) : ∃ c rest, text = c :: rest ∧ isSpace c = false := by
  cases h with
  | single hc | cons hc _ | space hc _ => exact ⟨_, _, rfl, hc⟩

theorem exists_concat (h : Tidy text) : ∃ rest c, text = rest ++ [c] ∧ isSpace c = false := by
  induction h with
  | single hc => exact ⟨[], _, rfl, hc⟩
  | @cons c text hc _ ih =>
      obtain ⟨rest, last, rfl, hlast⟩ := ih
      exact ⟨c :: rest, last, rfl, hlast⟩
  | @space c text hc _ ih =>
      obtain ⟨rest, last, rfl, hlast⟩ := ih
      exact ⟨c :: ' ' :: rest, last, rfl, hlast⟩

theorem words_ne_nil (h : Tidy text) : words text ≠ [] := by
  obtain ⟨c, rest, rfl, hc⟩ := h.exists_cons
  rw [words, hc]
  cases atWordEnd rest with
  | true => exact List.cons_ne_nil _ _
  | false => cases words rest <;> exact List.cons_ne_nil _ _

theorem normalize_eq (h : Tidy text) : normalize text = text := by
  have hcons : ∀ c words, words ≠ [] → join " " (consWord c words) = c :: join " " words := by
    intro c words hne
    cases words with
    | nil => contradiction
    | cons word rest => cases rest <;> rfl
  induction h with
  | single hc => simp [normalize, words, hc, atWordEnd, join]
  | @cons c text hc htext ih =>
      obtain ⟨d, rest, rfl, hd⟩ := htext.exists_cons
      rw [normalize, words]
      simp only [hc, atWordEnd, hd, Bool.false_eq_true, ↓reduceIte]
      rw [hcons c _ htext.words_ne_nil]
      exact congrArg (c :: ·) ih
  | @space c text hc htext ih =>
      have hspace : isSpace ' ' = true := by decide
      have hwords : words (' ' :: text) = words text := by rw [words, if_pos hspace]
      rw [normalize, words]
      simp only [hc, atWordEnd, hspace, Bool.false_eq_true, ↓reduceIte, hwords]
      obtain ⟨word, rest, hrest⟩ := List.exists_cons_of_ne_nil htext.words_ne_nil
      rw [normalize, hrest] at ih
      rw [hrest, join, ih]
      · rfl
      · exact List.cons_ne_nil _ _

theorem trim_around (h : Tidy text) (front back : Text) (hfront : front.all isSpace = true)
    (hback : back.all isSpace = true) : trim (front ++ (text ++ back)) = text := by
  obtain ⟨c, rest, hstart, hc⟩ := h.exists_cons
  obtain ⟨init, d, hstop, hd⟩ := h.exists_concat
  have htrimStart : trimStart (front ++ (text ++ back)) = text ++ back := by
    rw [trimStart, List.dropWhile_append_of_pos (List.all_eq_true.mp hfront), hstart]
    simp [hc]
  have hreverse : ∀ c ∈ back.reverse, isSpace c = true := by simpa using hback
  rw [trim, htrimStart, trimEnd, dropEndWhile, List.reverse_append,
    List.dropWhile_append_of_pos hreverse, hstop]
  simp [hd]

theorem trim_eq (h : Tidy text) : trim text = text := by
  simpa using h.trim_around [] [] rfl rfl

theorem trim_space (h : Tidy text) : trim (' ' :: text) = text := by
  simpa using h.trim_around [' '] [] rfl rfl

end Tidy

end ComponentDocs.Text
