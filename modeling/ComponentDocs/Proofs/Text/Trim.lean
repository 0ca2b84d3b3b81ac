import ComponentDocs.Proofs.Text.Scan
import ComponentDocs.Proofs.Text.Tidy
import Mathlib.Data.List.TakeWhile

/-!
# Trimmed and normalised texts

Blanks around a text do not show behind a trim.  A text that normalisation leaves as it is
is tidy, and a tidy text has no white space but single spaces.
-/

namespace ComponentDocs.Text

theorem isBlank_append (front back : Text) :
    isBlank (front ++ back) = (isBlank front && isBlank back) :=
  List.all_append

theorem trimEnd_append {back : Text} (h : isBlank back = true) (text : Text) :
    trimEnd (text ++ back) = trimEnd text := by
  have hreverse : ∀ c ∈ back.reverse, isSpace c = true := by
    simpa [isBlank] using h
  rw [trimEnd, dropEndWhile, List.reverse_append, List.dropWhile_append_of_pos hreverse]
  rfl

theorem trimEnd_eq_nil {text : Text} (h : isBlank text = true) : trimEnd text = [] :=
  trimEnd_append h []

theorem trimStart_eq_nil {text : Text} (h : isBlank text = true) : trimStart text = [] := by
  rw [trimStart, List.dropWhile_eq_nil_iff]
  simpa [isBlank] using h

theorem trim_around (front text back : Text) (hfront : isBlank front = true)
    (hback : isBlank back = true) : trim (front ++ (text ++ back)) = trim text := by
  have hstart : trimStart (front ++ (text ++ back)) = trimStart (text ++ back) :=
    List.dropWhile_append_of_pos (List.all_eq_true.mp hfront)
  rw [trim, trim, hstart, trimStart, List.dropWhile_append]
  split
  · next hempty =>
      have hnil : trimStart back = [] := trimStart_eq_nil hback
      rw [trimStart] at hnil
      rw [hnil, trimStart, List.isEmpty_iff.mp hempty]
  · exact trimEnd_append hback _

theorem head?_of_dropWhile {p : Char → Bool} {text : Text} (h : text.dropWhile p = text) :
    ∀ c ∈ text.head?, p c = false := by
  intro c hc
  cases text with
  | nil => cases hc
  | cons d text =>
      cases hc
      exact Bool.eq_false_iff.mpr (List.dropWhile_eq_self_iff.mp h (Nat.succ_pos _))

theorem getLast?_of_trimEnd {text : Text} (h : trimEnd text = text) :
    ∀ c ∈ text.getLast?, isSpace c = false := by
  have hreverse : text.reverse.dropWhile isSpace = text.reverse := by
    rwa [trimEnd, dropEndWhile, List.reverse_eq_iff] at h
  rw [← List.head?_reverse]
  exact head?_of_dropWhile hreverse

theorem trim_eq_self_iff {text : Text} :
    trim text = text ↔ (∀ c ∈ text.head?, isSpace c = false) ∧
      ∀ c ∈ text.getLast?, isSpace c = false := by
  constructor
  · intro h
    have hshort : (trim text).length ≤ (trimStart text).length := by
      rw [trim, trimEnd, dropEndWhile, List.length_reverse]
      simpa using (List.dropWhile_sublist isSpace (l := (trimStart text).reverse)).length_le
    have hstart : trimStart text = text :=
      (List.dropWhile_suffix isSpace).sublist.eq_of_length_le (by rwa [h] at hshort)
    have hend : trimEnd text = text := by rwa [trim, hstart] at h
    exact ⟨head?_of_dropWhile hstart, getLast?_of_trimEnd hend⟩
  · rintro ⟨hhead, hlast⟩
    rw [trim, trimStart, dropWhile_of_head? hhead, trimEnd, dropEndWhile_of_getLast? hlast]

def spaceCodes : List Nat :=
  [0x9, 0xa, 0xb, 0xc, 0xd, 0x20, 0x85, 0xa0, 0x1680, 0x2000, 0x2001, 0x2002, 0x2003, 0x2004,
    0x2005, 0x2006, 0x2007, 0x2008, 0x2009, 0x200a, 0x2028, 0x2029, 0x202f, 0x205f, 0x3000]

theorem mem_spaceCodes {c : Char} (h : isSpace c = true) : c.toNat ∈ spaceCodes := by
  simp only [isSpace, Bool.or_eq_true, Bool.and_eq_true, decide_eq_true_eq, beq_iff_eq] at h
  simp only [spaceCodes, List.mem_cons, List.not_mem_nil, or_false]
  omega

theorem isWord_of_isSpace {c : Char} (h : isSpace c = true) : isWord c = false := by
  have hall : ∀ code ∈ spaceCodes, isWord (Char.ofNat code) = false := by decide +kernel
  have hc := hall c.toNat (mem_spaceCodes h)
  rwa [Char.ofNat_toNat] at hc

def IsWord (word : Text) : Prop :=
  word ≠ [] ∧ ∀ c ∈ word, isSpace c = false

theorem isWord_of_mem_words {text word : Text} (h : word ∈ words text) : IsWord word := by
  induction text generalizing word with
  | nil => cases h
  | cons c text ih =>
      rw [words] at h
      split at h
      · exact ih h
      · next hc =>
          rw [Bool.not_eq_true] at hc
          split at h
          · rcases List.mem_cons.mp h with rfl | hword
            · exact ⟨by simp, by simpa using hc⟩
            · exact ih hword
          · cases hwords : words text with
            | nil =>
                rw [hwords, consWord, List.mem_singleton] at h
                subst h
                exact ⟨by simp, by simpa using hc⟩
            | cons first rest =>
                rw [hwords] at ih
                rw [hwords, consWord, List.mem_cons] at h
                rcases h with rfl | hword
                · have hfirst := ih (List.mem_cons_self ..)
                  exact ⟨by simp, by simpa [hc] using hfirst.2⟩
                · exact ih (List.mem_cons_of_mem _ hword)

theorem tidy_join {words : List Text} (hne : words ≠ []) (h : ∀ word ∈ words, IsWord word) :
    Tidy (join " " words) := by
  induction words with
  | nil => contradiction
  | cons word words ih =>
      rw [List.forall_mem_cons] at h
      have hword : Tidy word := .of_all h.1.1 h.1.2
      cases words with
      | nil => exact hword
      | cons next words => simpa [join] using hword.append_space (ih (by simp) h.2)

theorem tidy_of_normalize {text : Text} (h : normalize text = text) (hne : text ≠ []) :
    Tidy text := by
  rw [← h]
  refine tidy_join (fun hwords => hne ?_) fun word => isWord_of_mem_words
  rw [← h, normalize, hwords]
  rfl

namespace Tidy

variable {text : Text}

theorem isSpace_or (h : Tidy text) {c : Char} (hc : c ∈ text) : isSpace c = false ∨ c = ' ' := by
  induction h with
  | single hfirst =>
      obtain rfl := List.mem_singleton.mp hc
      exact .inl hfirst
  | cons hfirst _ ih =>
      rcases List.mem_cons.mp hc with rfl | hc
      · exact .inl hfirst
      · exact ih hc
  | space hfirst _ ih =>
      rcases List.mem_cons.mp hc with rfl | hc
      · exact .inl hfirst
      · rcases List.mem_cons.mp hc with rfl | hc
        · exact .inr rfl
        · exact ih hc

theorem not_mem_newline (h : Tidy text) : '\n' ∉ text := by
  intro hc
  rcases h.isSpace_or hc with hspace | hspace <;> exact absurd hspace (by decide)

end Tidy

end ComponentDocs.Text
