import ComponentDocs.Proofs.Text.Trim
import ComponentDocs.Text.Identifier

/-!
# Identifiers and blanks

What the scanners for identifiers and blanks find, in terms of how a text is put together.
-/

namespace ComponentDocs.Text

variable {text : Text} {c : Char}

theorem head?_dropWhile {p : Char → Bool} :
    ∀ c ∈ (text.dropWhile p).head?, p c = false := by
  intro c hc
  have hhead := List.head?_dropWhile_not p text
  rwa [Option.mem_def.mp hc] at hhead

theorem trimStart_eq_iff {rest : Text} :
    trimStart text = rest ↔
      ∃ gap, isBlank gap = true ∧ text = gap ++ rest ∧ ∀ c ∈ rest.head?, isSpace c = false := by
  constructor
  · rintro rfl
    exact ⟨text.takeWhile isSpace, List.all_takeWhile, List.takeWhile_append_dropWhile.symm,
      head?_dropWhile⟩
  · rintro ⟨gap, hgap, rfl, hrest⟩
    rw [trimStart, List.dropWhile_append_of_pos (List.all_eq_true.mp hgap),
      dropWhile_of_head? hrest]

theorem afterBlanks?_eq_some_iff {rest : Text} :
    afterBlanks? text = some rest ↔
      ∃ gap, gap ≠ [] ∧ isBlank gap = true ∧ text = gap ++ rest ∧
        ∀ c ∈ rest.head?, isSpace c = false := by
  constructor
  · intro h
    cases text with
    | nil => contradiction
    | cons c text =>
        rw [afterBlanks?, Option.ite_none_right_eq_some, Option.some.injEq] at h
        obtain ⟨hc, hrest⟩ := h
        obtain ⟨gap, hgap, rfl, hhead⟩ := trimStart_eq_iff.mp hrest
        have hblank : isBlank (c :: gap) = true := by
          rw [isBlank] at hgap ⊢
          rw [List.all_cons, hc, hgap, Bool.true_and]
        exact ⟨c :: gap, List.cons_ne_nil _ _, hblank, rfl, hhead⟩
  · rintro ⟨gap, hne, hgap, rfl, hhead⟩
    obtain ⟨c, gap, rfl⟩ := List.exists_cons_of_ne_nil hne
    rw [isBlank, List.all_cons, Bool.and_eq_true] at hgap
    rw [List.cons_append, afterBlanks?, if_pos hgap.1,
      trimStart_eq_iff.mpr ⟨gap, hgap.2, rfl, hhead⟩]

theorem exists_eq_append_trim (text : Text) :
    ∃ front back, isBlank front = true ∧ isBlank back = true ∧
      text = front ++ (trim text ++ back) := by
  obtain ⟨front, hfront, htext, -⟩ :=
    trimStart_eq_iff.mp (rfl : trimStart text = trimStart text)
  refine ⟨front, ((trimStart text).reverse.takeWhile isSpace).reverse, hfront, ?_, ?_⟩
  · rw [isBlank, List.all_reverse]
    exact List.all_takeWhile
  · rw [trim, trimEnd, dropEndWhile, ← List.reverse_append, List.takeWhile_append_dropWhile,
      List.reverse_reverse]
    exact htext

theorem mem_trim_iff (hc : isSpace c = false) (text : Text) :
    c ∈ trim text ↔ c ∈ text := by
  obtain ⟨front, back, hfront, hback, htext⟩ := exists_eq_append_trim text
  have hnot : ∀ gap, isBlank gap = true → c ∉ gap := by
    intro gap hgap hmem
    rw [List.all_eq_true.mp hgap c hmem] at hc
    contradiction
  conv_rhs => rw [htext]
  simp [hnot front hfront, hnot back hback]

theorem trim_sublist (text : Text) : (trim text).Sublist text := by
  obtain ⟨front, back, -, -, htext⟩ := exists_eq_append_trim text
  conv_rhs => rw [htext]
  exact (List.sublist_append_left _ back).trans (List.sublist_append_right front _)

def isIdentifier (text : Text) : Bool :=
  text.head?.any startsIdentifier && text.tail.all continuesIdentifier

theorem isSpace_of_startsIdentifier (h : startsIdentifier c = true) :
    isSpace c = false := by
  have hall : ∀ code ∈ spaceCodes, startsIdentifier (Char.ofNat code) = false := by decide
  rw [Bool.eq_false_iff]
  intro hspace
  have hc := hall c.toNat (mem_spaceCodes hspace)
  rw [Char.ofNat_toNat, h] at hc
  contradiction

theorem isSpace_of_continuesIdentifier (h : continuesIdentifier c = true) :
    isSpace c = false := by
  rw [Bool.eq_false_iff]
  intro hspace
  rw [continuesIdentifier, isWord_of_isSpace hspace, Bool.false_or, beq_iff_eq] at h
  subst h
  contradiction

theorem continuesIdentifier_of_isSpace (h : isSpace c = true) :
    continuesIdentifier c = false := by
  rw [Bool.eq_false_iff]
  intro hcontinues
  rw [isSpace_of_continuesIdentifier hcontinues] at h
  contradiction

theorem exists_of_isIdentifier (h : isIdentifier text = true) :
    ∃ c rest, text = c :: rest ∧ startsIdentifier c = true ∧
      ∀ d ∈ rest, continuesIdentifier d = true := by
  rw [isIdentifier, Bool.and_eq_true] at h
  cases text with
  | nil => simp at h
  | cons c rest => exact ⟨c, rest, rfl, by simpa using h.1, List.all_eq_true.mp h.2⟩

theorem identifier?_eq_some_iff {name behind : Text} :
    identifier? text = some (name, behind) ↔
      isIdentifier name = true ∧ text = name ++ behind ∧
        ∀ c ∈ behind.head?, continuesIdentifier c = false := by
  constructor
  · intro h
    cases text with
    | nil => contradiction
    | cons c rest =>
        rw [identifier?, Option.ite_none_right_eq_some] at h
        obtain ⟨hc, hrest⟩ := h
        cases hrest
        refine ⟨?_, by rw [List.cons_append, List.takeWhile_append_dropWhile], head?_dropWhile⟩
        rw [isIdentifier, Bool.and_eq_true]
        exact ⟨by simpa using hc, List.all_takeWhile⟩
  · rintro ⟨hname, rfl, hbehind⟩
    obtain ⟨c, rest, rfl, hc, hrest⟩ := exists_of_isIdentifier hname
    rw [List.cons_append, identifier?, if_pos hc, List.takeWhile_append_of_pos hrest,
      List.dropWhile_append_of_pos hrest, takeWhile_of_head? hbehind,
      dropWhile_of_head? hbehind, List.append_nil]

def isNameText : Text → Bool
  | [] => false
  | c :: rest => isNameStart c && rest.all isNamePart

theorem isNameCharacter_of_isNameText {name : Text} (h : isNameText name = true) :
    ∀ c ∈ name, isNameCharacter c = true := by
  cases name with
  | nil => contradiction
  | cons c rest =>
      rw [isNameText, Bool.and_eq_true, List.all_eq_true] at h
      rw [List.forall_mem_cons]
      refine ⟨by rw [isNameCharacter, h.1, Bool.true_or], fun d hd => ?_⟩
      rw [isNameCharacter, h.2 d hd, Bool.or_true]

end ComponentDocs.Text
