import ComponentDocs.Proofs.Component.Dispatch
import ComponentDocs.Proofs.Fallback.Nesting
import ComponentDocs.Proofs.Props.Text

/-!
# Texts in which nothing is taken apart

A pattern takes apart the properties only if the function that gives them stands behind an
equals sign.  Without such an assignment, no pattern of a text counts.
-/

namespace ComponentDocs.Fallback

open ComponentDocs.Component

def assigns (function : Text) : Text → Bool
  | [] => false
  | c :: rest =>
      (c == '=' && function.isPrefixOf (Text.trimStart rest)) || assigns function rest

variable {function : Text}

variable {text behind : Text} {c : Char}

theorem assigns_of_append {front : Text} (h : assigns function (front ++ text) = false) :
    assigns function text = false := by
  induction front with
  | nil => exact h
  | cons c front ih =>
      rw [List.cons_append, assigns, Bool.or_eq_false_iff] at h
      exact ih h.2

theorem assigns_of_suffix {front : Text} (hsuffix : text <:+ front)
    (h : assigns function front = false) : assigns function text = false := by
  obtain ⟨start, rfl⟩ := hsuffix
  exact assigns_of_append h

theorem suffix_of_mem_patternStarts {previous : Option Char} {skip : Nat}
    (h : behind ∈ patternStarts previous skip text) : behind <:+ text := by
  fun_induction patternStarts previous skip text with
  | case1 => contradiction
  | case2 _ skip c rest ih => exact (ih h).trans (List.suffix_cons c rest)
  | case3 previous c rest found hfound ih =>
      rcases List.mem_cons.mp h with rfl | hrest
      · rw [Option.ite_none_right_eq_some] at hfound
        obtain ⟨front, hfront, -, -⟩ := Props.exists_of_patternAt? hfound.2
        exact ⟨front ++ ['\x7b'], by simp [hfront]⟩
      · exact (ih hrest).trans (List.suffix_cons c rest)
  | case4 previous c rest _ ih => exact (ih h).trans (List.suffix_cons c rest)

theorem exists_of_consInside {found : Option (Text × Text)} {inside : Text}
    (h : blockFrom.consInside c found = some (inside, behind)) :
    ∃ inner, found = some (inner, behind) := by
  rw [consInside_eq_map, Option.map_eq_some_iff] at h
  obtain ⟨⟨inner, after⟩, hfound, heq⟩ := h
  cases heq
  exact ⟨inner, hfound⟩

theorem suffix_of_blockFrom {place : BlockPlace} {depth : Nat} {inside : Text}
    (h : blockFrom place depth text = some (inside, behind)) : behind <:+ text := by
  have hcons : ∀ (c : Char) {rest : Text} {found : Option (Text × Text)} {inside : Text},
      (∀ {inner}, found = some (inner, behind) → behind <:+ rest) →
        blockFrom.consInside c found = some (inside, behind) → behind <:+ c :: rest := by
    intro c rest found inside ih h
    obtain ⟨inner, hinner⟩ := exists_of_consInside h
    exact (ih hinner).trans (List.suffix_cons c rest)
  fun_induction blockFrom place depth text generalizing inside with
  | case1 => contradiction
  | case8 =>
      cases h
      exact List.suffix_cons _ _
  | _ =>
      -- everywhere else the character stands inside the block
      rename_i ih
      exact hcons _ ih h

theorem mem_cuts {p : Char → Bool} {before : Text}
    (h : (before, behind) ∈ Text.cuts p text) : text = before ++ behind ∧ before.all p = true := by
  induction text generalizing before with
  | nil =>
      cases List.mem_singleton.mp h
      exact ⟨rfl, rfl⟩
  | cons c text ih =>
      rw [Text.cuts, List.mem_cons] at h
      rcases h with h | h
      · cases h
        exact ⟨rfl, rfl⟩
      · split at h
        · next hc =>
            obtain ⟨⟨before, behind⟩, hmem, heq⟩ := List.mem_map.mp h
            cases heq
            obtain ⟨rfl, hall⟩ := ih hmem
            exact ⟨rfl, by simp [hc, hall]⟩
        · contradiction

theorem suffix_of_afterDeclaredType? (h : afterDeclaredType? text = some behind) :
    '=' :: behind <:+ text := by
  have hstart : Text.trimStart text <:+ text := List.dropWhile_suffix _
  refine List.IsSuffix.trans ?_ hstart
  unfold afterDeclaredType? at h
  split at h
  · next rest hrest =>
      obtain ⟨⟨type, after⟩, hcut, hafter⟩ := Option.bind_eq_some_iff.mp h
      obtain ⟨heq, -⟩ := Text.until?_eq_some_iff.mp hcut
      dsimp only at hafter
      rw [Option.ite_none_left_eq_some] at hafter
      cases hafter.2
      exact ⟨':' :: type, by rw [hrest, heq, List.cons_append]⟩
  · next rest hrest =>
      cases h
      rw [hrest]
  · contradiction

theorem takesResult_eq_false {function : Text} (hc : Text.isSpace c = false)
    (h : assigns (c :: function) text = false) :
    takesResult (c :: function) text = false := by
  unfold takesResult
  split
  · rfl
  · next behind hbehind =>
      have hrest := assigns_of_suffix (suffix_of_afterDeclaredType? hbehind) h
      rw [assigns, Bool.or_eq_false_iff, beq_self_eq_true, Bool.true_and] at hrest
      rw [List.any_eq_false]
      rintro ⟨blanks, called⟩ hcut
      obtain ⟨rfl, hblanks⟩ := mem_cuts (List.mem_reverse.mp hcut)
      have hafter : Text.after? (c :: function) called = none := by
        rw [Option.eq_none_iff_forall_ne_some]
        intro after hafter
        rw [Text.after?_eq_some_iff] at hafter
        have htrim : Text.trimStart (blanks ++ called) = c :: (function ++ after) :=
          (Text.trimStart_eq_cons_iff hc).mpr ⟨blanks, hblanks, by rw [hafter]; rfl⟩
        have hstart : (c :: function).isPrefixOf (c :: (function ++ after)) = true :=
          List.isPrefixOf_iff_prefix.mpr ⟨after, rfl⟩
        rw [htrim, hstart] at hrest
        simp at hrest
      simp [hafter]

theorem destructuredTexts_eq_nil {function : Text} (hc : Text.isSpace c = false) {source : Text}
    (h : assigns (c :: function) source = false) :
    destructuredTexts (c :: function) source = [] := by
  rw [destructuredTexts, List.filterMap_eq_nil_iff]
  intro behind hbehind
  rw [Option.bind_eq_none_iff]
  rintro ⟨content, after⟩ hblock
  have hsuffix := (suffix_of_blockFrom hblock).trans (suffix_of_mem_patternStarts hbehind)
  simp [takesResult_eq_false hc (assigns_of_suffix hsuffix h)]

end ComponentDocs.Fallback
