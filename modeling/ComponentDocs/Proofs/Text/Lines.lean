import ComponentDocs.Proofs.Text.Identifiers

/-!
# Lines

Lines that are joined by line breaks are the lines of the joined text, up to the carriage
returns at their ends and an empty last line.
-/

namespace ComponentDocs.Text

theorem join_cons_append (separator front first : Text) (others : List Text) :
    join separator ((front ++ first) :: others) = front ++ join separator (first :: others) := by
  cases others with
  | nil => rfl
  | cons next others => simp [join]

theorem join_cons_eq (separator first : Text) (others : List Text) :
    join separator (first :: others) = first ++ join separator ([] :: others) := by
  rw [← join_cons_append, List.append_nil]

theorem dropReturn_cases (line : Text) :
    dropReturn line = line ∨ line = dropReturn line ++ ['\r'] := by
  unfold dropReturn
  split
  · next rest hreverse => exact .inr (by simpa using congrArg List.reverse hreverse)
  · exact .inl rfl

theorem trimEnd_dropReturn (line : Text) : trimEnd (dropReturn line) = trimEnd line := by
  rcases dropReturn_cases line with hsame | hreturn
  · rw [hsame]
  · conv_rhs => rw [hreturn]
    exact (trimEnd_append rfl _).symm

theorem trim_dropReturn (line : Text) : trim (dropReturn line) = trim line := by
  rcases dropReturn_cases line with hsame | hreturn
  · rw [hsame]
  · have hblank : isBlank ['\r'] = true := rfl
    conv_rhs => rw [hreturn]
    exact (trim_around [] _ _ rfl hblank).symm

theorem linesFrom_break (current : Text) {line : Text} (h : '\n' ∉ line) (rest : Text) :
    linesFrom current (line ++ '\n' :: rest) =
      dropReturn (current.reverse ++ line) :: linesFrom [] rest := by
  induction line generalizing current with
  | nil => simp [linesFrom]
  | cons c line ih =>
      rw [List.mem_cons, not_or] at h
      have hc : (c == '\n') = false := beq_false_of_ne (Ne.symm h.1)
      rw [List.cons_append, linesFrom, hc, if_neg Bool.false_ne_true, ih _ h.2]
      simp

theorem linesFrom_last (current : Text) {line : Text} (h : '\n' ∉ line) :
    linesFrom current line =
      if (current.reverse ++ line).isEmpty then [] else [current.reverse ++ line] := by
  induction line generalizing current with
  | nil => simp [linesFrom]
  | cons c line ih =>
      rw [List.mem_cons, not_or] at h
      have hc : (c == '\n') = false := beq_false_of_ne (Ne.symm h.1)
      rw [linesFrom, hc, if_neg Bool.false_ne_true, ih _ h.2]
      simp

theorem lines_join_concat (front : List Text) (last : Text)
    (h : ∀ line ∈ front ++ [last], '\n' ∉ line) :
    lines (join "\n" (front ++ [last])) =
      front.map dropReturn ++ if last.isEmpty then [] else [last] := by
  induction front with
  | nil => exact linesFrom_last [] (h last (by simp))
  | cons line front ih =>
      rw [List.cons_append, List.forall_mem_cons] at h
      have hjoin : join "\n" (line :: (front ++ [last])) =
          line ++ '\n' :: join "\n" (front ++ [last]) := by
        cases front <;> simp [join]
      rw [List.cons_append, hjoin, lines, linesFrom_break [] h.1]
      exact congrArg (dropReturn line :: ·) (ih h.2)

end ComponentDocs.Text
