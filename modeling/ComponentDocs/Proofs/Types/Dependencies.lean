import ComponentDocs.Types.Dependencies
import Mathlib.Data.List.Infix
import Mathlib.Data.List.Nodup

/-!
# Dependency names

The names that a text refers to are parts of the text, each listed once.
-/

namespace ComponentDocs

theorem Text.mem_firstOccurrences {text : Text} {texts : List Text} :
    text ∈ Text.firstOccurrences texts ↔ text ∈ texts := by
  induction texts with
  | nil => rfl
  | cons first rest ih =>
      rw [firstOccurrences, List.mem_cons, List.mem_cons, List.mem_filter, ih]
      by_cases h : text = first
      · simp [h]
      · simp [h]

theorem Text.nodup_firstOccurrences (texts : List Text) :
    (Text.firstOccurrences texts).Nodup := by
  induction texts with
  | nil => exact List.nodup_nil
  | cons first rest ih =>
      rw [firstOccurrences, List.nodup_cons]
      exact ⟨by simp, ih.filter _⟩

namespace Types

theorem nodup_dependencyNames (text exclude : Text) : (dependencyNames text exclude).Nodup :=
  Text.nodup_firstOccurrences _

/-- The runs of what is left of a text are parts of the text, and a run at its start is
the start of the text. -/
def RunsWithin (text left : Text) : Prop :=
  (∀ run ∈ wordRuns left, run <:+: text) ∧
    (endsRun left = false → ∃ run more, wordRuns left = run :: more ∧ run <+: text)

theorem RunsWithin.cons {text left : Text} (c : Char) (h : RunsWithin text left) :
    RunsWithin (c :: text) (c :: left) := by
  obtain ⟨hruns, hstart⟩ := h
  have htext : text <:+: c :: text := (List.suffix_cons c text).isInfix
  cases hword : Text.isWord c with
  | false =>
      refine ⟨fun run hrun => ?_, by simp [endsRun, hword]⟩
      simp only [wordRuns, hword, Bool.not_false, ↓reduceIte] at hrun
      exact (hruns run hrun).trans htext
  | true =>
      cases hends : endsRun left with
      | true =>
          have hleft : wordRuns (c :: left) = [c] :: wordRuns left := by
            simp [wordRuns, hword, hends]
          have hsingle : [c] <+: c :: text := by simp
          rw [RunsWithin, hleft]
          refine ⟨fun run hrun => ?_, fun _ => ⟨[c], _, rfl, hsingle⟩⟩
          rcases List.mem_cons.mp hrun with rfl | hrun
          · exact hsingle.isInfix
          · exact (hruns run hrun).trans htext
      | false =>
          obtain ⟨first, more, hfirst, hprefix⟩ := hstart hends
          have hleft : wordRuns (c :: left) = (c :: first) :: more := by
            simp [wordRuns, hword, hends, hfirst, Text.consWord]
          have hlonger : c :: first <+: c :: text := (List.prefix_cons_inj c).mpr hprefix
          rw [RunsWithin, hleft]
          refine ⟨fun run hrun => ?_, fun _ => ⟨c :: first, more, rfl, hlonger⟩⟩
          rcases List.mem_cons.mp hrun with rfl | hrun
          · exact hlonger.isInfix
          · exact (hruns run (by simp [hfirst, hrun])).trans htext

theorem runsWithin_blankNoise (skip : Nat) (text : Text) :
    (∀ run ∈ wordRuns (blankNoise skip text), run <:+: text) ∧
      (skip = 0 → RunsWithin text (blankNoise skip text)) := by
  fun_induction blankNoise skip text with
  | case1 skip => simp [RunsWithin, wordRuns, endsRun]
  | case2 skip c rest ih =>
      refine ⟨fun run hrun => ?_, by simp⟩
      exact (ih.1 run hrun).trans (List.suffix_cons c rest).isInfix
  | case3 c rest length hnoise ih =>
      have hspace : Text.isWord ' ' = false := by decide
      have hruns : ∀ run ∈ wordRuns (' ' :: blankNoise (length - 1) rest), run <:+: c :: rest := by
        intro run hrun
        simp only [wordRuns, hspace, Bool.not_false, ↓reduceIte] at hrun
        exact (ih.1 run hrun).trans (List.suffix_cons c rest).isInfix
      exact ⟨hruns, fun _ => ⟨hruns, by simp [endsRun, hspace]⟩⟩
  | case4 c rest hnoise ih =>
      have hwithin := (ih.2 rfl).cons c
      exact ⟨hwithin.1, fun _ => hwithin⟩

theorem isInfix_of_mem_dependencyNames {text exclude name : Text}
    (h : name ∈ dependencyNames text exclude) : name <:+: text := by
  rw [dependencyNames, Text.mem_firstOccurrences, List.mem_filter] at h
  exact (runsWithin_blankNoise 0 text).1 name h.1

end Types

end ComponentDocs
