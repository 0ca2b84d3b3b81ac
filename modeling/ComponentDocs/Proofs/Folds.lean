import Mathlib.Data.List.Basic

/-!
# What a fold does to a part of its state

A part that no step changes stays as it is, and a part that each step extends is extended by all
that was found, in order.
-/

namespace ComponentDocs

variable {σ α β : Type} {add : σ → α → σ}

theorem view_foldl (view : σ → β) (h : ∀ state value, view (add state value) = view state)
    (values : List α) (state : σ) : view (values.foldl add state) = view state := by
  induction values generalizing state with
  | nil => rfl
  | cons value values ih => rw [List.foldl_cons, ih, h]

theorem view_foldl_append (view : σ → List β) {found : α → List β}
    (h : ∀ state value, view (add state value) = view state ++ found value)
    (values : List α) (state : σ) :
    view (values.foldl add state) = view state ++ values.flatMap found := by
  induction values generalizing state with
  | nil => simp
  | cons value values ih =>
      rw [List.foldl_cons, ih, h, List.flatMap_cons, List.append_assoc]

end ComponentDocs
