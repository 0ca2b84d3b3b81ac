import ComponentDocs.Dictionary
import ComponentDocs.Proofs.Table
import Mathlib.Data.Char
import Mathlib.Data.List.Induction
import Mathlib.Data.List.Lex

/-!
# Laws of dictionaries

A dictionary is sorted by names, and under a name it holds the last value that was put there.
-/

namespace ComponentDocs.Dictionary

open Table (lookup_cons_eq)

variable {α : Type} {name key : Text} {value : α} {entries : List (Text × α)}

def InOrder (entries : List (Text × α)) : Prop :=
  entries.Pairwise fun entry later => entry.1 < later.1

theorem insert_ne_nil : insert name value entries ≠ [] := by
  cases entries with
  | nil => simp [insert]
  | cons entry entries =>
      rw [insert]
      split_ifs <;> simp

theorem mem_insert {entry : Text × α} (h : entry ∈ insert name value entries) :
    entry = (name, value) ∨ entry ∈ entries := by
  induction entries with
  | nil => simpa [insert] using h
  | cons first entries ih =>
      rw [insert] at h
      split_ifs at h
      · simpa using Or.imp_right .inr (List.mem_cons.mp h)
      · simpa using h
      · rcases List.mem_cons.mp h with rfl | hrest
        · exact .inr (List.mem_cons_self ..)
        · exact (ih hrest).imp_right (List.mem_cons_of_mem _)

theorem inOrder_insert (h : InOrder entries) : InOrder (insert name value entries) := by
  induction entries with
  | nil => exact List.pairwise_singleton _ _
  | cons first entries ih =>
      obtain ⟨hfirst, hrest⟩ := List.pairwise_cons.mp h
      rw [insert]
      split_ifs with hsame hbefore
      · obtain rfl : name = first.1 := beq_iff_eq.mp hsame
        exact List.pairwise_cons.mpr ⟨hfirst, hrest⟩
      · refine List.pairwise_cons.mpr ⟨fun later hlater => ?_, h⟩
        rcases List.mem_cons.mp hlater with rfl | hlater
        · exact hbefore
        · exact hbefore.trans (hfirst later hlater)
      · refine List.pairwise_cons.mpr ⟨fun later hlater => ?_, ih hrest⟩
        rcases mem_insert hlater with rfl | hlater
        · have hne : name ≠ first.1 := fun heq => hsame (beq_iff_eq.mpr heq)
          exact lt_of_le_of_ne (not_lt.mp hbefore) hne.symm
        · exact hfirst later hlater

theorem lookup_insert :
    (insert name value entries).lookup key =
      if key = name then some value else entries.lookup key := by
  induction entries with
  | nil => exact lookup_cons_eq (name, value) [] key
  | cons first entries ih =>
      obtain ⟨other, old⟩ := first
      by_cases hsame : name = other
      · subst hsame
        rw [insert, if_pos (beq_self_eq_true name), lookup_cons_eq, lookup_cons_eq]
        split_ifs <;> rfl
      · rw [insert, if_neg (fun h => hsame (beq_iff_eq.mp h)), lookup_cons_eq (other, old)]
        split
        · rw [lookup_cons_eq, lookup_cons_eq]
        · rw [lookup_cons_eq, ih]
          by_cases hkey : key = other
          · subst hkey
            rw [if_pos rfl, if_neg (Ne.symm hsame), if_pos rfl]
          · rw [if_neg hkey, if_neg hkey]

theorem ofList_concat (entries : List (Text × α)) (name : Text) (value : α) :
    ofList (entries ++ [(name, value)]) = insert name value (ofList entries) := by
  rw [ofList, List.foldl_concat]
  rfl

theorem inOrder_ofList (entries : List (Text × α)) : InOrder (ofList entries) := by
  induction entries using List.reverseRecOn with
  | nil => exact .nil
  | append_singleton entries entry ih =>
      rw [ofList_concat]
      exact inOrder_insert ih

theorem lookup_ofList (entries : List (Text × α)) (key : Text) :
    (ofList entries).lookup key = entries.reverse.lookup key := by
  induction entries using List.reverseRecOn with
  | nil => rfl
  | append_singleton entries entry ih =>
      rw [ofList_concat, lookup_insert, ih, List.reverse_concat, lookup_cons_eq]

theorem ofList_eq_nil_iff : ofList entries = [] ↔ entries = [] := by
  induction entries using List.reverseRecOn with
  | nil => exact iff_of_true rfl rfl
  | append_singleton entries entry ih =>
      rw [ofList_concat]
      exact iff_of_false insert_ne_nil (by simp)

theorem insert_last (h : ∀ entry ∈ entries, entry.1 < name) (value : α) :
    insert name value entries = entries ++ [(name, value)] := by
  induction entries with
  | nil => rfl
  | cons entry entries ih =>
      obtain ⟨key, old⟩ := entry
      obtain ⟨hkey, hentries⟩ := List.forall_mem_cons.mp h
      have hne : ¬(name == key) = true := by
        intro heq
        rw [beq_iff_eq.mp heq] at hkey
        exact List.lt_irrefl key hkey
      rw [insert, if_neg hne, if_neg (List.lt_asymm hkey), ih hentries, List.cons_append]

theorem ofList_of_inOrder (h : InOrder entries) : ofList entries = entries := by
  induction entries using List.reverseRecOn with
  | nil => rfl
  | append_singleton entries entry ih =>
      obtain ⟨hentries, -, hlast⟩ := List.pairwise_append.mp h
      rw [ofList_concat, ih hentries]
      refine insert_last (fun other hother => ?_) _
      exact hlast other hother entry (List.mem_singleton.mpr rfl)

theorem nodup_keys_of_inOrder (h : InOrder entries) : (entries.map Prod.fst).Nodup := by
  rw [List.Nodup, List.pairwise_map]
  exact h.imp fun hlt heq => absurd (heq ▸ hlt) (lt_irrefl _)

end ComponentDocs.Dictionary
