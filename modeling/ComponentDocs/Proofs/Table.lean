import ComponentDocs.Table
import Mathlib.Data.List.Basic

/-!
# Laws of tables

Putting a value under a key changes what is found there and nowhere else.
-/

namespace ComponentDocs.Table

variable {κ α : Type} [DecidableEq κ]

section Lookup

variable [BEq κ] [LawfulBEq κ] {entries : List (κ × α)} {key : κ} {value : α}

theorem lookup_cons_eq (entry : κ × α) (rest : List (κ × α)) (key : κ) :
    (entry :: rest).lookup key = if key = entry.1 then some entry.2 else rest.lookup key := by
  obtain ⟨name, value⟩ := entry
  by_cases h : key = name
  · simp [h]
  · have hkey : (key == name) = false := beq_false_of_ne h
    simp [List.lookup_cons, hkey, h]

omit [DecidableEq κ] in
theorem mem_of_lookup (h : entries.lookup key = some value) : (key, value) ∈ entries := by
  obtain ⟨before, after, rfl, -⟩ := List.lookup_eq_some_iff.mp h
  simp

theorem lookup_eq_some_iff_mem (hkeys : (entries.map Prod.fst).Nodup) :
    entries.lookup key = some value ↔ (key, value) ∈ entries := by
  refine ⟨mem_of_lookup, fun h => ?_⟩
  induction entries with
  | nil => contradiction
  | cons entry entries ih =>
      rw [List.map_cons, List.nodup_cons] at hkeys
      rw [lookup_cons_eq]
      rcases List.mem_cons.mp h with rfl | hlater
      · exact if_pos rfl
      · have hne : key ≠ entry.1 := fun hkey =>
          hkeys.1 (List.mem_map.mpr ⟨(key, value), hlater, hkey⟩)
        rw [if_neg hne]
        exact ih hkeys.2 hlater

end Lookup

private theorem lookup_insertEntry (key other : κ) (value : α) (entries : List (κ × α)) :
    (insertEntry key value entries).lookup other =
      if other = key then some value else entries.lookup other := by
  induction entries with
  | nil => exact lookup_cons_eq (key, value) [] other
  | cons entry rest ih =>
      obtain ⟨first, old⟩ := entry
      simp only [insertEntry]
      by_cases hfirst : first = key
      · subst hfirst
        simp only [↓reduceIte, lookup_cons_eq]
        split <;> rfl
      · simp only [if_neg hfirst, lookup_cons_eq, ih]
        by_cases h : other = first
        · subst h
          simp [hfirst]
        · simp [h]

theorem find?_insert (table : Table κ α) (key other : κ) (value : α) :
    (table.insert key value).find? other =
      if other = key then some value else table.find? other :=
  lookup_insertEntry key other value table.entries

theorem find?_insertNew (table : Table κ α) (key other : κ) (value : α) :
    (table.insertNew key value).find? other =
      if other = key then some ((table.find? key).getD value) else table.find? other := by
  unfold insertNew contains
  by_cases h : other = key
  · subst h
    cases hfind : table.find? other <;> simp [hfind, find?_insert]
  · cases hfind : table.find? key <;> simp [h, find?_insert]

theorem mem_entries_of_find? {table : Table κ α} {key : κ} {value : α}
    (h : table.find? key = some value) : (key, value) ∈ table.entries :=
  mem_of_lookup h

def keys (table : Table κ α) : List κ :=
  table.entries.map Prod.fst

theorem mem_keys_iff {table : Table κ α} {key : κ} :
    key ∈ table.keys ↔ (table.find? key).isSome = true := by
  cases hfind : table.find? key with
  | some value => simpa [keys] using ⟨value, mem_entries_of_find? hfind⟩
  | none =>
      simp only [Option.isSome_none, Bool.false_eq_true, iff_false]
      intro hmem
      obtain ⟨entry, hentry, rfl⟩ := List.mem_map.mp hmem
      have hother := List.lookup_eq_none_iff.mp hfind entry hentry
      simp at hother

private theorem map_fst_insertEntry (key : κ) (value : α) (entries : List (κ × α)) :
    (insertEntry key value entries).map Prod.fst =
      if key ∈ entries.map Prod.fst then entries.map Prod.fst
      else entries.map Prod.fst ++ [key] := by
  induction entries with
  | nil => rfl
  | cons entry rest ih =>
      obtain ⟨first, old⟩ := entry
      by_cases hfirst : first = key
      · simp [insertEntry, hfirst]
      · simp only [insertEntry, if_neg hfirst, List.map_cons, ih, List.mem_cons, Ne.symm hfirst,
          false_or]
        split <;> rfl

theorem nodup_keys_insert {table : Table κ α} (h : table.keys.Nodup) (key : κ) (value : α) :
    (table.insert key value).keys.Nodup := by
  rw [keys, insert, map_fst_insertEntry]
  split
  · exact h
  · next hnew =>
      refine List.nodup_append.mpr ⟨h, by simp, ?_⟩
      rintro other hother _ hkey rfl
      exact hnew (List.mem_singleton.mp hkey ▸ hother)

end ComponentDocs.Table
