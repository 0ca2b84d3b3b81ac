import ComponentDocs.Proofs.Component.Contributions
import ComponentDocs.Proofs.Component.Tags
import ComponentDocs.Proofs.Dictionary

/-!
# The slots of a template

A slot is listed once, where its name occurs first: in the slot tags, then in the tags that
render snippets.  Its attributes are those of the first slot tag of its name that has some.
-/

namespace ComponentDocs.Component

open Dictionary (InOrder)
open Table (lookup_cons_eq)

def givenName (found : List (Text × Text)) : Text :=
  (found.reverse.lookup "name".toList).getD "default"

def hasOthers (found : List (Text × Text)) : Bool :=
  found.any fun entry => entry.1 != "name".toList

/-- The attributes of a tag without its name, sorted.  Of several with one name the last one
counts. -/
structure AreOthers (found entries : List (Text × Text)) : Prop where
  inOrder : InOrder entries
  lookup : ∀ key, entries.lookup key =
    if key = "name".toList then none else found.reverse.lookup key

theorem lookup_filter (p : Text → Bool) (key : Text) (found : List (Text × Text)) :
    (found.filter fun entry => p entry.1).lookup key =
      if p key then found.lookup key else none := by
  induction found with
  | nil => simp
  | cons entry found ih =>
      rw [List.filter_cons, lookup_cons_eq]
      by_cases hkey : key = entry.1
      · subst hkey
        cases hp : p entry.1 with
        | true => simp [lookup_cons_eq]
        | false => simpa [hp] using ih
      · rw [if_neg hkey, ← ih]
        cases hp : p entry.1 with
        | true => rw [if_pos rfl, lookup_cons_eq, if_neg hkey]
        | false => rfl

theorem getLast?_filter_key (key : Text) (found : List (Text × Text)) :
    (found.filter fun entry => entry.1 == key).getLast?.map Prod.snd =
      found.reverse.lookup key := by
  induction found using List.reverseRecOn with
  | nil => rfl
  | append_singleton found entry ih =>
      rw [List.filter_append, List.reverse_concat, lookup_cons_eq, ← ih]
      by_cases hkey : key = entry.1
      · simp [hkey]
      · simp [hkey, Ne.symm hkey]

theorem name_ofAttributes (found : List (Text × Text)) :
    (Slot.ofAttributes found).name = givenName found :=
  congrArg (Option.getD · _) (getLast?_filter_key "name".toList found)

theorem areOthers_ofList (found : List (Text × Text)) :
    AreOthers found (Dictionary.ofList (found.filter fun entry => entry.1 != "name".toList)) where
  inOrder := Dictionary.inOrder_ofList _
  lookup key := by
    rw [Dictionary.lookup_ofList, ← List.filter_reverse, lookup_filter (· != "name".toList)]
    by_cases hkey : key = "name".toList <;> simp [hkey]

theorem attributes_ofAttributes (found : List (Text × Text)) :
    Option.Rel AreOthers (if hasOthers found then some found else none)
      (Slot.ofAttributes found).attributes := by
  have hempty : (Dictionary.ofList (found.filter fun entry => entry.1 != "name".toList)).isEmpty =
      !hasOthers found := by
    rw [Bool.eq_iff_iff, List.isEmpty_iff, Dictionary.ofList_eq_nil_iff, hasOthers]
    simp
  have hattributes : (Slot.ofAttributes found).attributes =
      if !hasOthers found then none
      else some (Dictionary.ofList (found.filter fun entry => entry.1 != "name".toList)) := by
    rw [← hempty]
    rfl
  rw [hattributes]
  cases hasOthers found with
  | true => exact .some (areOthers_ofList found)
  | false => exact .none

def supplied (slots : List Slot) (name : Text) : Option (List (Text × Text)) :=
  slots.findSome? fun slot => if slot.name = name then slot.attributes else none

def collected (slots : List Slot) (name : Text) : Slot :=
  { name, attributes := supplied slots name }

@[simp] theorem name_collected (slots : List Slot) (name : Text) :
    (collected slots name).name = name := rfl

theorem supplied_concat (slots : List Slot) (slot : Slot) (name : Text) :
    supplied (slots ++ [slot]) name =
      (supplied slots name).or (if slot.name = name then slot.attributes else none) := by
  simp [supplied, List.findSome?_append]

theorem supplied_eq_none {slots : List Slot} {name : Text} (h : name ∉ slots.map Slot.name) :
    supplied slots name = none := by
  rw [supplied, List.findSome?_eq_none_iff]
  intro slot hslot
  exact if_neg fun hname => h (List.mem_map.mpr ⟨slot, hslot, hname⟩)

theorem collected_concat_of_ne (slots : List Slot) {slot : Slot} {name : Text}
    (h : name ≠ slot.name) : collected (slots ++ [slot]) name = collected slots name := by
  rw [collected, supplied_concat, if_neg h.symm, Option.or_none, collected]

theorem addSlot_cons_same {known slot : Slot} (h : known.name = slot.name) (rest : List Slot) :
    addSlot (known :: rest) slot =
      { known with attributes := known.attributes.or slot.attributes } :: rest := by
  obtain ⟨name, description, attributes⟩ := known
  rw [addSlot, if_pos (beq_iff_eq.mpr h)]
  cases attributes <;> rfl

theorem addSlot_cons_other {known slot : Slot} (h : known.name ≠ slot.name) (rest : List Slot) :
    addSlot (known :: rest) slot = known :: addSlot rest slot := by
  rw [addSlot, if_neg fun hsame => h (beq_iff_eq.mp hsame)]

theorem addSlot_collected {slots : List Slot} {slot : Slot} {names : List Text}
    (hnodup : names.Nodup) (hdescription : slot.description = none)
    (hnew : slot.name ∉ names → slot.name ∉ slots.map Slot.name) :
    addSlot (names.map (collected slots)) slot =
      (if slot.name ∈ names then names else names ++ [slot.name]).map
        (collected (slots ++ [slot])) := by
  induction names with
  | nil =>
      have hnone := supplied_eq_none (hnew List.not_mem_nil)
      have hslot : collected (slots ++ [slot]) slot.name = slot := by
        rw [collected, supplied_concat, hnone, Option.none_or, if_pos rfl, ← hdescription]
      simp [addSlot, hslot]
  | cons name names ih =>
      obtain ⟨hname, hnodup⟩ := List.nodup_cons.mp hnodup
      rw [List.map_cons]
      by_cases hsame : name = slot.name
      · subst hsame
        have hrest : names.map (collected slots) = names.map (collected (slots ++ [slot])) :=
          List.map_congr_left fun other hother =>
            (collected_concat_of_ne slots fun heq => hname (heq ▸ hother)).symm
        have hadd : addSlot (collected slots slot.name :: names.map (collected slots)) slot =
            collected (slots ++ [slot]) slot.name :: names.map (collected slots) := by
          rw [addSlot_cons_same (name_collected slots slot.name), collected, collected,
            supplied_concat, if_pos rfl]
        rw [hadd, if_pos (List.mem_cons_self ..), List.map_cons, hrest]
      · have hnames := ih hnodup fun hnot => hnew fun hmem =>
          hnot ((List.mem_cons.mp hmem).resolve_left (Ne.symm hsame))
        rw [addSlot_cons_other hsame, hnames, ← collected_concat_of_ne slots hsame]
        by_cases hmem : slot.name ∈ names
        · rw [if_pos hmem, if_pos (List.mem_cons_of_mem _ hmem), List.map_cons]
        · have hnot : slot.name ∉ name :: names := by simp [hmem, Ne.symm hsame]
          rw [if_neg hmem, if_neg hnot, List.cons_append, List.map_cons]

theorem foldl_addSlot (slots : List Slot) (h : ∀ slot ∈ slots, slot.description = none) :
    slots.foldl addSlot [] =
      (Text.firstOccurrences (slots.map Slot.name)).map (collected slots) := by
  induction slots using List.reverseRecOn with
  | nil => rfl
  | append_singleton slots slot ih =>
      have hslots := ih fun known hknown => h known (List.mem_append_left _ hknown)
      have hslot := h slot (by simp)
      rw [List.foldl_concat, hslots, List.map_append, List.map_singleton,
        Text.firstOccurrences_concat, addSlot_collected (Text.nodup_firstOccurrences _) hslot]
      · simp only [Text.mem_firstOccurrences]
      · rw [Text.mem_firstOccurrences]
        exact id

theorem supplied_tags (tags : List (List (Text × Text))) (name : Text) :
    Option.Rel AreOthers (tags.find? fun found => givenName found == name && hasOthers found)
      (supplied (tags.map Slot.ofAttributes) name) := by
  induction tags with
  | nil => exact .none
  | cons found tags ih =>
      have hname := name_ofAttributes found
      have hattributes := attributes_ofAttributes found
      rw [List.find?_cons, supplied, List.map_cons, List.findSome?_cons, hname]
      by_cases hgiven : givenName found = name
      · rw [if_pos hgiven, beq_iff_eq.mpr hgiven, Bool.true_and]
        cases hothers : hasOthers found with
        | true =>
            rw [hothers, if_pos rfl] at hattributes
            generalize (Slot.ofAttributes found).attributes = entries at hattributes ⊢
            cases hattributes with
            | some hentries => exact .some hentries
        | false =>
            rw [hothers, if_neg Bool.false_ne_true] at hattributes
            generalize (Slot.ofAttributes found).attributes = entries at hattributes ⊢
            cases hattributes with
            | none => exact ih
      · rw [if_neg hgiven, beq_false_of_ne hgiven, Bool.false_and]
        exact ih

theorem supplied_append_rendered (slots : List Slot) (rendered : List Text) (name : Text) :
    supplied (slots ++ rendered.map fun name => { name : Slot }) name = supplied slots name := by
  have hnone : supplied (rendered.map fun name => { name : Slot }) name = none := by
    rw [supplied, List.findSome?_eq_none_iff]
    intro slot hslot
    obtain ⟨other, -, rfl⟩ := List.mem_map.mp hslot
    split_ifs <;> rfl
  rw [supplied] at hnone
  rw [supplied, List.findSome?_append, hnone, Option.or_none, supplied]

theorem foldl_addSlot_tags (tags : List (List (Text × Text))) (rendered : List Text) :
    (tags.map Slot.ofAttributes ++ rendered.map fun name => { name : Slot }).foldl addSlot [] =
      (Text.firstOccurrences (tags.map givenName ++ rendered)).map
        (collected (tags.map Slot.ofAttributes)) := by
  have hdescription : ∀ slot ∈ tags.map Slot.ofAttributes ++
      rendered.map fun name => { name : Slot }, slot.description = none := by
    intro slot hslot
    rcases List.mem_append.mp hslot with hslot | hslot
    all_goals
      obtain ⟨_, -, rfl⟩ := List.mem_map.mp hslot
      rfl
  have hnames : (tags.map Slot.ofAttributes ++ rendered.map fun name => { name : Slot }).map
      Slot.name = tags.map givenName ++ rendered := by
    simp [Function.comp_def, name_ofAttributes]
  rw [foldl_addSlot _ hdescription, hnames]
  refine List.map_congr_left fun name _ => ?_
  rw [collected, supplied_append_rendered, collected]

end ComponentDocs.Component
