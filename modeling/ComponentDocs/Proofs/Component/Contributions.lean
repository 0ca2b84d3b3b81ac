import ComponentDocs.Component.Destructuring
import ComponentDocs.Proofs.Types.Dependencies

/-!
# Contributions to parameters

Declared parameters are followed by what else a script says about parameters, one
contribution at a time.  A contribution goes into the record of its name or makes a new one.
-/

namespace ComponentDocs

theorem Text.firstOccurrences_concat (texts : List Text) (text : Text) :
    firstOccurrences (texts ++ [text]) =
      if text ∈ texts then firstOccurrences texts else firstOccurrences texts ++ [text] := by
  induction texts with
  | nil => rfl
  | cons first texts ih =>
      rw [List.cons_append, firstOccurrences, ih, firstOccurrences]
      by_cases hfirst : text = first
      · subst hfirst
        by_cases hmem : text ∈ texts <;> simp [hmem]
      · by_cases hmem : text ∈ texts <;> simp [hmem, hfirst]

namespace Component

open Script (unknownType)

structure Contribution where
  name : Text
  type : Text
  fallback : Option Json
  description : Option Text

def Contribution.parameter (contribution : Contribution) : Parameter :=
  { name := contribution.name, type := contribution.type, required := true
    description := contribution.description : Parameter }.withFallback? contribution.fallback

def Contribution.mergeInto (contribution : Contribution) (parameter : Parameter) : Parameter :=
  let defaulted := parameter.withFallback? contribution.fallback
  { defaulted with
    description := defaulted.description.orElse fun _ => contribution.description }

def contribute (isPassedOver : Text → Bool) (parameters : List Parameter)
    (contribution : Contribution) : List Parameter :=
  if parameters.any fun parameter => parameter.name == contribution.name then
    updateFirst contribution.name contribution.mergeInto parameters
  else if isPassedOver contribution.name then parameters
  else parameters ++ [contribution.parameter]

def named (name : Text) (contributions : List Contribution) : List Contribution :=
  contributions.filter fun contribution => contribution.name == name

def lastFallback (contributions : List Contribution) (name : Text) : Option Json :=
  ((named name contributions).filterMap Contribution.fallback).getLast?

def firstDescription (contributions : List Contribution) (name : Text) : Option Text :=
  ((named name contributions).filterMap Contribution.description).head?

def firstType (contributions : List Contribution) (name : Text) : Text :=
  ((named name contributions).head?.map Contribution.type).getD unknownType

/-- A parameter with all that is contributed to it.  What it is declared with comes first,
except that a default makes it optional. -/
def settled (contributions : List Contribution) (parameter : Parameter) : Parameter :=
  { parameter with
    required := parameter.required && (lastFallback contributions parameter.name).isNone
    fallback := lastFallback contributions parameter.name
    description :=
      parameter.description.orElse fun _ => firstDescription contributions parameter.name }

def contributed (contributions : List Contribution) (name : Text) : Parameter :=
  settled contributions { name, type := firstType contributions name, required := true }

def undeclaredNames (isPassedOver : Text → Bool) (declared : List Parameter)
    (contributions : List Contribution) : List Text :=
  Text.firstOccurrences ((contributions.map Contribution.name).filter fun name =>
    !(declared.any fun parameter => parameter.name == name) && !isPassedOver name)

theorem named_concat (name : Text) (contributions : List Contribution)
    (contribution : Contribution) :
    named name (contributions ++ [contribution]) =
      named name contributions ++ if contribution.name = name then [contribution] else [] := by
  by_cases h : contribution.name = name <;> simp [named, h]

variable {contributions : List Contribution} {name : Text}

theorem named_eq_nil (h : name ∉ contributions.map Contribution.name) :
    named name contributions = [] := by
  rw [named, List.filter_eq_nil_iff]
  intro contribution hmem hname
  exact h (List.mem_map.mpr ⟨contribution, hmem, beq_iff_eq.mp hname⟩)

theorem named_ne_nil (h : name ∈ contributions.map Contribution.name) :
    named name contributions ≠ [] := by
  obtain ⟨contribution, hmem, rfl⟩ := List.mem_map.mp h
  exact List.ne_nil_of_mem (List.mem_filter.mpr ⟨hmem, beq_self_eq_true _⟩)

theorem firstType_concat (h : name ∈ contributions.map Contribution.name)
    (contribution : Contribution) :
    firstType (contributions ++ [contribution]) name = firstType contributions name := by
  rw [firstType, named_concat, List.head?_append_of_ne_nil _ (named_ne_nil h), firstType]

theorem lastFallback_concat (contributions : List Contribution) (contribution : Contribution) :
    lastFallback (contributions ++ [contribution]) contribution.name =
      contribution.fallback.or (lastFallback contributions contribution.name) := by
  cases hfallback : contribution.fallback <;>
    simp [lastFallback, named_concat, List.filterMap_append, hfallback]

theorem firstDescription_concat (contributions : List Contribution)
    (contribution : Contribution) :
    firstDescription (contributions ++ [contribution]) contribution.name =
      (firstDescription contributions contribution.name).or contribution.description := by
  cases hdescription : contribution.description <;>
    simp [firstDescription, named_concat, List.filterMap_append, List.head?_append, hdescription]

theorem settled_concat (contributions : List Contribution) (contribution : Contribution)
    (parameter : Parameter) :
    settled (contributions ++ [contribution]) parameter =
      if parameter.name == contribution.name then
        contribution.mergeInto (settled contributions parameter)
      else settled contributions parameter := by
  by_cases hname : parameter.name = contribution.name
  · rw [if_pos (beq_iff_eq.mpr hname)]
    simp only [settled, hname, lastFallback_concat, firstDescription_concat]
    cases hfallback : contribution.fallback with
    | none =>
        cases parameter.description <;>
          simp [Contribution.mergeInto, hfallback, Parameter.withFallback?]
    | some value =>
        cases parameter.description <;>
          simp [Contribution.mergeInto, hfallback, Parameter.withFallback?,
            Parameter.withFallback]
  · have hother : contribution.name ≠ parameter.name := Ne.symm hname
    simp [settled, lastFallback, firstDescription, named_concat, hname, hother]

theorem updateFirst_eq_map {change : Parameter → Parameter} {parameters : List Parameter}
    (hnodup : (parameters.map Parameter.name).Nodup) :
    updateFirst name change parameters =
      parameters.map fun parameter =>
        if parameter.name == name then change parameter else parameter := by
  induction parameters with
  | nil => rfl
  | cons parameter parameters ih =>
      rw [List.map_cons, List.nodup_cons] at hnodup
      rw [updateFirst, List.map_cons]
      split
      · next hname =>
          -- no other parameter has the name
          congr 1
          refine ((List.map_congr_left ?_).trans (List.map_id _)).symm
          intro other hother
          have hne : other.name ≠ name := by
            rintro rfl
            exact hnodup.1 (beq_iff_eq.mp hname ▸ List.mem_map_of_mem hother)
          simp [hne]
      · rw [ih hnodup.2]

@[simp] theorem name_settled (contributions : List Contribution) (parameter : Parameter) :
    (settled contributions parameter).name = parameter.name := rfl

@[simp] theorem name_contributed (contributions : List Contribution) (name : Text) :
    (contributed contributions name).name = name := rfl

section Merging

variable {isPassedOver : Text → Bool} {declared : List Parameter}

def mergedParameters (isPassedOver : Text → Bool) (declared : List Parameter)
    (contributions : List Contribution) : List Parameter :=
  declared.map (settled contributions) ++
    (undeclaredNames isPassedOver declared contributions).map (contributed contributions)

theorem mem_undeclaredNames :
    name ∈ undeclaredNames isPassedOver declared contributions ↔
      name ∈ contributions.map Contribution.name ∧ name ∉ declared.map Parameter.name ∧
        isPassedOver name = false := by
  have hdeclared : (declared.any fun parameter => parameter.name == name) = false ↔
      name ∉ declared.map Parameter.name := by
    simp
  rw [undeclaredNames, Text.mem_firstOccurrences, List.mem_filter, Bool.and_eq_true,
    Bool.not_eq_true', Bool.not_eq_true', hdeclared]

theorem names_mergedParameters (isPassedOver : Text → Bool) (declared : List Parameter)
    (contributions : List Contribution) :
    (mergedParameters isPassedOver declared contributions).map Parameter.name =
      declared.map Parameter.name ++ undeclaredNames isPassedOver declared contributions := by
  simp [mergedParameters, Function.comp_def]

theorem nodup_mergedParameters (hnodup : (declared.map Parameter.name).Nodup)
    (contributions : List Contribution) :
    ((mergedParameters isPassedOver declared contributions).map Parameter.name).Nodup := by
  rw [names_mergedParameters]
  refine hnodup.append (Text.nodup_firstOccurrences _) fun name hmem hother => ?_
  exact (mem_undeclaredNames.mp hother).2.1 hmem

theorem undeclaredNames_concat (contributions : List Contribution) (contribution : Contribution) :
    undeclaredNames isPassedOver declared (contributions ++ [contribution]) =
      undeclaredNames isPassedOver declared contributions ++
        if contribution.name ∈ declared.map Parameter.name ∨ isPassedOver contribution.name = true ∨
            contribution.name ∈ contributions.map Contribution.name then []
        else [contribution.name] := by
  rw [undeclaredNames, List.map_append, List.filter_append, List.map_singleton,
    List.filter_singleton]
  by_cases hdeclared : contribution.name ∈ declared.map Parameter.name
  · have hany : (declared.any fun parameter => parameter.name == contribution.name) = true := by
      simpa using hdeclared
    simp [hany, hdeclared, undeclaredNames]
  have hany : (declared.any fun parameter => parameter.name == contribution.name) = false := by
    simpa using hdeclared
  cases hpassed : isPassedOver contribution.name with
  | true => simp [undeclaredNames]
  | false =>
      simp only [hany, hpassed, Bool.not_false, Bool.and_self, cond_true,
        Text.firstOccurrences_concat, List.mem_filter, and_true, hdeclared, Bool.false_eq_true,
        false_or]
      split <;> simp [undeclaredNames]

theorem contributed_concat {contribution : Contribution}
    (h : contribution.name ∉ contributions.map Contribution.name) :
    contributed (contributions ++ [contribution]) contribution.name = contribution.parameter := by
  have hnamed : named contribution.name (contributions ++ [contribution]) = [contribution] := by
    simp [named_concat, named_eq_nil h]
  obtain ⟨name, type, fallback, description⟩ := contribution
  cases fallback <;> cases description <;>
    simp_all [contributed, settled, firstType, lastFallback, firstDescription,
      Contribution.parameter, Parameter.withFallback?, Parameter.withFallback]

theorem map_settled_concat (isPassedOver : Text → Bool) (declared : List Parameter)
    (contributions : List Contribution) (contribution : Contribution) :
    declared.map (settled (contributions ++ [contribution])) ++
        (undeclaredNames isPassedOver declared contributions).map
          (contributed (contributions ++ [contribution])) =
      (mergedParameters isPassedOver declared contributions).map fun parameter =>
        if parameter.name == contribution.name then contribution.mergeInto parameter
        else parameter := by
  rw [mergedParameters, List.map_append, List.map_map, List.map_map]
  congr 1
  · exact List.map_congr_left fun parameter _ => settled_concat _ _ parameter
  · refine List.map_congr_left fun name hname => ?_
    rw [contributed, firstType_concat (mem_undeclaredNames.mp hname).1, settled_concat]
    rfl

theorem contribute_mergedParameters (hnodup : (declared.map Parameter.name).Nodup)
    (contributions : List Contribution) (contribution : Contribution) :
    contribute isPassedOver (mergedParameters isPassedOver declared contributions) contribution =
      mergedParameters isPassedOver declared (contributions ++ [contribution]) := by
  have hnames := names_mergedParameters isPassedOver declared contributions
  have hmap := map_settled_concat isPassedOver declared contributions contribution
  have hknown : ((mergedParameters isPassedOver declared contributions).any fun parameter =>
      parameter.name == contribution.name) = true ↔
        contribution.name ∈ declared.map Parameter.name ++
          undeclaredNames isPassedOver declared contributions := by
    rw [← hnames]
    simp
  rw [contribute]
  by_cases hmem : contribution.name ∈ declared.map Parameter.name ++
      undeclaredNames isPassedOver declared contributions
  · have hsame : undeclaredNames isPassedOver declared (contributions ++ [contribution]) =
        undeclaredNames isPassedOver declared contributions := by
      rw [undeclaredNames_concat, if_pos, List.append_nil]
      rcases List.mem_append.mp hmem with hdeclared | hother
      · exact .inl hdeclared
      · exact .inr (.inr (mem_undeclaredNames.mp hother).1)
    rw [if_pos (hknown.mpr hmem), updateFirst_eq_map (nodup_mergedParameters hnodup contributions),
      ← hmap, mergedParameters, hsame]
  -- no record of the name is there, so that the others stay as they are
  rw [if_neg (fun hany => hmem (hknown.mp hany))]
  have hsame : (mergedParameters isPassedOver declared contributions).map (fun parameter =>
      if parameter.name == contribution.name then contribution.mergeInto parameter
      else parameter) = mergedParameters isPassedOver declared contributions := by
    refine (List.map_congr_left ?_).trans (List.map_id _)
    intro parameter hparameter
    have hne : parameter.name ≠ contribution.name := by
      intro heq
      rw [← heq, ← hnames] at hmem
      exact hmem (List.mem_map_of_mem hparameter)
    simp [hne]
  rw [hsame] at hmap
  rw [List.mem_append, not_or] at hmem
  cases hpassed : isPassedOver contribution.name with
  | true =>
      rw [if_pos rfl, ← hmap, mergedParameters, undeclaredNames_concat,
        if_pos (.inr (.inl hpassed)), List.append_nil]
  | false =>
      have hnew : contribution.name ∉ contributions.map Contribution.name := fun hold =>
        hmem.2 (mem_undeclaredNames.mpr ⟨hold, hmem.1, hpassed⟩)
      rw [if_neg Bool.false_ne_true, ← hmap, mergedParameters, undeclaredNames_concat, if_neg,
        List.map_append, List.append_assoc, List.map_singleton, contributed_concat hnew]
      simp [hmem.1, hpassed, hnew]

theorem foldl_contribute (hnodup : (declared.map Parameter.name).Nodup)
    (hfallback : ∀ parameter ∈ declared, parameter.fallback = none)
    (contributions : List Contribution) :
    contributions.foldl (contribute isPassedOver) declared =
      mergedParameters isPassedOver declared contributions := by
  induction contributions using List.reverseRecOn with
  | nil =>
      refine Eq.symm (?_ : declared.map (settled []) ++ [] = declared)
      rw [List.append_nil]
      refine (List.map_congr_left ?_).trans (List.map_id _)
      intro parameter hparameter
      have hnone := hfallback parameter hparameter
      obtain ⟨name, type, required, fallback, description⟩ := parameter
      cases hnone
      cases description <;> simp [settled, lastFallback, firstDescription, named]
  | append_singleton contributions contribution ih =>
      rw [List.foldl_append, List.foldl_cons, List.foldl_nil, ih,
        contribute_mergedParameters hnodup]

end Merging

end Component

end ComponentDocs
