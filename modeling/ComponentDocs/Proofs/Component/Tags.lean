import ComponentDocs.Proofs.Component.Dispatch
import ComponentDocs.Proofs.Text.Identifiers

/-!
# Tags in a template

How slot tags and the tags that render snippets are written, and that the scans of a template
find them all, from left to right.
-/

namespace ComponentDocs.Component

open Text (isBlank isSpace)

/-- What is written in a text from left to right.  Something written is passed over as a whole,
and where nothing is, a character is. -/
inductive Occurrences {α : Type} (IsWritten : Text → α → Prop) : Text → List α → Prop
  | nil : Occurrences IsWritten [] []
  | written {tag behind : Text} {value : α} {values : List α} :
      IsWritten tag value → Occurrences IsWritten behind values →
        Occurrences IsWritten (tag ++ behind) (value :: values)
  | other {c : Char} {rest : Text} {values : List α} :
      (∀ tag value behind, IsWritten tag value → c :: rest ≠ tag ++ behind) →
        Occurrences IsWritten rest values → Occurrences IsWritten (c :: rest) values

/-- A scan that reads at each position, except behind something that it has read. -/
structure Scans {α : Type} (read? : Text → Option (α × Nat)) (scan : Nat → Text → List α) :
    Prop where
  nil : ∀ skip, scan skip [] = []
  skip : ∀ skip c rest, scan (skip + 1) (c :: rest) = scan skip rest
  read : ∀ {c rest value count}, read? (c :: rest) = some (value, count) →
    scan 0 (c :: rest) = value :: scan (count - 1) rest
  pass : ∀ {c rest}, read? (c :: rest) = none → scan 0 (c :: rest) = scan 0 rest

structure Reads {α : Type} (IsWritten : Text → α → Prop) (read? : Text → Option (α × Nat)) :
    Prop where
  iff : ∀ {text value count}, read? text = some (value, count) ↔
    ∃ tag behind, IsWritten tag value ∧ text = tag ++ behind ∧ count = tag.length
  ne_nil : ∀ {tag value}, IsWritten tag value → tag ≠ []

variable {rest text : Text}

section

variable {α : Type} {IsWritten : Text → α → Prop} {read? : Text → Option (α × Nat)}
  {scan : Nat → Text → List α}

theorem Scans.scan_skip (h : Scans read? scan) (tag behind : Text) :
    scan tag.length (tag ++ behind) = scan 0 behind := by
  induction tag with
  | nil => rfl
  | cons c tag ih => rw [List.length_cons, List.cons_append, h.skip, ih]

theorem Scans.scan_written (h : Scans read? scan) (hreads : Reads IsWritten read?) {tag : Text}
    {value : α} (hwritten : IsWritten tag value) (behind : Text) :
    scan 0 (tag ++ behind) = value :: scan 0 behind := by
  have hread := hreads.iff.mpr ⟨tag, behind, hwritten, rfl, rfl⟩
  obtain ⟨c, rest, rfl⟩ := List.exists_cons_of_ne_nil (hreads.ne_nil hwritten)
  rw [List.cons_append] at hread ⊢
  rw [h.read hread]
  exact congrArg (value :: ·) (h.scan_skip rest behind)

theorem Scans.scan_other (h : Scans read? scan) (hreads : Reads IsWritten read?) {c : Char}
    (hother : ∀ tag value behind, IsWritten tag value → c :: rest ≠ tag ++ behind) :
    scan 0 (c :: rest) = scan 0 rest := by
  have hread : read? (c :: rest) = none := by
    rw [Option.eq_none_iff_forall_ne_some]
    rintro ⟨value, count⟩ hread
    obtain ⟨tag, behind, hwritten, htext, -⟩ := hreads.iff.mp hread
    exact hother tag value behind hwritten htext
  exact h.pass hread

theorem Scans.occurrences_iff (h : Scans read? scan) (hreads : Reads IsWritten read?)
    {values : List α} : Occurrences IsWritten text values ↔ values = scan 0 text := by
  constructor
  · intro hoccurrences
    induction hoccurrences with
    | nil => rw [h.nil]
    | written hwritten _ ih => rw [h.scan_written hreads hwritten, ← ih]
    | other hother _ ih => rw [h.scan_other hreads hother, ← ih]
  · rintro rfl
    -- what is written may be longer than one character, so the induction is on the length
    induction hlength : text.length using Nat.strong_induction_on generalizing text with
    | _ length ih =>
        cases text with
        | nil =>
            rw [h.nil]
            exact .nil
        | cons c rest =>
            by_cases hahead : ∃ tag value behind, IsWritten tag value ∧ c :: rest = tag ++ behind
            · obtain ⟨tag, value, behind, hwritten, htext⟩ := hahead
              rw [htext, h.scan_written hreads hwritten]
              refine .written hwritten (ih behind.length ?_ rfl)
              have hpositive := List.length_pos_of_ne_nil (hreads.ne_nil hwritten)
              rw [← hlength, htext, List.length_append]
              omega
            · have hother : ∀ tag value behind, IsWritten tag value → c :: rest ≠ tag ++ behind :=
                fun tag value behind hwritten htext =>
                  hahead ⟨tag, value, behind, hwritten, htext⟩
              rw [h.scan_other hreads hother]
              refine .other hother (ih rest.length ?_ rfl)
              rw [← hlength, List.length_cons]
              omega

end

/-- A cut that takes as little as what is wanted behind it allows. -/
def IsShortest (IsWanted : Text → Prop) (before behind : Text) : Prop :=
  IsWanted behind ∧ ∀ front back, before = front ++ back → IsWanted (back ++ behind) → back = []

/-- The end of a slot tag in front of its bracket: blanks and perhaps a slash. -/
def IsTagEnd (text : Text) : Prop :=
  ∃ gap, isBlank gap = true ∧ (text = gap ∨ text = gap ++ ['/'])

/-- What stands in a slot tag behind its name, and the part of it that holds attributes. -/
inductive HasAttributes : Text → Text → Prop
  | empty : HasAttributes [] []
  | slash : HasAttributes ['/'] []
  | attributes {blank : Char} {found ending : Text} : isSpace blank = true →
      IsShortest IsTagEnd found ending →
        HasAttributes (blank :: (found ++ ending)) (blank :: found)

def IsSlotTag (tag found : Text) : Prop :=
  ∃ inside, '>' ∉ inside ∧ HasAttributes inside found ∧ tag = "<slot" ++ (inside ++ ">")

theorem isTagEnd_eq_true_iff : isTagEnd text = true ↔ IsTagEnd text := by
  rw [isTagEnd, Bool.or_eq_true, Bool.and_eq_true, beq_iff_eq]
  constructor
  · rintro (hblank | ⟨hslash, hblank⟩)
    · exact ⟨text, hblank, .inl rfl⟩
    · obtain ⟨gap, rfl⟩ := List.getLast?_eq_some_iff.mp hslash
      rw [List.dropLast_concat] at hblank
      exact ⟨gap, hblank, .inr rfl⟩
  · rintro ⟨gap, hblank, rfl | rfl⟩
    · exact .inl hblank
    · exact .inr ⟨List.getLast?_concat, by rwa [List.dropLast_concat]⟩

section

variable {IsWanted : Text → Prop}

variable {before behind : Text}

theorem isShortest_iff_of_wanted (h : IsWanted (before ++ behind)) :
    IsShortest IsWanted before behind ↔ before = [] := by
  constructor
  · intro hshortest
    exact hshortest.2 [] before rfl h
  · rintro rfl
    exact ⟨h, fun front back hback _ => (List.append_eq_nil_iff.mp hback.symm).2⟩

theorem isShortest_cons {c : Char} (h : ¬IsWanted (c :: (before ++ behind))) :
    IsShortest IsWanted (c :: before) behind ↔ IsShortest IsWanted before behind := by
  refine and_congr_right fun _ =>
    ⟨fun hshort front back hback => ?_, fun hshort front back hback => ?_⟩
  · exact hshort (c :: front) back (by rw [hback, List.cons_append])
  · cases front with
    | nil =>
        obtain rfl : c :: before = back := hback
        exact fun hall => absurd hall h
    | cons d front =>
        rw [List.cons_append, List.cons.injEq] at hback
        exact hshort front back hback.2

theorem find?_cuts_eq_some_iff {p : Text → Bool} :
    (Text.cuts (fun _ => true) text).find? (fun cut => p cut.2) = some (before, behind) ↔
      text = before ++ behind ∧ IsShortest (p · = true) before behind := by
  have hstart : ∀ {text before : Text}, p text = true →
      (some ([], text) = some (before, behind) ↔
        text = before ++ behind ∧ IsShortest (p · = true) before behind) := by
    intro text before hp
    constructor
    · intro h
      cases h
      exact ⟨rfl, (isShortest_iff_of_wanted hp).mpr rfl⟩
    · rintro ⟨rfl, hshortest⟩
      obtain rfl := (isShortest_iff_of_wanted hp).mp hshortest
      rfl
  induction text generalizing before with
  | nil =>
      cases hp : p [] with
      | true => simpa [Text.cuts, hp] using hstart hp
      | false =>
          simp only [Text.cuts, List.find?_cons, hp, List.find?_nil, reduceCtorEq, false_iff]
          rintro ⟨htext, hshortest⟩
          obtain ⟨-, rfl⟩ := List.append_eq_nil_iff.mp htext.symm
          rw [hshortest.1] at hp
          contradiction
  | cons c text ih =>
      rw [Text.cuts, if_pos rfl, List.find?_cons]
      cases hp : p (c :: text) with
      | true => exact hstart hp
      | false =>
          simp only [List.find?_map, Option.map_eq_some_iff, Function.comp_def, Prod.exists,
            Prod.mk.injEq]
          constructor
          · rintro ⟨inner, after, hfind, rfl, rfl⟩
            obtain ⟨rfl, hshortest⟩ := ih.mp hfind
            exact ⟨rfl, (isShortest_cons (by simp [hp])).mpr hshortest⟩
          · rintro ⟨htext, hshortest⟩
            cases before with
            | nil =>
                obtain rfl : c :: text = behind := htext
                rw [hshortest.1] at hp
                contradiction
            | cons d before =>
                rw [List.cons_append, List.cons.injEq] at htext
                obtain ⟨rfl, rfl⟩ := htext
                have hrest := (isShortest_cons (by simp [hp])).mp hshortest
                exact ⟨before, behind, ih.mpr ⟨rfl, hrest⟩, rfl, rfl⟩

end

theorem slotAttributes?_eq_some_iff {inside found : Text} :
    slotAttributes? inside = some found ↔ HasAttributes inside found := by
  have hends : (fun text => isTagEnd text = true) = IsTagEnd :=
    funext fun text => propext isTagEnd_eq_true_iff
  constructor
  · intro h
    unfold slotAttributes? at h
    split at h
    · cases h
      exact .empty
    · next c rest =>
        split at h
        · next hblank =>
            obtain ⟨⟨before, behind⟩, hfind, hfound⟩ := Option.map_eq_some_iff.mp h
            obtain ⟨rfl, hshortest⟩ := (find?_cuts_eq_some_iff (p := isTagEnd)).mp hfind
            cases hfound
            exact .attributes hblank (hends ▸ hshortest)
        · rw [Option.ite_none_right_eq_some, Bool.and_eq_true, List.isEmpty_iff, beq_iff_eq] at h
          obtain ⟨⟨rfl, rfl⟩, hfound⟩ := h
          cases hfound
          exact .slash
  · rintro (_ | _ | ⟨hblank, hshortest⟩)
    · rfl
    · rfl
    · have hfind := find?_cuts_eq_some_iff.mpr ⟨rfl, hends ▸ hshortest⟩
      rw [slotAttributes?, if_pos hblank]
      exact congrArg (Option.map _) hfind

theorem reads_slotTagAt? : Reads IsSlotTag slotTagAt? where
  iff {text found count} := by
    have hmark : ">".toList = ['>'] := rfl
    simp only [slotTagAt?, Option.bind_eq_some_iff, Prod.exists, Text.after?_eq_some_iff,
      Text.until?_eq_some_iff, Option.map_eq_some_iff, slotAttributes?_eq_some_iff, Prod.mk.injEq,
      IsSlotTag]
    constructor
    · rintro ⟨rest, rfl, inside, behind, ⟨rfl, hinside⟩, found, hfound, rfl, rfl⟩
      exact ⟨_, behind, ⟨inside, hinside, hfound, rfl⟩, by simp [hmark], by simp [hmark]⟩
    · rintro ⟨tag, behind, ⟨inside, hinside, hfound, rfl⟩, rfl, rfl⟩
      exact ⟨inside ++ '>' :: behind, by simp [hmark], inside, behind, ⟨rfl, hinside⟩, found,
        hfound, rfl, by simp [hmark]⟩
  ne_nil := by
    rintro tag found ⟨inside, -, -, rfl⟩
    simp

theorem scans_slotTags : Scans slotTagAt? slotTags where
  nil skip := by cases skip <;> rfl
  skip _ _ _ := rfl
  read h := by simp only [slotTags, h]
  pass h := by simp only [slotTags, h]

def IsCallGap (gap : Text) : Prop :=
  ∃ before mark behind : Text, isBlank before = true ∧ (mark = [] ∨ mark = "?.") ∧
    isBlank behind = true ∧ gap = before ++ (mark ++ behind)

/-- A tag that renders a snippet, up to its parenthesis, and the name of the snippet. -/
def IsRenderTag (tag name : Text) : Prop :=
  ∃ gap callGap, gap ≠ [] ∧ isBlank gap = true ∧ Text.isIdentifier name = true ∧
    IsCallGap callGap ∧ tag = "\x7b@render" ++ (gap ++ (name ++ (callGap ++ "(")))

theorem trimStart_eq_parenthesis_iff :
    Text.trimStart text = "(" ++ rest ↔
      ∃ gap, isBlank gap = true ∧ text = gap ++ ("(" ++ rest) := by
  have hhead : ∀ c ∈ ("(" ++ rest : Text).head?, isSpace c = false := by
    rintro c ⟨⟩
    decide
  simp only [Text.trimStart_eq_iff, and_iff_left hhead]

theorem trimStart_afterOptional_iff :
    Text.trimStart (Text.afterOptional "?." (Text.trimStart text)) = "(" ++ rest ↔
      ∃ gap, IsCallGap gap ∧ text = gap ++ ("(" ++ rest) := by
  constructor
  · intro h
    obtain ⟨before, hbefore, htext, -⟩ :=
      Text.trimStart_eq_iff.mp (rfl : Text.trimStart text = Text.trimStart text)
    cases hmark : Text.after? "?." (Text.trimStart text) with
    | none =>
        rw [Text.afterOptional, hmark, Option.getD_none, trimStart_eq_parenthesis_iff] at h
        obtain ⟨behind, hbehind, hrest⟩ := h
        refine ⟨before ++ behind, ⟨before, [], behind, hbefore, .inl rfl, hbehind, rfl⟩, ?_⟩
        rw [List.append_assoc, ← hrest, ← htext]
    | some inner =>
        rw [Text.afterOptional, hmark, Option.getD_some, trimStart_eq_parenthesis_iff] at h
        obtain ⟨behind, hbehind, rfl⟩ := h
        refine ⟨before ++ ("?." ++ behind),
          ⟨before, _, behind, hbefore, .inr rfl, hbehind, rfl⟩, ?_⟩
        rw [List.append_assoc, List.append_assoc, ← Text.after?_eq_some_iff.mp hmark, ← htext]
  · rintro ⟨_, ⟨before, mark, behind, hbefore, rfl | rfl, hbehind, rfl⟩, rfl⟩
    · have hblank : isBlank (before ++ behind) = true := by
        rw [Text.isBlank_append, hbefore, hbehind, Bool.and_self]
      rw [List.nil_append, trimStart_eq_parenthesis_iff.mpr ⟨_, hblank, rfl⟩]
      exact trimStart_eq_parenthesis_iff.mpr ⟨[], rfl, rfl⟩
    · have hmark : Text.trimStart ((before ++ ("?." ++ behind)) ++ ("(" ++ rest)) =
          "?." ++ (behind ++ ("(" ++ rest)) :=
        Text.trimStart_eq_iff.mpr ⟨before, hbefore, by simp, by rintro c ⟨⟩; decide⟩
      rw [hmark, Text.afterOptional, Text.after?_eq_some_iff.mpr rfl, Option.getD_some]
      exact trimStart_eq_parenthesis_iff.mpr ⟨behind, hbehind, rfl⟩

theorem IsCallGap.head?_append {gap : Text} (h : IsCallGap gap) (rest : Text) :
    ∀ c ∈ (gap ++ ("(" ++ rest)).head?, Text.continuesIdentifier c = false := by
  obtain ⟨before, mark, behind, hbefore, hmark, hbehind, rfl⟩ := h
  intro c hc
  cases before with
  | cons d before =>
      cases hc
      exact Text.continuesIdentifier_of_isSpace
        (List.all_eq_true.mp hbefore _ (List.mem_cons_self ..))
  | nil =>
      rcases hmark with rfl | rfl
      · cases behind with
        | cons d behind =>
            cases hc
            exact Text.continuesIdentifier_of_isSpace
              (List.all_eq_true.mp hbehind _ (List.mem_cons_self ..))
        | nil =>
            cases hc
            decide
      · cases hc
        decide

theorem reads_renderAt? : Reads IsRenderTag renderAt? where
  iff {text name count} := by
    simp only [renderAt?, Option.bind_eq_bind, Option.bind_eq_some_iff, Option.pure_def,
      Option.some.injEq, Prod.exists, Prod.mk.injEq, Text.after?_eq_some_iff,
      Text.afterBlanks?_eq_some_iff, Text.identifier?_eq_some_iff, trimStart_afterOptional_iff]
    constructor
    · rintro ⟨_, rfl, _, ⟨gap, hne, hgap, rfl, -⟩, _, _, ⟨hname, rfl, -⟩, rest,
        ⟨callGap, hcall, rfl⟩, rfl, rfl⟩
      refine ⟨_, rest, ⟨gap, callGap, hne, hgap, hname, hcall, rfl⟩, by simp, ?_⟩
      simp only [List.length_append]
      omega
    · rintro ⟨tag, rest, ⟨gap, callGap, hne, hgap, hname, hcall, rfl⟩, rfl, rfl⟩
      have hstart : ∀ c ∈ (name ++ (callGap ++ ("(" ++ rest))).head?, isSpace c = false := by
        obtain ⟨c, name, rfl, hc, -⟩ := Text.exists_of_isIdentifier hname
        rintro d ⟨⟩
        exact Text.isSpace_of_startsIdentifier hc
      refine ⟨_, ?_, _, ⟨gap, hne, hgap, rfl, hstart⟩, name, _,
        ⟨hname, rfl, hcall.head?_append rest⟩, rest, ⟨callGap, hcall, rfl⟩, rfl, ?_⟩
      · simp only [List.append_assoc]
      · simp only [List.length_append]
        omega
  ne_nil := by
    rintro tag name ⟨gap, callGap, -, -, -, -, rfl⟩
    simp

theorem scans_renders : Scans renderAt? renders where
  nil skip := by cases skip <;> rfl
  skip _ _ _ := rfl
  read h := by simp only [renders, h]
  pass h := by simp only [renders, h]

end ComponentDocs.Component
