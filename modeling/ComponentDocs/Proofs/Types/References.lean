import ComponentDocs.Proofs.Text.Marks
import ComponentDocs.Proofs.Text.Scan
import ComponentDocs.Proofs.Types.Dependencies

/-!
# The names that a text refers to

A text is made of code and of noise: comments, strings and quoted templates, which may hold
each other's marks.  The names that it refers to are the capitalised words of its code.
-/

namespace ComponentDocs

theorem Text.firstOccurrences_filter (p : Text → Bool) (texts : List Text) :
    Text.firstOccurrences (texts.filter p) = (Text.firstOccurrences texts).filter p := by
  induction texts with
  | nil => rfl
  | cons first rest ih =>
      rw [firstOccurrences, List.filter_cons, List.filter_cons]
      split
      · rw [firstOccurrences, ih, List.filter_filter, List.filter_filter]
        simp only [Bool.and_comm]
      · next hfirst =>
          rw [ih, List.filter_filter]
          apply List.filter_congr
          intro text _
          cases htext : p text with
          | false => rfl
          | true =>
              have hne : text ≠ first := by
                rintro rfl
                exact hfirst htext
              simpa using hne

theorem Text.firstOccurrences_eq_eraseDups (texts : List Text) :
    Text.firstOccurrences texts = texts.eraseDups := by
  induction hlength : texts.length using Nat.strongRecOn generalizing texts with
  | ind length ih =>
      cases texts with
      | nil => rfl
      | cons first rest =>
          have hshort : (rest.filter fun text => !text == first).length < length := by
            have hle := List.length_filter_le (fun text => !text == first) rest
            rw [List.length_cons] at hlength
            omega
          rw [List.eraseDups_cons, ← ih _ hshort _ rfl, firstOccurrences_filter, firstOccurrences]
          rfl

namespace Types

/-- The longest runs of word characters: what stands between other characters, as far as it is
not empty. -/
def maximalRuns (text : Text) : List Text :=
  (text.splitOnP fun c => !Text.isWord c).filter fun run => !run.isEmpty

theorem wordRuns_eq_maximalRuns (text : Text) : wordRuns text = maximalRuns text := by
  induction text with
  | nil => rfl
  | cons c rest ih =>
      rw [maximalRuns] at ih ⊢
      rw [wordRuns, List.splitOnP_cons_eq_if_modifyHead, ih]
      cases hc : Text.isWord c with
      | false => simp
      | true =>
          cases rest with
          | nil => simp [endsRun]
          | cons d rest =>
              rw [List.splitOnP_cons_eq_if_modifyHead]
              cases hd : Text.isWord d with
              | false => simp [endsRun, hd]
              | true =>
                  cases hsplit : rest.splitOnP fun c => !Text.isWord c with
                  | nil => exact absurd hsplit (List.splitOnP_ne_nil _ _)
                  | cons run runs => simp [endsRun, hd, Text.consWord]

theorem maximalRuns_append {gap : Text} (hne : gap ≠ []) (hgap : ∀ c ∈ gap, Text.isWord c = false)
    (front back : Text) :
    maximalRuns (front ++ (gap ++ back)) = maximalRuns front ++ maximalRuns back := by
  induction gap generalizing front with
  | nil => contradiction
  | cons c gap ih =>
      rw [List.forall_mem_cons] at hgap
      have hsplit : maximalRuns (front ++ (c :: gap ++ back)) =
          maximalRuns front ++ maximalRuns (gap ++ back) := by
        rw [maximalRuns, List.cons_append, List.splitOnP_append_cons _ _ (by simp [hgap.1]),
          List.filter_append]
        rfl
      rw [hsplit]
      cases gap with
      | nil => rfl
      | cons d gap =>
          exact congrArg (maximalRuns front ++ ·) (ih (List.cons_ne_nil d gap) hgap.2 [])

def isCapitalized (name : Text) : Bool :=
  name.head?.any Char.isUpper && name.all fun c => c.isAlphanum || c == '_'

theorem isUpper_eq (c : Char) : c.isUpper = (decide ('A' ≤ c) && decide (c ≤ 'Z')) :=
  Bool.decide_and _ _

theorem isAlphanum_eq (c : Char) : c.isAlphanum = (c.isUpper || c.isLower || c.isDigit) :=
  rfl

theorem isPlainWord_eq (c : Char) : isPlainWord c = (c.isAlphanum || c == '_') := by
  have hlower : c.isLower = (decide ('a' ≤ c) && decide (c ≤ 'z')) := rfl
  have hdigit : c.isDigit = (decide ('0' ≤ c) && decide (c ≤ '9')) := rfl
  rw [isPlainWord, isAlphanum_eq, Bool.or_comm c.isUpper, isUpper_eq, hlower, hdigit]

theorem isTypeName_eq_isCapitalized (name : Text) : isTypeName name = isCapitalized name := by
  cases name with
  | nil => rfl
  | cons c rest =>
      have hrest := congrArg rest.all (funext isPlainWord_eq).symm
      rw [isTypeName, isCapitalized, List.head?_cons, Option.any_some, List.all_cons,
        ← isUpper_eq, hrest, isAlphanum_eq]
      cases c.isUpper <;> rfl

structure Code where
  text : Text
  plain : ∀ c ∈ text, c ∉ ['/', '"', '\'', '\x60']

inductive StringPart (quote : Char) where
  | plain (c : Char) (isPlain : c ≠ quote ∧ c ≠ '\\' ∧ c ≠ '\n')
  | escaped (c : Char)

def StringPart.text {quote : Char} : StringPart quote → Text
  | .plain c _ => [c]
  | .escaped c => ['\\', c]

/-- Text that does not count: a comment, a string or a quoted template.  A line comment comes
with its line break. -/
inductive Noise where
  | block (inside : Text) (plain : ¬"*/".toList <:+: inside)
  | line (inside : Text) (onLine : '\n' ∉ inside)
  | quoted (quote : Char) (isQuote : quote = '"' ∨ quote = '\'') (parts : List (StringPart quote))
  | template (inside : Text) (plain : '\x60' ∉ inside)

def Noise.text : Noise → Text
  | .block inside _ => '/' :: '*' :: (inside ++ ['*', '/'])
  | .line inside _ => '/' :: '/' :: (inside ++ ['\n'])
  | .quoted quote _ parts => quote :: (parts.flatMap StringPart.text ++ [quote])
  | .template inside _ => '\x60' :: (inside ++ ['\x60'])

structure Passage where
  first : Code
  more : List (Noise × Code)

def Passage.text (passage : Passage) : Text :=
  passage.first.text ++ passage.more.flatMap fun (noise, code) => noise.text ++ code.text

def Passage.segments (passage : Passage) : List Text :=
  passage.first.text :: passage.more.map fun (_, code) => code.text

theorem noiseLength?_of_plain {c : Char} (h : c ∉ ['/', '"', '\'', '\x60']) (rest : Text) :
    noiseLength? (c :: rest) = none := by
  simp only [List.mem_cons, List.not_mem_nil, or_false, not_or] at h
  unfold noiseLength?
  split <;> simp_all

theorem blankNoise_code (code : Code) (rest : Text) :
    blankNoise 0 (code.text ++ rest) = code.text ++ blankNoise 0 rest := by
  obtain ⟨text, hplain⟩ := code
  dsimp only
  induction text with
  | nil => rfl
  | cons c text ih =>
      rw [List.forall_mem_cons] at hplain
      rw [List.cons_append, blankNoise, noiseLength?_of_plain hplain.1, List.cons_append,
        ih hplain.2]

theorem blankNoise_skip (front rest : Text) :
    blankNoise front.length (front ++ rest) = blankNoise 0 rest := by
  induction front with
  | nil => rfl
  | cons c front ih => rw [List.cons_append, List.length_cons, blankNoise, ih]

theorem blankNoise_noise {noise rest : Text} (hne : noise ≠ [])
    (h : noiseLength? (noise ++ rest) = some noise.length) :
    blankNoise 0 (noise ++ rest) = ' ' :: blankNoise 0 rest := by
  obtain ⟨c, noise, rfl⟩ := List.exists_cons_of_ne_nil hne
  rw [List.cons_append] at h ⊢
  rw [blankNoise, h, ← blankNoise_skip noise rest]
  rfl

variable {quote : Char} {inside : Text}

theorem stringLength?_part (part : StringPart quote) (rest : Text) :
    stringLength? quote (part.text ++ rest) =
      (stringLength? quote rest).map (· + part.text.length) := by
  cases part with
  | escaped c => exact stringLength?.eq_2 quote c rest
  | plain c hplain =>
      change stringLength? quote (c :: rest) = _
      rw [stringLength?]
      · simp [hplain, StringPart.text]
      · simp [hplain]

theorem stringLength?_parts (hquote : quote ≠ '\\') (parts : List (StringPart quote))
    (rest : Text) :
    stringLength? quote (parts.flatMap StringPart.text ++ quote :: rest) =
      some ((parts.flatMap StringPart.text).length + 1) := by
  induction parts with
  | nil =>
      rw [List.flatMap_nil, List.nil_append, stringLength?]
      · simp
      · simp [hquote]
  | cons part parts ih =>
      rw [List.flatMap_cons, List.append_assoc, stringLength?_part, ih, Option.map_some,
        List.length_append]
      exact congrArg some (by omega)

theorem takeWhile_line (h : '\n' ∉ inside) (rest : Text) :
    (inside ++ '\n' :: rest).takeWhile (· != '\n') = inside := by
  rw [List.takeWhile_append_of_pos]
  · simp
  · intro c hc
    exact bne_iff_ne.mpr fun heq => h (heq ▸ hc)

theorem noiseLength?_block (h : ¬"*/".toList <:+: inside) (rest : Text) :
    noiseLength? ('/' :: '*' :: (inside ++ '*' :: '/' :: rest)) = some (inside.length + 4) := by
  have hmark : Text.IsMark "*/".toList := by simp [Text.IsMark]
  have hcut := Text.cut?_append hmark h rest
  rw [List.append_assoc] at hcut
  change (Text.cut? "*/" (inside ++ ("*/".toList ++ rest))).map _ = _
  rw [hcut]
  rfl

theorem noiseLength?_line (h : '\n' ∉ inside) (rest : Text) :
    noiseLength? ('/' :: '/' :: (inside ++ '\n' :: rest)) = some (inside.length + 2) := by
  rw [noiseLength?, takeWhile_line h]

theorem noiseLength?_quoted (h : quote = '"' ∨ quote = '\'') (parts : List (StringPart quote))
    (rest : Text) :
    noiseLength? (quote :: (parts.flatMap StringPart.text ++ quote :: rest)) =
      some ((parts.flatMap StringPart.text).length + 2) := by
  rcases h with rfl | rfl <;>
    · rw [noiseLength?, stringLength?_parts (by decide)]
      rfl

theorem noiseLength?_template (h : '\x60' ∉ inside) (rest : Text) :
    noiseLength? ('\x60' :: (inside ++ '\x60' :: rest)) = some (inside.length + 2) := by
  rw [noiseLength?, Text.cutAt?_mark h]
  rfl

theorem blankNoise_gap (noise : Noise) :
    ∃ gap, gap ≠ [] ∧ (∀ c ∈ gap, Text.isWord c = false) ∧
      ∀ rest, blankNoise 0 (noise.text ++ rest) = gap ++ blankNoise 0 rest := by
  have hspace : ∀ c ∈ [' '], Text.isWord c = false := by decide
  cases noise with
  | block inside hplain =>
      refine ⟨[' '], List.cons_ne_nil _ _, hspace, fun rest => ?_⟩
      apply blankNoise_noise (by simp [Noise.text])
      simpa [Noise.text] using noiseLength?_block hplain rest
  | line inside honline =>
      -- the line break is not part of what is passed over
      refine ⟨[' ', '\n'], List.cons_ne_nil _ _, by decide, fun rest => ?_⟩
      have hbreak : blankNoise 0 ('\n' :: rest) = '\n' :: blankNoise 0 rest := by
        rw [blankNoise, noiseLength?_of_plain (by decide)]
      have hcomment : blankNoise 0 ('/' :: '/' :: inside ++ '\n' :: rest) =
          ' ' :: blankNoise 0 ('\n' :: rest) := by
        apply blankNoise_noise (List.cons_ne_nil _ _)
        simpa using noiseLength?_line honline rest
      simpa [Noise.text, hbreak] using hcomment
  | quoted quote hquote parts =>
      refine ⟨[' '], List.cons_ne_nil _ _, hspace, fun rest => ?_⟩
      apply blankNoise_noise (by simp [Noise.text])
      simpa [Noise.text] using noiseLength?_quoted hquote parts rest
  | template inside hplain =>
      refine ⟨[' '], List.cons_ne_nil _ _, hspace, fun rest => ?_⟩
      apply blankNoise_noise (by simp [Noise.text])
      simpa [Noise.text] using noiseLength?_template hplain rest

theorem Passage.text_cons (first code : Code) (noise : Noise) (more : List (Noise × Code)) :
    Passage.text ⟨first, (noise, code) :: more⟩ =
      first.text ++ (noise.text ++ Passage.text ⟨code, more⟩) := by
  simp [Passage.text]

theorem maximalRuns_blankNoise (passage : Passage) :
    maximalRuns (blankNoise 0 passage.text) = passage.segments.flatMap maximalRuns := by
  obtain ⟨first, more⟩ := passage
  induction more generalizing first with
  | nil =>
      have hcode := blankNoise_code first []
      simp only [blankNoise, List.append_nil] at hcode
      simp [Passage.text, Passage.segments, hcode]
  | cons entry more ih =>
      obtain ⟨noise, code⟩ := entry
      obtain ⟨gap, hne, hgap, hblank⟩ := blankNoise_gap noise
      rw [Passage.text_cons, blankNoise_code, hblank, maximalRuns_append hne hgap, ih]
      rfl

theorem isBuiltin_eq (name : Text) :
    isBuiltin name = decide (String.ofList name ∈ builtinTypes) := by
  rw [Bool.eq_iff_iff, isBuiltin, List.any_eq_true, decide_eq_true_eq]
  constructor
  · rintro ⟨known, hmem, hname⟩
    rwa [← beq_iff_eq.mp hname, String.ofList_toList]
  · intro hmem
    exact ⟨_, hmem, by simp⟩

/-- The names that a passage refers to are the capitalised words of its code, each where it
occurs first, but for the excluded name and the names of the language. -/
theorem dependencyNames_passage (passage : Passage) (exclude : Text) :
    dependencyNames passage.text exclude =
      ((passage.segments.flatMap maximalRuns).filter fun name =>
        isCapitalized name ∧ name ≠ exclude ∧ String.ofList name ∉ builtinTypes).eraseDups := by
  rw [dependencyNames, wordRuns_eq_maximalRuns, maximalRuns_blankNoise,
    Text.firstOccurrences_eq_eraseDups]
  apply congrArg List.eraseDups
  apply List.filter_congr
  intro name _
  rw [isTypeName_eq_isCapitalized, isBuiltin_eq, Bool.eq_iff_iff]
  simp [and_assoc]

example :
    dependencyNames "Map<Key, \"/* No\"> /* it's Not */ | Item // None\n& Key & Self" "Self" =
      ["Key".toList, "Item".toList] := by
  decide

end Types

end ComponentDocs
