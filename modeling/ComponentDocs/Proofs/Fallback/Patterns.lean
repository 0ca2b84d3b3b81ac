import ComponentDocs.Proofs.Component.Dispatch
import ComponentDocs.Proofs.Fallback.Nesting
import ComponentDocs.Proofs.Props.Text
import ComponentDocs.Proofs.Text.Trim

/-!
# Patterns that are recovered from their text

The pattern that takes apart the properties may have defaults of any kind, as long as their
brackets are nested.  The scans that cut it up find each binding and its default.
-/

namespace ComponentDocs

def Text.hasWord (word : Text) : Option Char → Text → Bool
  | _, [] => false
  | previous, c :: rest =>
      (!previous.any isWord && (after? word (c :: rest)).any fun behind => !startsWord behind) ||
        hasWord word (some c) rest

namespace Fallback

open ComponentDocs.Component
open ComponentDocs.Script (Name)

def declaringWords : List Text :=
  ["let", "const", "var"]

example : declaringWords.map (Text.hasWord · none "outlet = const (x)") = [false, true, false] := by
  decide

theorem patternAt?_eq_some {text behind : Text} (h : patternAt? text = some behind) :
    ∃ word ∈ declaringWords, ∃ gap, Text.isBlank gap = true ∧
      text = (word ++ gap) ++ '\x7b' :: behind := by
  obtain ⟨word, hword, hbehind⟩ := List.exists_of_findSome?_eq_some h
  obtain ⟨rest, hrest, hbrace⟩ := Option.bind_eq_some_iff.mp hbehind
  rw [Text.after?_eq_some_iff] at hrest
  have hstart : Text.trimStart rest = '\x7b' :: behind := Text.after?_eq_some_iff.mp hbrace
  obtain ⟨gap, hgap, htext⟩ := (Text.trimStart_eq_cons_iff (by decide)).mp hstart
  exact ⟨word, hword, gap, hgap, by rw [hrest, htext, List.append_assoc]⟩

/-- A text that can be no part of what opens a pattern: behind blanks stands a mark. -/
def EndsPattern (text : Text) : Prop :=
  ∃ gap mark rest, text = gap ++ mark :: rest ∧ Text.isBlank gap = true ∧
    (mark = ',' ∨ mark = '\x7d' ∨ mark = '=')

variable {mark : Char} {word tail : Text} {previous : Option Char} {texts : List Text}

theorem EndsPattern.not_mem_opening {gap : Text} (hword : word ∈ declaringWords)
    (hgap : Text.isBlank gap = true) (hmark : mark = ',' ∨ mark = '\x7d' ∨ mark = '=') :
    mark ∉ word ++ gap := by
  have hspace : Text.isSpace mark = false := by
    rcases hmark with rfl | rfl | rfl <;> decide
  have hwords : ∀ word ∈ declaringWords, mark ∉ word := by
    rcases hmark with rfl | rfl | rfl <;> decide
  rw [List.mem_append, not_or]
  refine ⟨hwords word hword, fun hmem => ?_⟩
  rw [List.all_eq_true.mp hgap mark hmem] at hspace
  contradiction

theorem EndsPattern.not_opening (htail : EndsPattern tail) (opening behind : Text)
    (hopening : ∀ mark, mark = ',' ∨ mark = '\x7d' ∨ mark = '=' → mark ∉ opening) :
    tail ≠ opening ++ '\x7b' :: behind := by
  obtain ⟨gap, mark, rest, rfl, hgap, hmark⟩ := htail
  intro heq
  have hbrace : '\x7b' ∉ gap := fun hmem =>
    absurd (List.all_eq_true.mp hgap _ hmem) (by decide)
  rcases List.append_eq_append_iff.mp heq with ⟨more, hmore, hrest⟩ | ⟨more, hmore, hrest⟩
  · cases more with
    | nil =>
        cases hrest
        simp at hmark
    | cons c more =>
        cases hrest
        exact hopening mark hmark (by simp [hmore])
  · cases more with
    | nil =>
        cases hrest
        simp at hmark
    | cons c more =>
        cases hrest
        exact hbrace (by simp [hmore])

theorem EndsPattern.exists_of_patternAt? (htail : EndsPattern tail) {text behind : Text}
    (h : patternAt? (text ++ tail) = some behind) :
    ∃ word ∈ declaringWords, ∃ gap more, Text.isBlank gap = true ∧
      text = word ++ (gap ++ '\x7b' :: more) := by
  obtain ⟨word, hword, gap, hgap, heq⟩ := patternAt?_eq_some h
  have hopening : ∀ mark, mark = ',' ∨ mark = '\x7d' ∨ mark = '=' → mark ∉ word ++ gap :=
    fun mark => not_mem_opening hword hgap
  refine ⟨word, hword, gap, ?_⟩
  rcases List.append_eq_append_iff.mp heq with ⟨more, hmore, hrest⟩ | ⟨more, hmore, hrest⟩
  · -- the opening would go on behind the text
    refine absurd hrest (htail.not_opening _ _ fun mark hmark hmem => hopening mark hmark ?_)
    simp [hmore, hmem]
  · cases more with
    | nil => exact absurd hrest.symm (htail.not_opening [] _ (by simp))
    | cons c more =>
        cases hrest
        exact ⟨more, hgap, by rw [hmore, List.append_assoc]⟩

/-- The search for patterns passes over a text that stands behind no word character. -/
def Patternless (text : Text) : Prop :=
  ∀ tail, EndsPattern tail → ∀ previous : Option Char, previous.any Text.isWord = false →
    ∃ last, patternStarts previous 0 (text ++ tail) = patternStarts last 0 tail

theorem Patternless.of_not_mem {text : Text} (h : '\x7b' ∉ text) : Patternless text := by
  intro tail htail previous _
  refine Props.patternStarts_append (fun part hpart _ => ?_) previous
  rw [Option.eq_none_iff_forall_ne_some]
  intro behind hbehind
  obtain ⟨word, -, gap, more, -, heq⟩ := htail.exists_of_patternAt? hbehind
  exact h (hpart.subset (by simp [heq]))

theorem hasWord_of_opening {gap more : Text} (hword : word ∈ declaringWords)
    (hgap : Text.isBlank gap = true) (hprevious : previous.any Text.isWord = false) :
    Text.hasWord word previous (word ++ (gap ++ '\x7b' :: more)) = true := by
  have hends : Text.startsWord (gap ++ '\x7b' :: more) = false := by
    cases gap with
    | nil => exact (by decide : Text.isWord '\x7b' = false)
    | cons c gap => exact Text.isWord_of_isSpace (List.all_eq_true.mp hgap c (by simp))
  have hafter : Text.after? word (word ++ (gap ++ '\x7b' :: more)) = some (gap ++ '\x7b' :: more) :=
    Text.after?_eq_some_iff.mpr rfl
  have hne : ∀ word ∈ declaringWords, word ≠ [] := by decide
  obtain ⟨first, rest, hfirst⟩ := List.exists_cons_of_ne_nil (hne word hword)
  rw [hfirst, List.cons_append, Text.hasWord, ← List.cons_append, ← hfirst, hafter]
  simp [hprevious, hends]

theorem any_isWord_of_atBoundary {rest : Text} (hword : word ∈ declaringWords)
    (h : Text.atBoundary previous (word ++ rest) = true) :
    previous.any Text.isWord = false := by
  have hstarts : Text.startsWord (word ++ rest) = true := by
    simp only [declaringWords, List.mem_cons, List.not_mem_nil, or_false] at hword
    rcases hword with rfl | rfl | rfl <;> rfl
  cases previous with
  | none => rfl
  | some c => simpa [Text.atBoundary, hstarts] using h

theorem exists_patternStarts {text : Text} (htail : EndsPattern tail)
    (h : ∀ word ∈ declaringWords, Text.hasWord word previous text = false) :
    ∃ last, patternStarts previous 0 (text ++ tail) = patternStarts last 0 tail := by
  induction text generalizing previous with
  | nil => exact ⟨previous, rfl⟩
  | cons c text ih =>
      have hrest : ∀ word ∈ declaringWords, Text.hasWord word (some c) text = false := by
        intro word hword
        have hnone := h word hword
        rw [Text.hasWord, Bool.or_eq_false_iff] at hnone
        exact hnone.2
      obtain ⟨last, hlast⟩ := ih hrest
      have hnone : (if Text.atBoundary previous (c :: (text ++ tail)) = true then
          patternAt? (c :: (text ++ tail)) else none) = none := by
        rw [Option.eq_none_iff_forall_ne_some]
        intro behind hbehind
        rw [Option.ite_none_right_eq_some, ← List.cons_append] at hbehind
        obtain ⟨hboundary, hbehind⟩ := hbehind
        obtain ⟨word, hword, gap, more, hgap, heq⟩ := htail.exists_of_patternAt? hbehind
        rw [heq, List.append_assoc] at hboundary
        have hhas := h word hword
        rw [heq, hasWord_of_opening hword hgap (any_isWord_of_atBoundary hword hboundary)] at hhas
        contradiction
      exact ⟨last, by rw [List.cons_append, patternStarts, hnone, hlast]⟩

theorem Patternless.of_hasWord {text : Text}
    (h : ∀ word ∈ declaringWords, Text.hasWord word none text = false) : Patternless text := by
  intro tail htail previous hprevious
  refine exists_patternStarts htail fun word hword => ?_
  have hnone := h word hword
  cases text with
  | nil => rfl
  | cons c text => simpa [Text.hasWord, hprevious] using hnone

theorem patternStarts_cons {c : Char} (hc : c ∉ ['l', 'c', 'v']) (previous : Option Char)
    (rest : Text) : patternStarts previous 0 (c :: rest) = patternStarts (some c) 0 rest := by
  have hnone : patternAt? (c :: rest) = none := by
    simp only [List.mem_cons, List.not_mem_nil, or_false, not_or] at hc
    simp [patternAt?, Text.after?, Ne.symm hc.1, Ne.symm hc.2.1, Ne.symm hc.2.2]
  rw [patternStarts, hnone, ite_self]

theorem patternStarts_eq_nil {text : Text} (h : '\x7b' ∉ text) (previous : Option Char) :
    patternStarts previous 0 text = [] := by
  have hnone : ∀ part, part <:+ text → part ≠ [] → patternAt? (part ++ []) = none := by
    intro part hpart _
    rw [List.append_nil, Option.eq_none_iff_forall_ne_some]
    intro behind hbehind
    obtain ⟨front, hfront, -, -⟩ := Props.exists_of_patternAt? hbehind
    exact h (hpart.subset (by simp [hfront]))
  obtain ⟨last, hlast⟩ := Props.patternStarts_append hnone previous
  rw [List.append_nil] at hlast
  rw [hlast]
  rfl

/-! ## Written patterns -/

structure Default where
  text : Text
  ne_nil : text ≠ []
  isTrimmed : Text.trim text = text
  isNested : isNested (isInline (· == ',')) text = true
  noDeclaration : ∀ word ∈ declaringWords, Text.hasWord word none text = false

structure Binding where
  name : Name
  fallback : Option Default

def Binding.text (binding : Binding) : Text :=
  match binding.fallback with
  | none => binding.name.text
  | some fallback => binding.name.text ++ (" = " ++ fallback.text)

/-- Bindings of different names, and the one that takes what is left. -/
structure Pattern where
  bindings : List Binding
  rest : Option Name
  isDistinct : (bindings.map fun binding => binding.name.text).Nodup

def Pattern.entryTexts (pattern : Pattern) : List Text :=
  pattern.bindings.map Binding.text ++
    (pattern.rest.map fun name => ("..." : Text) ++ name.text).toList

def Pattern.content (pattern : Pattern) : Text :=
  listed ',' pattern.entryTexts

def Pattern.text (pattern : Pattern) : Text :=
  "let \x7b" ++ (pattern.content ++ "\x7d = $props();")

def Binding.parameter (binding : Binding) : Parameter :=
  { name := binding.name.text
    type := "unknown"
    required := binding.fallback.isNone
    fallback := binding.fallback.map fun fallback => textValue fallback.text }

structure IsEntry (text : Text) : Prop where
  enclosed : Enclosed text
  isPiece : IsPiece (· == ',') text
  trimmed : Text.trim text = text
  patternless : Patternless text

theorem all_name {p : Char → Bool} (name : Name)
    (h : ∀ code < 128, (!Text.isAsciiPart (Char.ofNat code) || p (Char.ofNat code)) = true) :
    name.text.all p = true :=
  List.all_eq_true.mpr fun _ hc => name.of_mem h hc

theorem not_mem_name (name : Name) {c : Char} (h : Text.isAsciiPart c = false) : c ∉ name.text := by
  intro hc
  rw [List.all_eq_true.mp name.all_isAsciiPart c hc] at h
  contradiction

theorem isEntry_name (name : Name) : IsEntry name.text where
  enclosed := .of_all (all_name name (by decide))
  isPiece := .of_all (all_name name (by decide))
  trimmed := (Props.Name.tidy name).trim_eq
  patternless := .of_not_mem (not_mem_name name (by decide))

theorem isEntry_rest (name : Name) : IsEntry ("..." ++ name.text) where
  enclosed := (Enclosed.of_all (by decide)).append (isEntry_name name).enclosed
  isPiece := (IsPiece.of_all (by decide)).append (isEntry_name name).isPiece
  trimmed := by
    have hdots : Text.Tidy ("..." : Text) := .of_all (by decide) (by decide)
    exact (hdots.append (Props.Name.tidy name)).trim_eq
  patternless := by
    refine .of_not_mem ?_
    rw [List.mem_append, not_or]
    exact ⟨by decide, not_mem_name name (by decide)⟩

theorem isEntry_assigned (name : Name) (fallback : Default) :
    IsEntry (name.text ++ (" = " ++ fallback.text)) where
  enclosed :=
    (isEntry_name name).enclosed.append ((Enclosed.of_all (by decide)).append
      (.of_isNested fallback.isNested (by decide)))
  isPiece :=
    (isEntry_name name).isPiece.append ((IsPiece.of_all (by decide)).append
      (.of_isInline fallback.isNested isPlain_of_comma))
  trimmed := by
    obtain ⟨-, hlast⟩ := Text.trim_eq_self_iff.mp fallback.isTrimmed
    obtain ⟨hhead, -⟩ := Text.trim_eq_self_iff.mp (isEntry_name name).trimmed
    obtain ⟨first, rest, htext, -, -⟩ := name.exists_cons
    rw [Text.trim_eq_self_iff]
    constructor
    · simpa [htext] using hhead
    · rwa [List.getLast?_append_of_ne_nil _ (by simp),
        List.getLast?_append_of_ne_nil _ fallback.ne_nil]
  patternless := by
    intro tail htail previous hprevious
    have hassign : EndsPattern (" = " ++ (fallback.text ++ tail)) :=
      ⟨[' '], '=', ' ' :: (fallback.text ++ tail), rfl, rfl, .inr (.inr rfl)⟩
    obtain ⟨middle, hmiddle⟩ := (isEntry_name name).patternless _ hassign previous hprevious
    have hskip : patternStarts middle 0 (" = " ++ (fallback.text ++ tail)) =
        patternStarts (some ' ') 0 (fallback.text ++ tail) := by
      change patternStarts middle 0 (' ' :: '=' :: ' ' :: (fallback.text ++ tail)) = _
      rw [patternStarts_cons (by decide), patternStarts_cons (by decide),
        patternStarts_cons (by decide)]
    obtain ⟨last, hlast⟩ := Patternless.of_hasWord fallback.noDeclaration tail htail (some ' ')
      (by decide)
    refine ⟨last, ?_⟩
    rw [List.append_assoc, List.append_assoc, hmiddle, hskip, hlast]

theorem Binding.isEntry (binding : Binding) : IsEntry binding.text := by
  obtain ⟨name, fallback⟩ := binding
  cases fallback with
  | none => exact isEntry_name name
  | some fallback => exact isEntry_assigned name fallback

theorem Pattern.isEntry (pattern : Pattern) : ∀ text ∈ pattern.entryTexts, IsEntry text := by
  intro text htext
  rcases List.mem_append.mp htext with hbinding | hrest
  · obtain ⟨binding, -, rfl⟩ := List.mem_map.mp hbinding
    exact binding.isEntry
  · simp only [Option.mem_toList, Option.map_eq_some_iff] at hrest
    obtain ⟨name, -, rfl⟩ := hrest
    exact isEntry_rest name

theorem patternStarts_listed (h : ∀ text ∈ texts, Patternless text) (htail : '\x7b' ∉ tail)
    (previous : Option Char) :
    patternStarts previous 0 (listed ',' texts ++ '\x7d' :: tail) = [] := by
  induction texts generalizing previous with
  | nil => exact patternStarts_eq_nil (by simpa using htail) previous
  | cons text texts ih =>
      rw [List.forall_mem_cons] at h
      cases texts with
      | nil =>
          have hend : EndsPattern (' ' :: '\x7d' :: tail) :=
            ⟨[' '], '\x7d', tail, rfl, rfl, .inr (.inl rfl)⟩
          obtain ⟨last, hlast⟩ := h.1 _ hend (some ' ') (by decide)
          rw [listed_singleton]
          simp only [List.append_assoc, List.cons_append, List.nil_append]
          rw [patternStarts_cons (by decide), hlast]
          exact patternStarts_eq_nil (by simpa using htail) last
      | cons next texts =>
          have hend : EndsPattern (',' :: (listed ',' (next :: texts) ++ '\x7d' :: tail)) :=
            ⟨[], ',', _, rfl, rfl, .inl rfl⟩
          obtain ⟨last, hlast⟩ := h.1 _ hend (some ' ') (by decide)
          rw [listed_cons]
          simp only [List.append_assoc, List.cons_append, List.nil_append]
          rw [patternStarts_cons (by decide), hlast, patternStarts_cons (by decide)]
          exact ih h.2 (some ',')

theorem patternStarts_let (rest : Text) :
    patternStarts none 0 ("let \x7b" ++ rest) = rest :: patternStarts (some '\x7b') 0 rest := by
  have hskip : ("et \x7b" ++ rest).length - rest.length = 4 := by
    rw [List.length_append, Nat.add_sub_cancel]
    rfl
  have hfirst : patternStarts none 0 ("let \x7b" ++ rest) =
      rest :: patternStarts (some 'l') (("et \x7b" ++ rest).length - rest.length)
        ("et \x7b" ++ rest) := rfl
  rw [hfirst, hskip]
  rfl

theorem Pattern.patternStarts_text (pattern : Pattern) :
    patternStarts none 0 pattern.text = [pattern.content ++ "\x7d = $props();"] := by
  have hothers : patternStarts (some '\x7b') 0 (pattern.content ++ "\x7d = $props();") = [] :=
    patternStarts_listed (fun text htext => (pattern.isEntry text htext).patternless)
      (by decide) _
  exact (patternStarts_let _).trans (congrArg _ hothers)

theorem Pattern.destructuredTexts_text (pattern : Pattern) :
    destructuredTexts "$props" pattern.text = [pattern.content] := by
  have hblock : balancedBlock (pattern.content ++ "\x7d = $props();") =
      some (pattern.content, (" = $props();" : Text)) :=
    balancedBlock_close (enclosed_listed (by decide) fun text htext =>
      (pattern.isEntry text htext).enclosed) _
  rw [destructuredTexts, pattern.patternStarts_text, List.filterMap_cons, hblock]
  rfl

/-! ## Bindings -/

theorem cutDefault_eq_none {text : Text} (h : '=' ∉ text) (depth : Int) (previous : Option Char) :
    cutDefault depth previous text = none := by
  induction text generalizing depth previous with
  | nil => rfl
  | cons c text ih =>
      rw [List.mem_cons, not_or] at h
      simp [cutDefault, ih h.2, Ne.symm h.1]

def Binding.found (binding : Binding) : FoundBinding × Option Text :=
  (⟨false, binding.name.text, false, none⟩, binding.fallback.map Default.text)

theorem Binding.item?_text (binding : Binding) {piece : Text}
    (h : Text.trim piece = binding.text) : item? piece = some binding.found := by
  obtain ⟨name, fallback⟩ := binding
  cases fallback with
  | none =>
      have hsplit : splitDefault name.text = (name.text, none) := by
        rw [splitDefault, cutDefault_eq_none (not_mem_name name (by decide))]
      simp only [Binding.text] at h
      simp [item?, h, hsplit, (isEntry_name name).trimmed, Props.binding?_name, Binding.found]
  | some fallback =>
      obtain ⟨last, hlast⟩ := Props.cutDefault_name name (" = " ++ fallback.text)
      have hcut : cutDefault 0 last (" = " ++ fallback.text) =
          some ([' '], ' ' :: fallback.text) := rfl
      rw [hcut] at hlast
      have hfallback : Text.trim (' ' :: fallback.text) = fallback.text := by
        simpa [fallback.isTrimmed] using Text.trim_around [' '] fallback.text [] rfl rfl
      have hname : Text.trim (name.text ++ [' ']) = name.text := by
        simpa [(isEntry_name name).trimmed] using Text.trim_around [] name.text [' '] rfl rfl
      have hsplit : splitDefault (name.text ++ (" = " ++ fallback.text)) =
          (name.text ++ [' '], some fallback.text) := by
        simp only [splitDefault, hlast, Option.map_some, hfallback]
      simp only [Binding.text] at h
      simp only [item?, h, hsplit, hname, Props.binding?_name, Option.map_some, Binding.found]

theorem item?_rest (name : Name) {piece : Text} (h : Text.trim piece = "..." ++ name.text) :
    item? piece = some (⟨true, name.text, false, none⟩, none) := by
  have hsplit : splitDefault ("..." ++ name.text) = ("..." ++ name.text, none) := by
    rw [splitDefault, cutDefault_eq_none]
    rw [List.mem_append, not_or]
    exact ⟨by decide, not_mem_name name (by decide)⟩
  have hidentifier : Text.identifier? name.text = some (name.text, []) := by
    have hnone : ∀ c ∈ ([] : Text).head?, Text.continuesIdentifier c = false := by simp
    simpa using Props.Name.identifier?_append name hnone
  have hbinding : binding? ("..." ++ name.text) = some ⟨true, name.text, false, none⟩ := by
    rw [binding?, Text.after?_eq_some_iff.mpr rfl]
    simp only [hidentifier]
    rfl
  simp only [item?, h, hsplit, (isEntry_rest name).trimmed, hbinding]
  rfl

def Pattern.found (pattern : Pattern) : List (FoundBinding × Option Text) :=
  pattern.bindings.map Binding.found ++
    (pattern.rest.map fun name => (⟨true, name.text, false, none⟩, none)).toList

theorem Pattern.forall₂_found (pattern : Pattern) :
    List.Forall₂ (fun text found => ∀ piece, Text.trim piece = Text.trim text →
      item? piece = some found) pattern.entryTexts pattern.found := by
  refine List.rel_append ?_ ?_
  · rw [List.forall₂_map_left_iff, List.forall₂_map_right_iff, List.forall₂_same]
    intro binding _ piece hpiece
    rw [binding.isEntry.trimmed] at hpiece
    exact binding.item?_text hpiece
  · cases pattern.rest with
    | none => exact .nil
    | some name =>
        refine .cons (fun piece hpiece => ?_) .nil
        rw [(isEntry_rest name).trimmed] at hpiece
        exact item?_rest name hpiece

theorem filterMap_item? {pieces : List Text} {founds : List (FoundBinding × Option Text)}
    (hfounds : List.Forall₂ (fun text found => ∀ piece, Text.trim piece = Text.trim text →
      item? piece = some found) texts founds)
    (hpieces : List.Forall₂ (fun text piece => Text.trim piece = Text.trim text) texts pieces) :
    pieces.filterMap item? = founds := by
  induction hfounds generalizing pieces with
  | nil =>
      cases hpieces
      rfl
  | cons hfound _ ih =>
      cases hpieces with
      | cons hpiece hpieces => rw [List.filterMap_cons_some (hfound _ hpiece), ih hpieces]

theorem Pattern.entries_content (pattern : Pattern) : entries pattern.content = pattern.found := by
  have hfounds := pattern.forall₂_found
  by_cases hne : pattern.entryTexts = []
  · rw [hne, List.forall₂_nil_left_iff] at hfounds
    rw [Pattern.content, hne, hfounds]
    rfl
  · exact filterMap_item? hfounds (splitTopLevel_listed
      (fun text htext => (pattern.isEntry text htext).isPiece) hne (by decide) (by decide)
      (by decide))

theorem Binding.addEntry_found (binding : Binding) {api : ScriptApi} (hevents : api.events = [])
    (hnew : binding.name.text ∉ api.parameters.map Parameter.name) :
    addEntry {} api binding.found = api.addParameter binding.parameter := by
  have hknown : api.hasParameter binding.name.text = false := by
    simpa [ScriptApi.hasParameter] using hnew
  have hparameter : undeclared binding.name.text (binding.found.2.map textValue) =
      binding.parameter := by
    obtain ⟨name, fallback⟩ := binding
    cases fallback <;> rfl
  have hevent : ∀ event, api.hasEvent event = false := by
    simp [ScriptApi.hasEvent, hevents]
  simp only [addEntry, Binding.found, ScriptApi.addDestructured, hknown, hevent,
    Bool.false_eq_true, ↓reduceIte]
  simp only [Binding.found] at hparameter
  rw [hparameter]
  cases eventName? ({} : Options).eventPrefix binding.name.text <;> rfl

theorem foldl_addEntry (bindings : List Binding) {api : ScriptApi} (hevents : api.events = [])
    (hdistinct : (api.parameters.map Parameter.name ++
      bindings.map fun binding => binding.name.text).Nodup) :
    (bindings.map Binding.found).foldl (addEntry {}) api =
      { api with parameters := api.parameters ++ bindings.map Binding.parameter } := by
  induction bindings generalizing api with
  | nil => simp
  | cons binding bindings ih =>
      have hnew : binding.name.text ∉ api.parameters.map Parameter.name := by
        intro hmem
        exact (List.nodup_append.mp hdistinct).2.2 _ hmem _ (by simp) rfl
      have hnext : (api.addParameter binding.parameter).events = [] := hevents
      rw [List.map_cons, List.foldl_cons, binding.addEntry_found hevents hnew, ih hnext]
      · simp [ScriptApi.addParameter]
      · simpa [ScriptApi.addParameter, Binding.parameter] using hdistinct

theorem foldl_addOperation_eq (founds : List FoundFunction) (api : ScriptApi) :
    founds.foldl (fun api found => api.addOperation (functionOperation found)) api =
      { api with operations := api.operations ++ founds.map functionOperation } := by
  induction founds generalizing api with
  | nil => simp
  | cons found founds ih =>
      rw [List.foldl_cons, ih, ScriptApi.addOperation, List.map_cons, List.append_assoc,
        List.singleton_append]

theorem foldl_addOperation (founds : List FoundFunction) (api : ScriptApi) :
    (founds.foldl (fun api found => api.addOperation (functionOperation found)) api).parameters =
      api.parameters := by
  rw [foldl_addOperation_eq]

/-- A script whose only declaration takes apart the properties has one parameter for each
binding.  Its default is the value of the text behind the equals sign, and without one it is
required. -/
theorem parameters_of_pattern (pattern : Pattern) (h : typeBody? "Props" pattern.text = none) :
    (ScriptApi.ofText {} pattern.text).parameters = pattern.bindings.map Binding.parameter := by
  have hbody : typeBody? ({} : Options).propsTypeName pattern.text = none := h
  have hpatterns : destructuredTexts ({} : Options).propsRune pattern.text = [pattern.content] :=
    pattern.destructuredTexts_text
  have hrest : ∀ api, (pattern.rest.map fun name =>
      ((⟨true, name.text, false, none⟩, none) : FoundBinding × Option Text)).toList.foldl
        (addEntry {}) api = api := by
    intro api
    cases pattern.rest <;> rfl
  rw [ScriptApi.ofText, hbody, hpatterns]
  simp only [Option.map_none, Option.getD_none, List.foldl_nil, List.isEmpty_cons,
    Bool.false_eq_true, ↓reduceIte, List.flatMap_singleton]
  rw [foldl_addOperation, pattern.entries_content, Pattern.found, List.foldl_append, hrest,
    foldl_addEntry _ rfl (by simpa using pattern.isDistinct)]
  rfl

def arrowDefault : Default where
  text := "(a, b) => \x7b go('\x7d,', [a]) \x7d"
  ne_nil := by decide
  isTrimmed := by decide
  isNested := by decide
  noDeclaration := by decide

def pickerPattern : Pattern where
  bindings := [⟨⟨"pick", by decide⟩, some arrowDefault⟩, ⟨⟨"label", by decide⟩, none⟩]
  rest := some ⟨"others", by decide⟩
  isDistinct := by decide

theorem parameters_of_pickerPattern :
    pickerPattern.text =
      ("let \x7b pick = (a, b) => \x7b go('\x7d,', [a]) \x7d, label, ...others \x7d = $props();"
        : Text) ∧
    typeBody? "Props" pickerPattern.text = none ∧
    (ScriptApi.ofText {} pickerPattern.text).parameters =
      [{ name := "pick", type := "unknown", required := false,
         fallback := some (textValue "(a, b) => \x7b go('\x7d,', [a]) \x7d") },
       { name := "label", type := "unknown", required := true }] :=
  have hbody : typeBody? "Props" pickerPattern.text = none := by decide +kernel
  ⟨by decide, hbody, parameters_of_pattern pickerPattern hbody⟩

end Fallback

end ComponentDocs
