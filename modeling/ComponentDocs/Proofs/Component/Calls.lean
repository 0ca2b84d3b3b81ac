import ComponentDocs.Proofs.Component.Dispatch
import ComponentDocs.Proofs.Text.Identifiers
import ComponentDocs.Proofs.Text.Marks

/-!
# Calls that are reported

A call with a literal is reported wherever it stands in a template or a script, if a word
starts or ends where the name of the function does.  A dollar sign is no word character, so
a function whose name starts with one is called there only behind a word.
-/

namespace ComponentDocs.Component

open Text (atBoundary isNameCharacter isNameCharacter_of_isNameText isNameText)

section Passing

variable {function : Text}

theorem CallAhead.isPrefix {previous : Option Char} {text : Text}
    (h : CallAhead function previous text) : function <+: text := by
  obtain ⟨-, call, name, behind, ⟨gap, inner, quote, -, -, -, rfl⟩, rfl⟩ := h
  rw [List.append_assoc]
  exact List.prefix_append _ _

theorem dispatches_pass {before text : Text} (previous : Option Char)
    (h : ∀ back, back ≠ [] → back <:+ before → ¬function <+: back ++ text) :
    dispatches function previous 0 (before ++ text) =
      dispatches function (before.getLast?.or previous) 0 text := by
  induction before generalizing previous with
  | nil => rfl
  | cons c before ih =>
      have hother : ¬CallAhead function previous (c :: (before ++ text)) := fun hahead =>
        h (c :: before) (List.cons_ne_nil _ _) (List.suffix_refl _) hahead.isPrefix
      have hlast : (c :: before).getLast?.or previous = before.getLast?.or (some c) := by
        rw [List.getLast?_cons]
        cases before.getLast? <;> rfl
      rw [List.cons_append, dispatches_other hother, hlast]
      apply ih
      intro back hne hback
      exact h back hne (hback.trans (List.suffix_cons c before))

theorem dispatches_eq_nil {text : Text} (previous : Option Char) (h : ¬function <:+: text) :
    dispatches function previous 0 text = [] := by
  have hpass : dispatches function previous 0 (text ++ []) =
      dispatches function (text.getLast?.or previous) 0 [] := by
    apply dispatches_pass
    intro back _ hback hstart
    rw [List.append_nil] at hstart
    exact h (hstart.isInfix.trans hback.isInfix)
  rwa [List.append_nil] at hpass

theorem dispatches_before {before text : Text} (habsent : ¬function <:+: before)
    (hends : ∀ c ∈ before.getLast?, c ∉ function) :
    dispatches function none 0 (before ++ text) =
      dispatches function before.getLast? 0 text := by
  rw [dispatches_pass, Option.or_none]
  intro back hne hback hstart
  obtain ⟨front, mark, rfl⟩ := (List.eq_nil_or_concat' back).resolve_left hne
  have hmark : mark ∉ function := by
    apply hends
    obtain ⟨more, rfl⟩ := hback
    simp
  rw [List.append_assoc] at hstart
  have hfront := Text.isPrefix_of_append_cons hmark hstart
  exact habsent (hfront.isInfix.trans ((List.prefix_append _ _).isInfix.trans hback.isInfix))

end Passing

def literalArgument (name : Text) : Text :=
  '(' :: '\'' :: (name ++ ['\'', ')'])

theorem isCall_literal (function : Text) {name : Text} (hname : name ≠ []) (hquote : '\'' ∉ name) :
    IsCall function (function ++ '(' :: '\'' :: (name ++ ['\''])) name := by
  have hliteral : IsLiteral '\'' name :=
    ⟨by decide, hname, hquote, fun haccent => absurd haccent (by decide)⟩
  exact ⟨[], [], '\'', rfl, rfl, hliteral, rfl⟩

section Calls

variable {function before name : Text}

theorem dispatches_found (hname : name ≠ []) (hquote : '\'' ∉ name) (hne : function ≠ [])
    (habsent : ¬function <:+: before) (hends : ∀ c ∈ before.getLast?, c ∉ function)
    (hboundary : atBoundary before.getLast? function = true) (behind : Text) :
    name ∈ dispatches function none 0
      (before ++ (function ++ (literalArgument name ++ behind))) := by
  have hcall := isCall_literal function hname hquote
  have htext : function ++ (literalArgument name ++ behind) =
      (function ++ '(' :: '\'' :: (name ++ ['\''])) ++ ')' :: behind := by
    simp [literalArgument]
  have hstart : atBoundary before.getLast?
      ((function ++ '(' :: '\'' :: (name ++ ['\''])) ++ ')' :: behind) = true := by
    obtain ⟨c, rest, rfl⟩ := List.exists_cons_of_ne_nil hne
    exact hboundary
  rw [dispatches_before habsent hends, htext, dispatches_call _ hstart hcall]
  exact List.mem_cons_self ..

theorem dispatches_missed (hparen : '(' ∉ function) (hne : function ≠ [])
    (habsent : ¬function <:+: before) (hends : ∀ c ∈ before.getLast?, c ∉ function)
    (hboundary : atBoundary before.getLast? function = false) {behind : Text}
    (hbehind : ¬function <:+: literalArgument name ++ behind) :
    dispatches function none 0 (before ++ (function ++ (literalArgument name ++ behind))) = [] := by
  obtain ⟨c, rest, rfl⟩ := List.exists_cons_of_ne_nil hne
  have hother : ¬CallAhead (c :: rest) before.getLast?
      (c :: (rest ++ (literalArgument name ++ behind))) := by
    rintro ⟨hstart, -⟩
    have hstart : atBoundary before.getLast? (c :: rest) = true := hstart
    rw [hboundary] at hstart
    contradiction
  rw [dispatches_before habsent hends, List.cons_append, dispatches_other hother, dispatches_pass,
    dispatches_eq_nil _ hbehind]
  -- a name that starts within another one would go on with the parenthesis
  intro back _ hback hstart
  have hshort : c :: rest <+: back := Text.isPrefix_of_append_cons hparen hstart
  have hlength := hshort.length_le
  have hlength' := hback.length_le
  rw [List.length_cons] at hlength
  omega

end Calls

theorem dispatched_mem_events {options : Options} {template script name : Text} :
    Event.dispatched name ∈ (TemplateApi.scan options template script).events ↔
      name ∈ dispatches options.dispatchFunction none 0 template ∨
        name ∈ dispatches options.dispatchFunction none 0 script := by
  have hinjective : Function.Injective Event.dispatched := fun first second h =>
    congrArg Event.name h
  simp [TemplateApi.scan, dispatchedEvents, List.mem_map_of_injective hinjective,
    Text.mem_firstOccurrences]

/-- A call with a literal is reported, if its function is named at a word boundary, whether it
stands in the template or in the script.  Otherwise it adds nothing. -/
theorem literal_call_reported (options : Options) (before name behind other : Text)
    (hfunction : isNameText options.dispatchFunction = true) (hname : name ≠ [])
    (hquote : '\'' ∉ name) (habsent : ¬options.dispatchFunction <:+: before)
    (hends : ∀ c ∈ before.getLast?, isNameCharacter c = false) :
    let text := before ++ (options.dispatchFunction ++ (literalArgument name ++ behind))
    (atBoundary before.getLast? options.dispatchFunction = true →
      Event.dispatched name ∈ (TemplateApi.scan options text other).events ∧
      Event.dispatched name ∈ (TemplateApi.scan options other text).events) ∧
    (atBoundary before.getLast? options.dispatchFunction = false →
      ¬options.dispatchFunction <:+: literalArgument name ++ behind →
        (TemplateApi.scan options text other).events = (TemplateApi.scan options [] other).events ∧
        (TemplateApi.scan options other text).events =
          (TemplateApi.scan options other []).events) := by
  intro text
  have hcharacters := isNameCharacter_of_isNameText hfunction
  have hne : options.dispatchFunction ≠ [] := by
    rintro hnil
    rw [hnil] at hfunction
    contradiction
  have hforeign : ∀ c, isNameCharacter c = false → c ∉ options.dispatchFunction := by
    intro c hc hmem
    rw [hcharacters c hmem] at hc
    contradiction
  have hapart : ∀ c ∈ before.getLast?, c ∉ options.dispatchFunction := fun c hc =>
    hforeign c (hends c hc)
  constructor
  · intro hboundary
    have hfound := dispatches_found hname hquote hne habsent hapart hboundary behind
    exact ⟨dispatched_mem_events.mpr (.inl hfound), dispatched_mem_events.mpr (.inr hfound)⟩
  · intro hboundary hbehind
    have hmissed : dispatches options.dispatchFunction none 0 text =
        dispatches options.dispatchFunction none 0 [] :=
      dispatches_missed (hforeign '(' (by decide)) hne habsent hapart hboundary hbehind
    simp [TemplateApi.scan, dispatchedEvents, hmissed]

def buttonText : Text :=
  "<b on:click=\x7b() => dispatch('save')\x7d/>"

theorem literal_call_reported_button :
    let options : Options := { dispatchFunction := "$emit" }
    isNameText ({} : Options).dispatchFunction = true ∧
    isNameText options.dispatchFunction = true ∧
    Event.dispatched "save" ∈ (TemplateApi.scan {} buttonText []).events ∧
    Event.dispatched "save" ∈ (TemplateApi.scan {} [] buttonText).events ∧
    (TemplateApi.scan options "$emit('save');" []).events =
      (TemplateApi.scan options [] []).events := by
  intro options
  have hfound := literal_call_reported {} "<b on:click=\x7b() => " "save" "\x7d/>" []
    (by decide) (by decide) (by decide) (by decide) (by decide)
  have hmissed := literal_call_reported options [] "save" ";" []
    (by decide) (by decide) (by decide) (by decide) (by decide)
  exact ⟨by decide, by decide, (hfound.1 rfl).1, (hfound.1 rfl).2,
    (hmissed.2 rfl (by decide)).1⟩

/-- A function with a dollar sign in front is called in vain. -/
theorem dollar_call_not_reported :
    let options : Options := { dispatchFunction := "$emit" }
    isNameText options.dispatchFunction = true ∧
    Event.dispatched "save" ∉ (TemplateApi.scan options "$emit('save')" []).events ∧
    Event.dispatched "save" ∉ (TemplateApi.scan options [] "$emit('save')").events := by
  decide

end ComponentDocs.Component
