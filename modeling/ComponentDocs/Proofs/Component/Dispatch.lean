import ComponentDocs.Component.Extract
import ComponentDocs.Proofs.Component.Members
import ComponentDocs.Proofs.Folds
import ComponentDocs.Proofs.Types.Dependencies
import Mathlib.Data.List.Pairwise

/-!
# Events of a component

The events of a component are those that its script declares, and behind them those that
calls dispatch.  A call is described here by how it is written, so that the scanner is
compared with the calls that stand in a text.
-/

namespace ComponentDocs

variable {text : Text}

namespace Text

theorem until?_eq_some_iff {mark : Char} {before behind : Text} :
    until? mark text = some (before, behind) ↔ text = before ++ mark :: behind ∧ mark ∉ before := by
  induction text generalizing before with
  | nil => simp [until?, cutAt?]
  | cons c text ih =>
      rw [until?, cutAt?]
      split
      · next hc =>
          obtain rfl : c = mark := by simpa using hc
          cases before with
          | nil => simp
          | cons d before =>
              simp only [Option.some.injEq, Prod.mk.injEq, List.nil_eq, reduceCtorEq, false_and,
                List.cons_append, List.cons.injEq, List.mem_cons, not_or, false_iff, not_and]
              rintro ⟨rfl, -⟩ hne
              exact absurd rfl hne
      · next hc =>
          have hne : mark ≠ c := by
            rintro rfl
            exact hc (beq_self_eq_true mark)
          cases before with
          | nil => simp [hne.symm]
          | cons d before =>
              rw [until?] at ih
              simp only [Option.map_eq_some_iff, Prod.exists, Prod.mk.injEq, List.cons.injEq,
                List.cons_append, List.mem_cons, not_or]
              constructor
              · rintro ⟨front, back, hrest, ⟨rfl, rfl⟩, rfl⟩
                obtain ⟨htext, hmark⟩ := ih.mp hrest
                exact ⟨⟨rfl, htext⟩, hne, hmark⟩
              · rintro ⟨⟨rfl, htext⟩, -, hmark⟩
                exact ⟨before, behind, ih.mpr ⟨htext, hmark⟩, ⟨rfl, rfl⟩, rfl⟩

theorem trimStart_eq_cons_iff {c : Char} {rest : Text} (hc : isSpace c = false) :
    trimStart text = c :: rest ↔ ∃ gap, isBlank gap = true ∧ text = gap ++ c :: rest := by
  constructor
  · intro h
    refine ⟨text.takeWhile isSpace, List.all_takeWhile, ?_⟩
    rw [← h]
    exact List.takeWhile_append_dropWhile.symm
  · rintro ⟨gap, hgap, rfl⟩
    rw [trimStart, List.dropWhile_append_of_pos (List.all_eq_true.mp hgap)]
    simp [hc]

end Text

namespace Component

open Text (isBlank atBoundary)

/-- A literal that can name an event. -/
structure IsLiteral (quote : Char) (name : Text) : Prop where
  isQuote : quote = '"' ∨ quote = '\'' ∨ quote = '\x60'
  name_ne_nil : name ≠ []
  closed : quote ∉ name
  plain : quote = '\x60' → '$' ∉ name

/-- A call of the function, up to the literal that it is given first. -/
def IsCall (function call name : Text) : Prop :=
  ∃ gap inner quote, isBlank gap = true ∧ isBlank inner = true ∧ IsLiteral quote name ∧
    call = function ++ (gap ++ '(' :: (inner ++ quote :: (name ++ [quote])))

def CallAhead (function : Text) (previous : Option Char) (text : Text) : Prop :=
  atBoundary previous text = true ∧
    ∃ call name behind, IsCall function call name ∧ text = call ++ behind

/-- The names that the calls in a text dispatch, from left to right.  A call is passed over
as a whole, and where none starts, a character is. -/
inductive CallSites (function : Text) : Option Char → Text → List Text → Prop
  | nil (previous : Option Char) : CallSites function previous [] []
  | call {previous : Option Char} {call name behind : Text} {names : List Text} :
      atBoundary previous (call ++ behind) = true → IsCall function call name →
        CallSites function call.getLast? behind names →
          CallSites function previous (call ++ behind) (name :: names)
  | other {previous : Option Char} {c : Char} {rest : Text} {names : List Text} :
      ¬CallAhead function previous (c :: rest) → CallSites function (some c) rest names →
        CallSites function previous (c :: rest) names

variable {name function : Text} {previous : Option Char} {api : ScriptApi}

theorem quotedName?_eq_some_iff {behind : Text} :
    quotedName? text = some (name, behind) ↔
      ∃ quote, IsLiteral quote name ∧ text = quote :: (name ++ quote :: behind) := by
  unfold quotedName?
  cases text with
  | nil => simp
  | cons quote rest =>
      dsimp only
      constructor
      · intro h
        split at h
        · next hquote =>
            split at h
            · next found after huntil =>
                obtain ⟨hrest, hclosed⟩ := Text.until?_eq_some_iff.mp huntil
                split at h
                · contradiction
                · next hplain =>
                    cases h
                    simp only [Bool.or_eq_true, List.isEmpty_iff, Bool.and_eq_true, beq_iff_eq,
                      List.any_eq_true, not_or, not_and, not_exists] at hplain
                    refine ⟨quote, ⟨by simpa [or_assoc] using hquote, hplain.1, hclosed, ?_⟩, ?_⟩
                    · exact fun haccent hdollar => hplain.2 haccent _ hdollar rfl
                    · rw [hrest]
            · contradiction
        · contradiction
      · rintro ⟨other, hliteral, htext⟩
        cases htext
        have hquote : (quote == '"' || quote == '\'' || quote == '\x60') = true := by
          simpa [or_assoc] using hliteral.isQuote
        have hplain : (name.isEmpty || (quote == '\x60' && name.any (· == '$'))) = false := by
          rw [Bool.or_eq_false_iff]
          refine ⟨by simpa using hliteral.name_ne_nil, Bool.and_eq_false_imp.mpr ?_⟩
          intro haccent
          rw [Bool.eq_false_iff, ne_eq, List.any_eq_true]
          rintro ⟨c, hc, hdollar⟩
          obtain rfl : c = '$' := by simpa using hdollar
          exact hliteral.plain (by simpa using haccent) hc
        rw [if_pos hquote, Text.until?_eq_some_iff.mpr ⟨rfl, hliteral.closed⟩]
        simp [hplain]

theorem IsLiteral.isSpace_quote {quote : Char} (h : IsLiteral quote name) :
    Text.isSpace quote = false := by
  rcases h.isQuote with rfl | rfl | rfl <;> decide

theorem dispatchAt?_eq_some_iff {count : Nat} :
    dispatchAt? function text = some (name, count) ↔
      ∃ call behind, IsCall function call name ∧ text = call ++ behind ∧ count = call.length := by
  have hparen : "(".toList = ['('] := rfl
  simp only [dispatchAt?, Option.bind_eq_bind, Option.bind_eq_some_iff, Option.pure_def,
    Option.some.injEq, Prod.exists, Prod.mk.injEq, Text.after?_eq_some_iff,
    quotedName?_eq_some_iff, hparen, List.cons_append, List.nil_append]
  constructor
  · rintro ⟨first, rfl, second, hopen, found, behind, ⟨quote, hliteral, hquoted⟩, rfl, rfl⟩
    obtain ⟨gap, hgap, rfl⟩ := (Text.trimStart_eq_cons_iff (by decide)).mp hopen
    obtain ⟨inner, hinner, rfl⟩ := (Text.trimStart_eq_cons_iff hliteral.isSpace_quote).mp hquoted
    refine ⟨_, behind, ⟨gap, inner, quote, hgap, hinner, hliteral, rfl⟩, by simp, ?_⟩
    simp only [List.length_append, List.length_cons, List.length_nil]
    omega
  · rintro ⟨call, behind, ⟨gap, inner, quote, hgap, hinner, hliteral, rfl⟩, rfl, rfl⟩
    refine ⟨_, by rw [List.append_assoc], inner ++ quote :: (name ++ quote :: behind),
      (Text.trimStart_eq_cons_iff (by decide)).mpr ⟨gap, hgap, by simp⟩, name, behind,
      ⟨quote, hliteral, ?_⟩, rfl, ?_⟩
    · exact (Text.trimStart_eq_cons_iff hliteral.isSpace_quote).mpr ⟨inner, hinner, by simp⟩
    · simp only [List.length_append, List.length_cons, List.length_nil]
      omega

theorem IsCall.exists_cons {call : Text} (h : IsCall function call name) :
    ∃ c rest, call = c :: rest := by
  obtain ⟨gap, inner, quote, -, -, -, rfl⟩ := h
  apply List.exists_cons_of_ne_nil
  simp

theorem dispatches_skip (function : Text) (c : Char) (call behind : Text) :
    dispatches function (some c) call.length (call ++ behind) =
      dispatches function (c :: call).getLast? 0 behind := by
  induction call generalizing c with
  | nil => rfl
  | cons d call ih =>
      rw [List.length_cons, List.cons_append, dispatches, ih, List.getLast?_cons_cons]

theorem dispatches_call {call : Text} (behind : Text)
    (hboundary : atBoundary previous (call ++ behind) = true) (hcall : IsCall function call name) :
    dispatches function previous 0 (call ++ behind) =
      name :: dispatches function call.getLast? 0 behind := by
  have hfound := dispatchAt?_eq_some_iff.mpr ⟨call, behind, hcall, rfl, rfl⟩
  obtain ⟨c, rest, rfl⟩ := hcall.exists_cons
  rw [List.cons_append] at hboundary hfound ⊢
  rw [dispatches, if_pos hboundary, hfound]
  exact congrArg (name :: ·) (dispatches_skip function c rest behind)

theorem dispatches_other {c : Char} {rest : Text} (h : ¬CallAhead function previous (c :: rest)) :
    dispatches function previous 0 (c :: rest) = dispatches function (some c) 0 rest := by
  have hnone : (if atBoundary previous (c :: rest) then dispatchAt? function (c :: rest)
      else none) = none := by
    split
    · next hboundary =>
        rw [Option.eq_none_iff_forall_ne_some]
        rintro ⟨name, count⟩ hfound
        obtain ⟨call, behind, hcall, htext, -⟩ := dispatchAt?_eq_some_iff.mp hfound
        exact h ⟨hboundary, call, name, behind, hcall, htext⟩
    · rfl
  rw [dispatches, hnone]

theorem callSites_iff {names : List Text} :
    CallSites function previous text names ↔ names = dispatches function previous 0 text := by
  constructor
  · intro h
    induction h with
    | nil previous => rfl
    | call hboundary hcall _ ih => rw [dispatches_call _ hboundary hcall, ← ih]
    | other hother _ ih => rw [dispatches_other hother, ← ih]
  · rintro rfl
    -- a call is longer than one character, so the induction is on the length
    induction hlength : text.length using Nat.strong_induction_on generalizing previous text with
    | _ length ih =>
        cases text with
        | nil => exact .nil previous
        | cons c rest =>
            by_cases hahead : CallAhead function previous (c :: rest)
            · obtain ⟨hboundary, call, name, behind, hcall, htext⟩ := hahead
              rw [htext] at hboundary ⊢
              rw [dispatches_call behind hboundary hcall]
              refine .call hboundary hcall (ih behind.length ?_ rfl)
              obtain ⟨d, more, rfl⟩ := hcall.exists_cons
              rw [← hlength, htext, List.length_append, List.length_cons]
              omega
            · rw [dispatches_other hahead]
              refine .other hahead (ih rest.length ?_ rfl)
              rw [← hlength, List.length_cons]
              omega

/-! ## Declared events -/

/-- The events that the script of a component declares, as the strategy that can read the
script finds them. -/
def scriptEvents (options : Options) (sections : Sections) : List Event :=
  if sections.hasScript then
    match Script.parse? Script.Language.ofComponents sections.script with
    | some script => (ScriptApi.ofTree options sections.script script).events
    | none => (ScriptApi.ofText options sections.script).events
  else []

theorem events_ofSource (options : Options) (metadata : Metadata) (source : Text) :
    (Api.ofSource options metadata source).events =
      mergeEvents (scriptEvents options (Sections.ofSource source))
        (dispatchedEvents options (Sections.ofSource source).template
          (Sections.ofSource source).script) := by
  unfold Api.ofSource scriptEvents readScript
  dsimp only
  split
  · cases Script.parse? Script.Language.ofComponents (Sections.ofSource source).script <;> rfl
  · rfl

def ScriptApi.OnlyCallbacks (api : ScriptApi) : Prop :=
  ∀ event ∈ api.events, event.source = .callback

namespace ScriptApi.OnlyCallbacks

theorem of_events_eq {next : ScriptApi} (h : api.OnlyCallbacks)
    (hevents : next.events = api.events) : next.OnlyCallbacks := by
  rw [OnlyCallbacks, hevents]
  exact h

theorem addEvent (h : api.OnlyCallbacks) {event : Event}
    (hevent : event.source = .callback) : (api.addEvent event).OnlyCallbacks := by
  intro other hother
  rcases List.mem_append.mp hother with hold | hnew
  · exact h other hold
  · rw [List.mem_singleton.mp hnew, hevent]

theorem foldl {α : Type} {add : ScriptApi → α → ScriptApi} (h : api.OnlyCallbacks)
    (hadd : ∀ api value, api.OnlyCallbacks →
      (add api value).OnlyCallbacks) (values : List α) : (values.foldl add api).OnlyCallbacks := by
  induction values generalizing api with
  | nil => exact h
  | cons value values ih => exact ih (hadd api value h)

end ScriptApi.OnlyCallbacks

theorem events_addDestructured (options : Options) (api : ScriptApi) (name : Text)
    (fallback : Option Json) :
    (api.addDestructured options name fallback).events = api.events := by
  unfold ScriptApi.addDestructured
  split
  · rfl
  · split
    · split <;> rfl
    · rfl

theorem onlyCallbacks_addMember (options : Options) (source : Text) (script : Script.Program)
    (h : api.OnlyCallbacks) (member : Script.Member) :
    (addMember options source script api member).OnlyCallbacks := by
  rcases addMember_cases options source script api member with ⟨-, hadd⟩ |
    ⟨property, -, -, ⟨parameter, -, -, hadd⟩ | ⟨event, hof, hadd⟩⟩
  · exact h.of_events_eq (by rw [hadd]; rfl)
  · exact h.of_events_eq (by rw [hadd]; rfl)
  · rw [hadd]
    exact h.addEvent hof.source

theorem onlyCallbacks_addMemberText (options : Options) (h : api.OnlyCallbacks)
    (found : MemberText) :
    (addMemberText options api found).OnlyCallbacks := by
  unfold addMemberText
  split
  · exact h.of_events_eq rfl
  · split
    · exact h.addEvent rfl
    · exact h.of_events_eq rfl

theorem Walk.onlyCallbacks_addStatement (options : Options) (source : Text)
    (script : Script.Program) {walk : Walk} (h : walk.api.OnlyCallbacks)
    (statement : Script.Statement) :
    (walk.addStatement options source script statement).api.OnlyCallbacks := by
  unfold addStatement
  split
  · split
    · exact h.foldl (fun _ member hapi => onlyCallbacks_addMember options source script hapi member)
        _
    · exact h
  · have hrunes : ∀ declarators : List Script.Declarator,
        (declarators.foldl (addRune options) walk).api.events = walk.api.events := by
      intro declarators
      refine view_foldl (fun walk : Walk => walk.api.events) (fun walk declarator => ?_) _ walk
      unfold addRune
      split
      · split <;> rfl
      · rfl
    dsimp only
    split
    · exact h.of_events_eq (hrunes _)
    · exact h.of_events_eq (hrunes _)
  · exact h.of_events_eq rfl
  · exact h

theorem Walk.events_finish (options : Options) (source : Text) (script : Script.Program)
    (walk : Walk) : (walk.finish options source script).events = walk.api.events := by
  unfold finish
  split
  · refine view_foldl ScriptApi.events (fun api _ =>
      view_foldl ScriptApi.events (fun api declarator => ?_) _ api) _ _
    unfold addExported
    split
    · dsimp only
      split <;> rfl
    · rfl
    · rfl
  · refine view_foldl ScriptApi.events (fun api _ =>
      view_foldl ScriptApi.events (fun api property => ?_) _ api) _ _
    unfold addBinding
    split
    · rfl
    · exact events_addDestructured options api _ _

theorem onlyCallbacks_ofTree (options : Options) (source : Text) (script : Script.Program) :
    (ScriptApi.ofTree options source script).OnlyCallbacks := by
  suffices h : ∀ (statements : List Script.Statement) (walk : Walk), walk.api.OnlyCallbacks →
      (statements.foldl (Walk.addStatement options source script) walk).api.OnlyCallbacks from
    (h script.statements {} nofun).of_events_eq (Walk.events_finish options source script _)
  intro statements
  induction statements with
  | nil => exact fun walk hwalk => hwalk
  | cons statement statements ih =>
      exact fun walk hwalk =>
        ih _ (Walk.onlyCallbacks_addStatement options source script hwalk statement)

theorem onlyCallbacks_ofText (options : Options) (source : Text) :
    (ScriptApi.ofText options source).OnlyCallbacks := by
  have hstart : ScriptApi.OnlyCallbacks {} := nofun
  have hmembers := fun members : List MemberText =>
    hstart.foldl (fun _ found hapi => onlyCallbacks_addMemberText options hapi found) members
  unfold ScriptApi.ofText
  dsimp only
  apply ScriptApi.OnlyCallbacks.foldl
  · split
    · apply (hmembers _).foldl
      exact fun api found hapi => hapi.of_events_eq rfl
    · apply (hmembers _).foldl
      intro api entry hapi
      refine hapi.of_events_eq ?_
      unfold addEntry
      dsimp only
      split
      · rfl
      · exact events_addDestructured options api _ _
  · exact fun api found hapi => hapi.of_events_eq rfl

theorem source_of_mem_scriptEvents {options : Options} {sections : Sections} {event : Event}
    (h : event ∈ scriptEvents options sections) : event.source = .callback := by
  unfold scriptEvents at h
  split at h
  · split at h
    · exact onlyCallbacks_ofTree _ _ _ event h
    · exact onlyCallbacks_ofText _ _ event h
  · contradiction

/-! ## Merging -/

theorem pairwise_firstOccurrences (texts : List Text) :
    (Text.firstOccurrences texts).Pairwise fun text other =>
      texts.idxOf text < texts.idxOf other := by
  induction texts with
  | nil => exact .nil
  | cons first rest ih =>
      rw [Text.firstOccurrences, List.pairwise_cons]
      constructor
      · intro other hother
        have hne : other ≠ first := by simpa using (List.mem_filter.mp hother).2
        rw [List.idxOf_cons_self, List.idxOf_cons_ne _ hne.symm]
        exact Nat.succ_pos _
      · refine (ih.filter _).imp_of_mem fun {text other} htext hother hlt => ?_
        have hne : text ≠ first := by simpa using (List.mem_filter.mp htext).2
        have hother : other ≠ first := by simpa using (List.mem_filter.mp hother).2
        rw [List.idxOf_cons_ne _ hne.symm, List.idxOf_cons_ne _ hother.symm]
        omega

def newNames (declared : List Event) (names : List Text) : List Text :=
  (Text.firstOccurrences names).filter fun name => !declared.any fun known => known.name == name

theorem mem_newNames {declared : List Event} {names : List Text} :
    name ∈ newNames declared names ↔
      name ∈ names ∧ ∀ event ∈ declared, event.name ≠ name := by
  simp [newNames, Text.mem_firstOccurrences]

theorem mergeEvents_dispatched (declared : List Event) (names : List Text) :
    mergeEvents declared ((Text.firstOccurrences names).map Event.dispatched) =
      declared ++ (newNames declared names).map Event.dispatched := by
  rw [mergeEvents, List.filter_map]
  rfl

/--
The events of a component are those that its script declares, all of them callbacks, and
behind them one dispatched event for each further name among the calls in its template and
then in its script, in the order in which the names occur first.  So no dispatched event has
the name of another one or of a declared one, and every dispatched name is the name of an
event.
-/
theorem events_merged (options : Options) (metadata : Metadata) (source : Text) :
    let sections := Sections.ofSource source
    let events := (Api.ofSource options metadata source).events
    let declared := scriptEvents options sections
    ∃ inTemplate inScript added : List Text,
      (∀ names, CallSites options.dispatchFunction none sections.template names ↔
        names = inTemplate) ∧
      (∀ names, CallSites options.dispatchFunction none sections.script names ↔
        names = inScript) ∧
      events = declared ++ added.map (fun name =>
        { name, type := "dispatched", description := none, payload := some "any",
          source := .dispatch }) ∧
      (∀ event ∈ declared, event.source = .callback) ∧
      (∀ name, name ∈ added ↔
        name ∈ inTemplate ++ inScript ∧ ∀ event ∈ declared, event.name ≠ name) ∧
      added.Nodup ∧
      added.Pairwise (fun name other =>
        (inTemplate ++ inScript).idxOf name < (inTemplate ++ inScript).idxOf other) ∧
      ∀ name ∈ inTemplate ++ inScript, ∃ event ∈ events, event.name = name := by
  intro sections events declared
  let inTemplate := dispatches options.dispatchFunction none 0 sections.template
  let inScript := dispatches options.dispatchFunction none 0 sections.script
  let added := newNames declared (inTemplate ++ inScript)
  have hevents : events = declared ++ added.map Event.dispatched := by
    have hnames : dispatchedEvents options sections.template sections.script =
        (Text.firstOccurrences (inTemplate ++ inScript)).map Event.dispatched := by
      simp [dispatchedEvents, inTemplate, inScript]
    rw [← mergeEvents_dispatched, ← hnames]
    exact events_ofSource options metadata source
  refine ⟨inTemplate, inScript, added, fun _ => callSites_iff, fun _ => callSites_iff, hevents,
    fun _ => source_of_mem_scriptEvents, fun _ => mem_newNames,
    (Text.nodup_firstOccurrences _).filter _, (pairwise_firstOccurrences _).filter _, ?_⟩
  intro name hname
  by_cases hdeclared : ∃ event ∈ declared, event.name = name
  · obtain ⟨event, hevent, rfl⟩ := hdeclared
    exact ⟨event, hevents ▸ List.mem_append_left _ hevent, rfl⟩
  · have hadded : name ∈ added :=
      mem_newNames.mpr ⟨hname, fun event hevent heq => hdeclared ⟨event, hevent, heq⟩⟩
    refine ⟨Event.dispatched name, ?_, rfl⟩
    rw [hevents]
    exact List.mem_append_right _ (List.mem_map_of_mem hadded)

end Component

end ComponentDocs
