import ComponentDocs.Proofs.Folds
import ComponentDocs.Proofs.Text.Scan
import ComponentDocs.Proofs.Types.Statements

/-!
# Two views of the type of the properties

The members of the type of the properties are read twice: as the properties of a declared
type, and as the parameters and callbacks of a component.  Both readings account for the
same members.
-/

namespace ComponentDocs.Component

open ComponentDocs.Types
open Script hiding Property

/-- Whether a property is a callback: its name is the marker and at least one character. -/
def IsCallback (marker : Text) (property : Property) : Prop :=
  ∃ rest, rest ≠ [] ∧ property.name = marker ++ rest

structure Parameter.IsOf (parameter : Parameter) (property : Property) : Prop where
  name : parameter.name = property.name
  type : parameter.type = property.type
  required : parameter.required = !property.optional
  description : parameter.description = property.description
  fallback : parameter.fallback = none

structure Event.IsOf (marker : Text) (event : Event) (property : Property) : Prop where
  name : ∃ rest, rest ≠ [] ∧ property.name = marker ++ rest ∧ event.name = Text.lowercase rest
  type : event.type = property.type
  description : event.description = property.description
  source : event.source = .callback

/-- Properties that are dealt out in their order: each callback gives an event, and each
other property gives a parameter. -/
inductive Dealt (marker : Text) : List Property → List Parameter → List Event → Prop
  | nil : Dealt marker [] [] []
  | parameter {property : Property} {parameter : Parameter} {properties : List Property}
      {parameters : List Parameter} {events : List Event} :
      ¬IsCallback marker property → parameter.IsOf property →
        Dealt marker properties parameters events →
          Dealt marker (property :: properties) (parameter :: parameters) events
  | event {property : Property} {event : Event} {properties : List Property}
      {parameters : List Parameter} {events : List Event} :
      event.IsOf marker property → Dealt marker properties parameters events →
        Dealt marker (property :: properties) parameters (event :: events)

theorem eventName?_eq_some_iff {marker name event : Text} :
    eventName? marker name = some event ↔
      ∃ rest, rest ≠ [] ∧ name = marker ++ rest ∧ event = Text.lowercase rest := by
  unfold eventName?
  constructor
  · intro h
    split at h
    · next c rest hafter =>
        rw [Option.some.injEq] at h
        exact ⟨c :: rest, by simp, Text.after?_eq_some_iff.mp hafter, h.symm⟩
    · contradiction
  · rintro ⟨rest, hrest, hname, rfl⟩
    rw [Text.after?_eq_some_iff.mpr hname]
    cases rest with
    | nil => contradiction
    | cons c rest => rfl

theorem not_isCallback_of_eventName? {marker : Text} {property : Property}
    (h : eventName? marker property.name = none) : ¬IsCallback marker property := by
  rintro ⟨rest, hrest, hname⟩
  rw [eventName?_eq_some_iff.mpr ⟨rest, hrest, hname, rfl⟩] at h
  contradiction

def skipped (options : Options) (source : Text) (member : Member) : Text :=
  "Skipping unsupported member `" ++ member.span.normalText source ++ "` of " ++
    options.propsTypeName

theorem addMember_cases (options : Options) (source : Text) (script : Program) (api : ScriptApi)
    (member : Member) :
    (member.signature? source = none ∧
      addMember options source script api member = api.warn (skipped options source member)) ∨
    ∃ property, member.signature? source ≠ none ∧
      Types.property? source script member = some property ∧
      ((∃ parameter : Parameter, ¬IsCallback options.eventPrefix property ∧
          parameter.IsOf property ∧
          addMember options source script api member = api.addParameter parameter) ∨
        ∃ event : Event, event.IsOf options.eventPrefix property ∧
          addMember options source script api member = api.addEvent event) := by
  unfold addMember Types.property?
  cases hsignature : member.signature? source with
  | none => exact .inl ⟨rfl, rfl⟩
  | some signature =>
      refine .inr ⟨_, by simp, rfl, ?_⟩
      dsimp only
      cases hevent : eventName? options.eventPrefix signature.name with
      | none =>
          exact .inl ⟨_, not_isCallback_of_eventName? hevent, ⟨rfl, rfl, rfl, rfl, rfl⟩, rfl⟩
      | some event =>
          exact .inr ⟨_, ⟨eventName?_eq_some_iff.mp hevent, rfl, rfl, rfl⟩, rfl⟩

def skippedMembers (source : Text) (members : List Member) : List Member :=
  members.filter fun member => (member.signature? source).isNone

theorem foldl_addMember (options : Options) (source : Text) (script : Program)
    (members : List Member) (api : ScriptApi) :
    ∃ parameters events,
      Dealt options.eventPrefix (members.filterMap (Types.property? source script)) parameters
        events ∧
      members.foldl (addMember options source script) api =
        { api with
          parameters := api.parameters ++ parameters
          events := api.events ++ events
          warnings := api.warnings ++
            (skippedMembers source members).map (skipped options source) } := by
  induction members generalizing api with
  | nil => exact ⟨[], [], .nil, by simp [skippedMembers]⟩
  | cons member members ih =>
      rw [List.foldl_cons]
      rcases addMember_cases options source script api member with
        ⟨hsignature, hadd⟩ | ⟨property, hsignature, hproperty, hadd⟩
      · obtain ⟨parameters, events, hdealt, hfold⟩ := ih (api.warn (skipped options source member))
        refine ⟨parameters, events, ?_, ?_⟩
        · simpa [Types.property?, hsignature] using hdealt
        · rw [hadd, hfold]
          simp [ScriptApi.warn, skippedMembers, hsignature]
      · have hkept : (member.signature? source).isNone = false := by
          simpa [Option.isSome_iff_ne_none] using hsignature
        rw [List.filterMap_cons_some hproperty]
        rcases hadd with ⟨parameter, hcallback, hof, hadd⟩ | ⟨event, hof, hadd⟩
        · obtain ⟨parameters, events, hdealt, hfold⟩ := ih (api.addParameter parameter)
          refine ⟨parameter :: parameters, events, .parameter hcallback hof hdealt, ?_⟩
          rw [hadd, hfold]
          simp [ScriptApi.addParameter, skippedMembers, hkept]
        · obtain ⟨parameters, events, hdealt, hfold⟩ := ih (api.addEvent event)
          refine ⟨parameters, event :: events, .event hof hdealt, ?_⟩
          rw [hadd, hfold]
          simp [ScriptApi.addEvent, skippedMembers, hkept]

def isSkipped (options : Options) (warning : Text) : Bool :=
  "Skipping unsupported member `".toList.isPrefixOf warning &&
    ("` of " ++ options.propsTypeName).isSuffixOf warning

theorem isSkipped_skipped (options : Options) (source : Text) (member : Member) :
    isSkipped options (skipped options source member) = true := by
  unfold isSkipped skipped
  generalize "Skipping unsupported member `".toList = opening
  generalize "` of ".toList = joint
  rw [Bool.and_eq_true, List.isPrefixOf_iff_prefix, List.isSuffixOf_iff_suffix]
  constructor
  · simp only [List.append_assoc]
    exact List.prefix_append _ _
  · rw [List.append_assoc]
    exact List.suffix_append _ _

/-- A warning about properties that are not taken apart ends in other words, whatever the
options call these properties. -/
theorem isSkipped_rune {options : Options} (h : ' ' ∉ options.propsTypeName) :
    isSkipped options (options.propsRune ++ "() result is not destructured") = false := by
  simp only [isSkipped, Bool.and_eq_false_iff]
  right
  rw [Bool.eq_false_iff, ne_eq, List.isSuffixOf_iff_suffix]
  intro hsuffix
  have hend : " is not destructured".toList <:+
      options.propsRune ++ "() result is not destructured" :=
    List.suffix_append_of_suffix (by decide)
  rcases List.suffix_or_suffix_of_suffix hsuffix hend with hinner | hinner
  · have hquote : '`' ∈ " is not destructured".toList := hinner.subset (by simp)
    contradiction
  · -- three blanks would have to stand where there are only two
    have hblanks := hinner.sublist.count_le ' '
    rw [List.count_append, List.count_eq_zero_of_not_mem h] at hblanks
    exact absurd hblanks (by decide)

def ScriptApi.skips (options : Options) (api : ScriptApi) : Nat :=
  api.warnings.countP (isSkipped options)

theorem ScriptApi.skips_warn {options : Options} {warning : Text}
    (h : isSkipped options warning = false) (api : ScriptApi) :
    (api.warn warning).skips options = api.skips options := by
  simp [skips, warn, h]

theorem skips_addBinding (options : Options) (source : Text) (api : ScriptApi)
    (property : BindingProperty) :
    (addBinding options source api property).skips options = api.skips options := by
  unfold addBinding ScriptApi.addDestructured
  split
  · exact ScriptApi.skips_warn rfl api
  · split
    · rfl
    · split
      · split <;> rfl
      · rfl

theorem skips_addExported (options : Options) (source : Text) (description : Option Text)
    (api : ScriptApi) (declarator : Declarator) :
    (addExported source description api declarator).skips options = api.skips options := by
  unfold addExported
  split
  · dsimp only
    split <;> rfl
  · exact ScriptApi.skips_warn rfl api
  · exact ScriptApi.skips_warn rfl api

theorem Walk.skips_finish (options : Options) (source : Text) (script : Program) (walk : Walk) :
    (walk.finish options source script).skips options = walk.api.skips options := by
  unfold finish
  split
  · exact view_foldl (ScriptApi.skips options)
      (fun api _ => view_foldl (ScriptApi.skips options) (skips_addExported options source _) _ api)
      _ _
  · exact view_foldl (ScriptApi.skips options)
      (fun api _ => view_foldl (ScriptApi.skips options) (skips_addBinding options source) _ api)
      _ _

def declaresStruct (name : Text) (statement : Statement) : Bool :=
  match statement.form with
  | .struct declared _ _ => declared.text == name
  | _ => false

variable {statement : Statement}

theorem exists_struct {name : Text} (h : declaresStruct name statement = true) :
    ∃ declared isInterface members, statement.form = .struct declared isInterface members ∧
      declared.text = name := by
  unfold declaresStruct at h
  split at h
  · next declared isInterface members hform =>
      exact ⟨declared, isInterface, members, hform, by simpa using h⟩
  · contradiction

namespace Walk

structure Keeps (options : Options) (walk next : Walk) : Prop where
  parameters : next.api.parameters = walk.api.parameters
  events : next.api.events = walk.api.events
  skips : next.api.skips options = walk.api.skips options
  propsFound : next.propsFound = walk.propsFound

theorem Keeps.refl (options : Options) (walk : Walk) : Keeps options walk walk :=
  ⟨rfl, rfl, rfl, rfl⟩

variable {walk : Walk}

theorem Keeps.trans {options : Options} {next last : Walk} (h : Keeps options walk next)
    (hlast : Keeps options next last) : Keeps options walk last where
  parameters := hlast.parameters.trans h.parameters
  events := hlast.events.trans h.events
  skips := hlast.skips.trans h.skips
  propsFound := hlast.propsFound.trans h.propsFound

theorem keeps_addRune {options : Options} (hname : ' ' ∉ options.propsTypeName) (walk : Walk)
    (declarator : Declarator) : Keeps options walk (walk.addRune options declarator) := by
  unfold addRune
  split
  · split
    · exact ⟨rfl, rfl, rfl, rfl⟩
    · exact ⟨rfl, rfl, ScriptApi.skips_warn (isSkipped_rune hname) _, rfl⟩
    · exact ⟨rfl, rfl, ScriptApi.skips_warn (isSkipped_rune hname) _, rfl⟩
  · exact .refl options walk

theorem keeps_foldl {α : Type} {options : Options} {add : Walk → α → Walk} (values : List α)
    (walk : Walk) (h : ∀ next, next.propsFound = walk.propsFound → ∀ value ∈ values,
      Keeps options next (add next value)) : Keeps options walk (values.foldl add walk) := by
  induction values generalizing walk with
  | nil => exact .refl options walk
  | cons value values ih =>
      have hvalue := h walk rfl value (by simp)
      refine hvalue.trans (ih (add walk value) ?_)
      intro next hnext other hother
      exact h next (hnext.trans hvalue.propsFound) other (by simp [hother])

variable {options : Options} (source : Text) (script : Program)

theorem keeps_addStatement (hname : ' ' ∉ options.propsTypeName)
    (h : walk.propsFound = true ∨ declaresStruct options.propsTypeName statement = false) :
    Keeps options walk (walk.addStatement options source script statement) := by
  unfold addStatement
  unfold declaresStruct at h
  cases hform : statement.form with
  | struct name isInterface members =>
      rw [hform] at h
      have hother : (!walk.propsFound && name.text == options.propsTypeName) = false := by
        rcases h with hfound | hother
        · simp [hfound]
        · exact Bool.and_eq_false_imp.mpr fun _ => hother
      simp only [hother, Bool.false_eq_true, ↓reduceIte]
      exact .refl options walk
  | bindings isLet declarators =>
      have hrunes : Keeps options walk (declarators.foldl (addRune options) walk) :=
        keeps_foldl declarators walk fun next _ declarator _ => keeps_addRune hname next declarator
      dsimp only
      split
      · exact hrunes.trans ⟨rfl, rfl, rfl, rfl⟩
      · exact hrunes
  | function name signature => cases name <;> exact ⟨rfl, rfl, rfl, rfl⟩
  | _ => exact .refl options walk

theorem keeps_foldl_addStatement (hname : ' ' ∉ options.propsTypeName) {statements : List Statement}
    (h : walk.propsFound = true ∨
      ∀ statement ∈ statements, declaresStruct options.propsTypeName statement = false) :
    Keeps options walk (statements.foldl (addStatement options source script) walk) := by
  apply keeps_foldl
  intro next hnext statement hstatement
  apply keeps_addStatement source script hname
  rcases h with hfound | hother
  · exact .inl (hnext.trans hfound)
  · exact .inr (hother statement hstatement)

theorem addStatement_struct {name : Identifier} {isInterface : Bool} {members : List Member}
    (hfound : walk.propsFound = false) (hform : statement.form = .struct name isInterface members)
    (hname : name.text = options.propsTypeName) :
    walk.addStatement options source script statement =
      { walk with
        propsFound := true
        api := members.foldl (addMember options source script) walk.api } := by
  simp [addStatement, hform, hfound, hname]

/-- A walk finds what the members of the first type of the properties give, and nothing
else that is a parameter, an event or a warning about a member. -/
theorem foldl_addStatement_first {earlier : List Statement} {name : Identifier} {isInterface : Bool}
    {members : List Member} (later : List Statement)
    (hearlier : ∀ other ∈ earlier, declaresStruct options.propsTypeName other = false)
    (hform : statement.form = .struct name isInterface members)
    (hname : name.text = options.propsTypeName) :
    let walk := (earlier ++ statement :: later).foldl (addStatement options source script) {}
    Dealt options.eventPrefix (members.filterMap (Types.property? source script))
        walk.api.parameters walk.api.events ∧
      walk.api.skips options = (skippedMembers source members).length := by
  have hblank : ' ' ∉ options.propsTypeName := by
    intro hmem
    have hspelled := List.all_eq_true.mp name.spelled ' ' (hname ▸ hmem)
    exact absurd hspelled (by decide)
  rw [List.foldl_append, List.foldl_cons]
  have hbefore : Keeps options {} (earlier.foldl (addStatement options source script) {}) :=
    keeps_foldl_addStatement source script hblank (.inr hearlier)
  generalize earlier.foldl (addStatement options source script) {} = before at hbefore ⊢
  rw [addStatement_struct source script hbefore.propsFound hform hname]
  obtain ⟨parameters, events, hdealt, hfold⟩ :=
    foldl_addMember options source script members before.api
  intro walk
  have hafter : Keeps options _ walk := keeps_foldl_addStatement source script hblank (.inl rfl)
  have hskips : ((skippedMembers source members).map (skipped options source)).countP
      (isSkipped options) = (skippedMembers source members).length := by
    rw [List.countP_map, List.countP_eq_length]
    exact fun member _ => isSkipped_skipped options source member
  rw [hafter.parameters, hafter.events, hafter.skips, hfold]
  simp only [hbefore.parameters, hbefore.events]
  refine ⟨hdealt, ?_⟩
  have hnone : before.api.warnings.countP (isSkipped options) = 0 := hbefore.skips
  rw [ScriptApi.skips, List.countP_append, hnone, hskips, Nat.zero_add]

end Walk

/--
The properties that are recorded for the type of the properties are dealt out, in their
order, to the parameters and events that a walk finds before anything is merged, and each
member that is no property gives both a failure and a warning.
-/
theorem declared_members_agree {options : Options} {source path : Text} {script : Program}
    {statement : Statement} (hcomponent : isComponentPath path = true)
    (hscript : (Sections.ofSource source).hasScript = true)
    (hparse : parse? Language.ofComponents (Sections.ofSource source).script = some script)
    (hfirst : script.statements.find? (declaresStruct options.propsTypeName) = some statement) :
    let text := (Sections.ofSource source).script
    let recorded := Definitions.addStatement path text script {} statement
    let walk := script.statements.foldl (Walk.addStatement options text script) {}
    (recorded.structs <:+: (Definitions.ofSource source path).structs ∧
      recorded.failures <:+: (Definitions.ofSource source path).failures) ∧
    (∃ declaration properties, recorded.structs = [declaration] ∧
      declaration.name = options.propsTypeName ∧ declaration.shape = .struct properties ∧
      Dealt options.eventPrefix properties walk.api.parameters walk.api.events) ∧
    (∀ failure ∈ recorded.failures, failure.file = path ∧ failure.kind = .typing) ∧
    recorded.failures.length =
      (ScriptApi.ofTree options text script).warnings.countP (isSkipped options) := by
  intro text recorded walk
  obtain ⟨hdeclares, earlier, later, hstatements, hearlier⟩ :=
    List.find?_eq_some_iff_append.mp hfirst
  obtain ⟨name, isInterface, members, hform, hname⟩ := exists_struct hdeclares
  have hstructs : recorded.structs = structsOf text script statement :=
    Definitions.structs_addStatement path text script {} statement
  have hfailures : recorded.failures = failuresOf path text statement :=
    Definitions.failures_addStatement path text script {} statement
  have hwalk := Walk.foldl_addStatement_first text script later (by simpa using hearlier) hform
    hname
  rw [← hstatements] at hwalk
  obtain ⟨hdealt, hskips⟩ := hwalk
  rw [hstructs, hfailures]
  have hmem : statement ∈ script.statements := by simp [hstatements]
  refine ⟨Definitions.isInfix_ofSource hcomponent hscript hparse hmem, ?_, ?_, ?_⟩
  · refine ⟨structDeclaration text script statement name members, _, ?_, hname, rfl, hdealt⟩
    simp [structsOf, hform]
  · exact fun failure hfailure => of_mem_failuresOf hfailure
  · have hcount := Walk.skips_finish options text script walk
    rw [hskips] at hcount
    simp only [failuresOf, hform, memberFailures, List.length_map]
    exact hcount.symm

/-- Its type of the properties has a parameter, a callback and a member that is neither. -/
def sliderComponent : Text :=
  "<script>interface Props{size?:Size;onMove(by:Step):void;[key]:X}let{size=1}=$props()</script>"

theorem declared_members_agree_slider :
    let options : Options := {}
    let path : Text := "/Slider.svelte"
    let text := (Sections.ofSource sliderComponent).script
    ∃ script statement, parse? Language.ofComponents text = some script ∧
      script.statements.find? (declaresStruct options.propsTypeName) = some statement ∧
      let recorded := Definitions.addStatement path text script {} statement
      let walk := script.statements.foldl (Walk.addStatement options text script) {}
      (∃ declaration properties, recorded.structs = [declaration] ∧
        declaration.shape = .struct properties ∧
        Dealt options.eventPrefix properties walk.api.parameters walk.api.events) ∧
      recorded.failures.length = 1 := by
  intro options path text
  have hread : ((parse? Language.ofComponents text).bind fun script =>
      (script.statements.find? (declaresStruct options.propsTypeName)).map fun _ =>
        (ScriptApi.ofTree options text script).warnings.countP (isSkipped options)) = some 1 := by
    decide +kernel
  obtain ⟨script, hparse, hfound⟩ := Option.bind_eq_some_iff.mp hread
  obtain ⟨statement, hfirst, hwarnings⟩ := Option.map_eq_some_iff.mp hfound
  obtain ⟨-, ⟨declaration, properties, hstructs, -, hshape, hdealt⟩, -, hcount⟩ :=
    declared_members_agree (by decide : isComponentPath path = true)
      (by decide : (Sections.ofSource sliderComponent).hasScript = true) hparse hfirst
  exact ⟨script, statement, hparse, hfirst, ⟨declaration, properties, hstructs, hshape, hdealt⟩,
    hcount.trans hwarnings⟩

end ComponentDocs.Component
