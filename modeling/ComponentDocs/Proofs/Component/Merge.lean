import ComponentDocs.Proofs.Component.Contributions
import ComponentDocs.Proofs.Component.Members

/-!
# Declared, destructured and exported parameters

The parameters of a script are those that the type of the properties declares.  Behind them
come the names that only a pattern mentions or, where no pattern takes apart the properties,
the names of exported variables.
-/

namespace ComponentDocs.Component

open Script hiding Parameter

def bindingContribution? (source : Text) (property : BindingProperty) : Option Contribution :=
  property.key.name?.map fun name =>
    ⟨name, unknownType, property.fallback.map (exprValue source), none⟩

def exportContribution? (source : Text) (description : Option Text) (declarator : Declarator) :
    Option Contribution :=
  (boundName? declarator.binding).map fun name =>
    ⟨name, TypeNode.textOr source unknownType declarator.declaredType,
      declarator.init.map (exprValue source), description⟩

def pattern? (options : Options) (declarator : Declarator) : Option (List BindingProperty) :=
  match declarator.binding with
  | .object properties =>
      if isRuneCall options.propsRune declarator then some properties else none
  | .name _ | .array => none

def patternsOf (options : Options) (statement : Statement) : List (List BindingProperty) :=
  match statement.form with
  | .bindings _ declarators => declarators.filterMap (pattern? options)
  | _ => []

def exportsOf (statement : Statement) : List (List Declarator × Nat) :=
  match statement.form with
  | .bindings isLet declarators =>
      if statement.exported && isLet then [(declarators, statement.span.start)] else []
  | _ => []

def patterns (options : Options) (script : Program) : List (List BindingProperty) :=
  script.statements.flatMap (patternsOf options)

/-- What is contributed by all patterns that take apart the properties or, where there is
none, by exported variables. -/
def contributions (options : Options) (source : Text) (script : Program) : List Contribution :=
  if (patterns options script).isEmpty then
    (script.statements.flatMap exportsOf).flatMap fun (declarators, start) =>
      declarators.filterMap (exportContribution? source (script.summaryAt start))
  else (patterns options script).flatten.filterMap (bindingContribution? source)

def isListed (options : Options) (events : List Event) (name : Text) : Bool :=
  (eventName? options.eventPrefix name).any fun event =>
    events.any fun known => known.name == event

/-- Whether a name adds no parameter.  Patterns pass over the callbacks of listed events,
exported variables do not. -/
def passesOver (options : Options) (script : Program) (events : List Event) (name : Text) : Bool :=
  !(patterns options script).isEmpty && isListed options events name

structure Contributes (isPassedOver : Text → Bool) (api next : ScriptApi)
    (contributions : List Contribution) : Prop where
  parameters : next.parameters = contributions.foldl (contribute isPassedOver) api.parameters
  events : next.events = api.events
  warnings : api.warnings <+: next.warnings

theorem Contributes.refl (isPassedOver : Text → Bool) (api : ScriptApi) :
    Contributes isPassedOver api api [] :=
  ⟨rfl, rfl, List.prefix_rfl⟩

theorem contributes_foldl {α : Type} {add : ScriptApi → α → ScriptApi}
    {contribution? : α → Option Contribution} {isPassedOver : Text → Bool} (events : List Event)
    (h : ∀ api value, api.events = events →
      Contributes isPassedOver api (add api value) (contribution? value).toList)
    (values : List α) {api : ScriptApi} (hevents : api.events = events) :
    Contributes isPassedOver api (values.foldl add api) (values.filterMap contribution?) := by
  induction values generalizing api with
  | nil => exact .refl isPassedOver api
  | cons value values ih =>
      have hfirst := h api value hevents
      have hrest := ih (hfirst.events.trans hevents)
      refine ⟨?_, hrest.events.trans hfirst.events, hfirst.warnings.trans hrest.warnings⟩
      rw [List.foldl_cons, hrest.parameters, hfirst.parameters, ← List.foldl_append]
      cases hvalue : contribution? value <;> simp [hvalue]

theorem contributes_addDestructured (options : Options) (api : ScriptApi) (name : Text)
    (fallback : Option Json) :
    Contributes (isListed options api.events) api (api.addDestructured options name fallback)
      [⟨name, unknownType, fallback, none⟩] := by
  have hmerge : (Contribution.mk name unknownType fallback none).mergeInto =
      fun parameter => parameter.withFallback? fallback := by
    funext parameter
    simp [Contribution.mergeInto]
  rw [ScriptApi.addDestructured]
  cases hknown : api.hasParameter name with
  | true =>
      rw [ScriptApi.hasParameter] at hknown
      rw [if_pos rfl]
      refine ⟨?_, rfl, List.prefix_rfl⟩
      simp [contribute, hknown, hmerge, ScriptApi.updateParameter]
  | false =>
      rw [ScriptApi.hasParameter] at hknown
      rw [if_neg Bool.false_ne_true]
      cases hevent : eventName? options.eventPrefix name with
      | none =>
          refine ⟨?_, rfl, List.prefix_rfl⟩
          simp [contribute, hknown, isListed, hevent, ScriptApi.addParameter, undeclared,
            Contribution.parameter]
      | some event =>
          dsimp only
          cases hlisted : api.hasEvent event with
          | true =>
              rw [ScriptApi.hasEvent] at hlisted
              refine ⟨?_, rfl, List.prefix_rfl⟩
              simp [contribute, hknown, isListed, hevent, hlisted]
          | false =>
              rw [ScriptApi.hasEvent] at hlisted
              refine ⟨?_, rfl, List.prefix_rfl⟩
              simp [contribute, hknown, isListed, hevent, hlisted, ScriptApi.addParameter,
                undeclared, Contribution.parameter]

theorem contributes_addBinding (options : Options) (source : Text) (api : ScriptApi)
    (property : BindingProperty) :
    Contributes (isListed options api.events) api (addBinding options source api property)
      (bindingContribution? source property).toList := by
  unfold addBinding bindingContribution?
  cases property.key.name? with
  | none => exact ⟨rfl, rfl, List.prefix_append _ _⟩
  | some name => exact contributes_addDestructured options api name _

theorem contributes_addExported (source : Text) (description : Option Text) (api : ScriptApi)
    (declarator : Declarator) :
    Contributes (fun _ => false) api (addExported source description api declarator)
      (exportContribution? source description declarator).toList := by
  unfold addExported exportContribution?
  cases declarator.binding with
  | name name =>
      dsimp only [boundName?, Option.map_some, Option.toList_some]
      cases hknown : api.hasParameter name with
      | true =>
          rw [ScriptApi.hasParameter] at hknown
          refine ⟨?_, rfl, List.prefix_rfl⟩
          simp only [List.foldl_cons, List.foldl_nil, contribute, hknown, ↓reduceIte]
          rfl
      | false =>
          rw [ScriptApi.hasParameter] at hknown
          refine ⟨?_, rfl, List.prefix_rfl⟩
          simp [contribute, hknown, ScriptApi.addParameter, Contribution.parameter]
  | object | array => exact ⟨rfl, rfl, List.prefix_append _ _⟩

theorem Walk.contributes_finish (options : Options) (source : Text) (script : Program) (walk : Walk)
    (hdestructured : walk.destructured = patterns options script)
    (hexported : walk.exported = script.statements.flatMap exportsOf) :
    Contributes (passesOver options script walk.api.events) walk.api
      (walk.finish options source script) (contributions options source script) := by
  unfold finish contributions
  rw [hdestructured, hexported]
  cases hpatterns : (patterns options script).isEmpty with
  | true =>
      have hpasses : passesOver options script walk.api.events = fun _ => false := by
        funext name
        simp [passesOver, hpatterns]
      rw [hpasses]
      simp only [↓reduceIte]
      generalize script.statements.flatMap exportsOf = exported
      generalize walk.api = api
      induction exported generalizing api with
      | nil => exact .refl _ _
      | cons first exported ih =>
          obtain ⟨declarators, start⟩ := first
          have hfirst := contributes_foldl api.events
            (fun next declarator _ =>
              contributes_addExported source (script.summaryAt start) next declarator)
            declarators rfl
          have hrest := ih (declarators.foldl (addExported source (script.summaryAt start)) api)
          rw [List.foldl_cons, List.flatMap_cons]
          refine ⟨?_, hrest.events.trans hfirst.events, hfirst.warnings.trans hrest.warnings⟩
          rw [hrest.parameters, hfirst.parameters, List.foldl_append]
  | false =>
      have hpasses : passesOver options script walk.api.events =
          isListed options walk.api.events := by
        funext name
        simp [passesOver, hpatterns]
      rw [hpasses]
      simp only [Bool.false_eq_true, ↓reduceIte]
      rw [← List.foldl_flatten]
      refine contributes_foldl walk.api.events (fun next property hevents => ?_) _ rfl
      rw [← hevents]
      exact contributes_addBinding options source next property

def memberEvent? (options : Options) (source : Text) (script : Program) (member : Member) :
    Option Event :=
  (member.signature? source).bind fun signature =>
    (eventName? options.eventPrefix signature.name).map fun event =>
      { name := event, type := signature.type, description := script.summaryAt member.span.start
        payload := signature.payload, source := .callback }

def memberParameter? (options : Options) (source : Text) (script : Program) (member : Member) :
    Option Parameter :=
  (member.signature? source).bind fun signature =>
    match eventName? options.eventPrefix signature.name with
    | some _ => none
    | none =>
        some
          { name := signature.name, type := signature.type, required := !signature.optional
            description := script.summaryAt member.span.start }

def membersOf (statement : Statement) : List Member :=
  match statement.form with
  | .struct _ _ members => members
  | _ => []

def propsMembers (options : Options) (statements : List Statement) : List Member :=
  ((statements.find? (declaresStruct options.propsTypeName)).map membersOf).getD []

structure Declares (options : Options) (source : Text) (script : Program) (api next : ScriptApi)
    (members : List Member) : Prop where
  parameters : next.parameters =
    api.parameters ++ members.filterMap (memberParameter? options source script)
  events : next.events = api.events ++ members.filterMap (memberEvent? options source script)
  warnings : ∃ warnings, next.warnings = api.warnings ++ warnings ∧
    ((skippedMembers source members).map (skipped options source)).Sublist warnings

namespace Declares

variable {options : Options} {source : Text} {script : Program} {api next last : ScriptApi}

theorem none (hparameters : next.parameters = api.parameters) (hevents : next.events = api.events)
    (hwarnings : api.warnings <+: next.warnings) : Declares options source script api next [] := by
  obtain ⟨warnings, hwarnings⟩ := hwarnings
  exact ⟨by simpa using hparameters, by simpa using hevents, warnings, hwarnings.symm,
    List.nil_sublist _⟩

theorem trans {members others : List Member} (hfirst : Declares options source script api next
    members) (hsecond : Declares options source script next last others) :
    Declares options source script api last (members ++ others) := by
  obtain ⟨first, hfirstWarnings, hfirstSublist⟩ := hfirst.warnings
  obtain ⟨second, hsecondWarnings, hsecondSublist⟩ := hsecond.warnings
  refine ⟨?_, ?_, first ++ second, ?_, ?_⟩
  · rw [hsecond.parameters, hfirst.parameters, List.filterMap_append, List.append_assoc]
  · rw [hsecond.events, hfirst.events, List.filterMap_append, List.append_assoc]
  · rw [hsecondWarnings, hfirstWarnings, List.append_assoc]
  · rw [skippedMembers, List.filter_append, List.map_append]
    exact hfirstSublist.append hsecondSublist

theorem addMember (options : Options) (source : Text) (script : Program) (api : ScriptApi)
    (member : Member) :
    Declares options source script api (addMember options source script api member) [member] := by
  unfold Component.addMember
  cases hsignature : member.signature? source with
  | none =>
      refine ⟨?_, ?_, [skipped options source member], rfl, ?_⟩
      · simp [memberParameter?, hsignature, ScriptApi.warn]
      · simp [memberEvent?, hsignature, ScriptApi.warn]
      · simp [skippedMembers, hsignature]
  | some signature =>
      cases hevent : eventName? options.eventPrefix signature.name <;>
        exact ⟨by simp [memberParameter?, hsignature, hevent, ScriptApi.addParameter,
            ScriptApi.addEvent],
          by simp [memberEvent?, hsignature, hevent, ScriptApi.addParameter, ScriptApi.addEvent],
          [], by simp [hevent, ScriptApi.addParameter, ScriptApi.addEvent],
          by simp [skippedMembers, hsignature]⟩

theorem foldl_addMember (members : List Member) (api : ScriptApi) :
    Declares options source script api
      (members.foldl (Component.addMember options source script) api) members := by
  induction members generalizing api with
  | nil => exact .none rfl rfl List.prefix_rfl
  | cons member members ih => exact (addMember options source script api member).trans (ih _)

end Declares

/-! ## The walk -/

theorem propsMembers_eq_nil {options : Options} {statements : List Statement}
    (h : statements.any (declaresStruct options.propsTypeName) = false) :
    propsMembers options statements = [] := by
  have hfind : statements.find? (declaresStruct options.propsTypeName) = none := by
    simpa [List.find?_eq_none] using h
  rw [propsMembers, hfind]
  rfl

theorem propsMembers_append (options : Options) (statements others : List Statement) :
    propsMembers options (statements ++ others) =
      propsMembers options statements ++
        if statements.any (declaresStruct options.propsTypeName) then []
        else propsMembers options others := by
  cases hany : statements.any (declaresStruct options.propsTypeName) with
  | true =>
      obtain ⟨statement, hmem, hdeclares⟩ := List.any_eq_true.mp hany
      have hfound := List.find?_isSome.mpr ⟨statement, hmem, hdeclares⟩
      obtain ⟨first, hfirst⟩ := Option.isSome_iff_exists.mp hfound
      simp [propsMembers, List.find?_append, hfirst]
  | false =>
      have hfind : statements.find? (declaresStruct options.propsTypeName) = none := by
        simpa [List.find?_eq_none] using hany
      simp [propsMembers, List.find?_append, hfind]

namespace Walk

structure Takes (options : Options) (source : Text) (script : Program) (walk next : Walk)
    (statements : List Statement) : Prop where
  declares : Declares options source script walk.api next.api
    (if walk.propsFound then [] else propsMembers options statements)
  propsFound : next.propsFound =
    (walk.propsFound || statements.any (declaresStruct options.propsTypeName))
  destructured : next.destructured = walk.destructured ++ statements.flatMap (patternsOf options)
  exported : next.exported = walk.exported ++ statements.flatMap exportsOf

variable {options : Options} {source : Text} {script : Program}

theorem Takes.trans {walk next last : Walk} {statements others : List Statement}
    (hfirst : Takes options source script walk next statements)
    (hsecond : Takes options source script next last others) :
    Takes options source script walk last (statements ++ others) := by
  refine ⟨?_, ?_, ?_, ?_⟩
  · have hboth := hfirst.declares.trans hsecond.declares
    rw [hfirst.propsFound] at hboth
    rw [propsMembers_append]
    cases hfound : walk.propsFound with
    | true => simpa [hfound] using hboth
    | false => simpa [hfound] using hboth
  · rw [hsecond.propsFound, hfirst.propsFound, List.any_append, Bool.or_assoc]
  · rw [hsecond.destructured, hfirst.destructured, List.flatMap_append, List.append_assoc]
  · rw [hsecond.exported, hfirst.exported, List.flatMap_append, List.append_assoc]

theorem addRune_eq (options : Options) (walk : Walk) (declarator : Declarator) :
    ∃ warnings, walk.addRune options declarator =
      { walk with
        api := { walk.api with warnings := walk.api.warnings ++ warnings }
        destructured := walk.destructured ++ (pattern? options declarator).toList } := by
  unfold addRune pattern?
  cases isRuneCall options.propsRune declarator with
  | false => cases declarator.binding <;> exact ⟨[], by simp⟩
  | true =>
      cases declarator.binding with
      | object properties => exact ⟨[], by simp⟩
      | name | array => exact ⟨[options.propsRune ++ "() result is not destructured"],
          by simp [ScriptApi.warn]⟩

theorem foldl_addRune (options : Options) (declarators : List Declarator) (walk : Walk) :
    ∃ warnings, declarators.foldl (addRune options) walk =
      { walk with
        api := { walk.api with warnings := walk.api.warnings ++ warnings }
        destructured := walk.destructured ++ declarators.filterMap (pattern? options) } := by
  induction declarators generalizing walk with
  | nil => exact ⟨[], by simp⟩
  | cons declarator declarators ih =>
      obtain ⟨first, hfirst⟩ := addRune_eq options walk declarator
      obtain ⟨warnings, hrest⟩ := ih (walk.addRune options declarator)
      refine ⟨first ++ warnings, ?_⟩
      rw [List.foldl_cons, hrest, hfirst]
      cases hpattern : pattern? options declarator <;> simp [hpattern]

theorem Takes.other {walk next : Walk} {statement : Statement}
    (hdeclares : declaresStruct options.propsTypeName statement = false)
    (hparameters : next.api.parameters = walk.api.parameters)
    (hevents : next.api.events = walk.api.events)
    (hwarnings : walk.api.warnings <+: next.api.warnings)
    (hfound : next.propsFound = walk.propsFound)
    (hdestructured : next.destructured = walk.destructured ++ patternsOf options statement)
    (hexported : next.exported = walk.exported ++ exportsOf statement) :
    Takes options source script walk next [statement] := by
  have hmembers : propsMembers options [statement] = [] :=
    propsMembers_eq_nil (by simpa using hdeclares)
  refine ⟨?_, by simp [hfound, hdeclares], by simpa using hdestructured, by simpa using hexported⟩
  rw [hmembers, ite_self]
  exact .none hparameters hevents hwarnings

theorem takes_struct (walk : Walk) {statement : Statement} {name : Identifier} {isInterface : Bool}
    {members : List Member} (hform : statement.form = .struct name isInterface members) :
    Takes options source script walk (walk.addStatement options source script statement)
      [statement] := by
  have hdeclares : declaresStruct options.propsTypeName statement =
      (name.text == options.propsTypeName) := by simp [declaresStruct, hform]
  have hpatterns : patternsOf options statement = [] := by simp [patternsOf, hform]
  have hexports : exportsOf statement = [] := by simp [exportsOf, hform]
  unfold addStatement
  cases hname : name.text == options.propsTypeName with
  | false =>
      rw [hname] at hdeclares
      simp only [hform, hname, Bool.and_false, Bool.false_eq_true, ↓reduceIte]
      exact .other hdeclares rfl rfl List.prefix_rfl rfl (by simp [hpatterns]) (by simp [hexports])
  | true =>
      rw [hname] at hdeclares
      have hmembers : propsMembers options [statement] = members := by
        simp [propsMembers, hdeclares, membersOf, hform]
      cases hfound : walk.propsFound with
      | true =>
          -- only the first type counts
          simp only [hform, hname, Bool.not_true, Bool.false_and, Bool.false_eq_true, ↓reduceIte]
          refine ⟨?_, by simp [hfound], by simp [hpatterns], by simp [hexports]⟩
          rw [if_pos hfound]
          exact .none rfl rfl List.prefix_rfl
      | false =>
          simp only [hform, hname, Bool.not_false, Bool.and_self, ↓reduceIte]
          refine ⟨?_, by simp [hdeclares], by simp [hpatterns], by simp [hexports]⟩
          rw [if_neg (by simp [hfound]), hmembers]
          exact .foldl_addMember members walk.api

theorem takes_bindings (walk : Walk) {statement : Statement} {isLet : Bool}
    {declarators : List Declarator} (hform : statement.form = .bindings isLet declarators) :
    Takes options source script walk (walk.addStatement options source script statement)
      [statement] := by
  obtain ⟨warnings, hrunes⟩ := foldl_addRune options declarators walk
  have hdeclares : declaresStruct options.propsTypeName statement = false := by
    simp [declaresStruct, hform]
  have hpatterns : patternsOf options statement = declarators.filterMap (pattern? options) := by
    simp [patternsOf, hform]
  unfold addStatement
  simp only [hform, hrunes]
  cases hexported : statement.exported && isLet <;>
    exact .other hdeclares rfl rfl (List.prefix_append _ _) rfl (by simp [hpatterns])
      (by simp [exportsOf, hform, hexported])

theorem takes_addStatement (walk : Walk) (statement : Statement) :
    Takes options source script walk (walk.addStatement options source script statement)
      [statement] := by
  cases hform : statement.form with
  | struct => exact takes_struct walk hform
  | bindings => exact takes_bindings walk hform
  | function name signature =>
      have hdeclares : declaresStruct options.propsTypeName statement = false := by
        simp [declaresStruct, hform]
      unfold addStatement
      rw [hform]
      cases name <;>
        exact .other hdeclares rfl rfl List.prefix_rfl rfl (by simp [patternsOf, hform])
          (by simp [exportsOf, hform])
  | _ =>
      unfold addStatement
      rw [hform]
      exact .other (by simp [declaresStruct, hform]) rfl rfl List.prefix_rfl rfl
        (by simp [patternsOf, hform]) (by simp [exportsOf, hform])

theorem takes_foldl (options : Options) (source : Text) (script : Program)
    (statements : List Statement) (walk : Walk) :
    Takes options source script walk
      (statements.foldl (addStatement options source script) walk) statements := by
  induction statements generalizing walk with
  | nil =>
      refine ⟨?_, by simp, by simp, by simp⟩
      rw [propsMembers_eq_nil rfl, ite_self]
      exact .none rfl rfl List.prefix_rfl
  | cons statement statements ih => exact (takes_addStatement walk statement).trans (ih _)

end Walk

/-! ## The interface -/

def memberNames (source : Text) (members : List Member) : List Text :=
  (members.filterMap (Member.signature? source)).map MemberSignature.name

theorem memberParameter?_eq_some {options : Options} {source : Text} {script : Program}
    {member : Member} {parameter : Parameter}
    (h : memberParameter? options source script member = some parameter) :
    ∃ signature, member.signature? source = some signature ∧ parameter.name = signature.name ∧
      eventName? options.eventPrefix parameter.name = none ∧ parameter.fallback = none := by
  obtain ⟨signature, hsignature, hparameter⟩ := Option.bind_eq_some_iff.mp h
  split at hparameter
  · contradiction
  · next hevent =>
      cases hparameter
      exact ⟨signature, hsignature, rfl, hevent, rfl⟩

theorem sublist_names (options : Options) (source : Text) (script : Program)
    (members : List Member) :
    ((members.filterMap (memberParameter? options source script)).map Parameter.name).Sublist
      (memberNames source members) := by
  induction members with
  | nil => exact .slnil
  | cons member members ih =>
      unfold memberNames at ih ⊢
      cases hsignature : member.signature? source with
      | none => simpa [memberParameter?, hsignature] using ih
      | some signature =>
          cases hevent : eventName? options.eventPrefix signature.name with
          | none => simpa [memberParameter?, hsignature, hevent] using ih
          | some event => simpa [memberParameter?, hsignature, hevent] using ih.cons _

def callbackNames (options : Options) (source : Text) (members : List Member) : List Text :=
  (memberNames source members).filter fun name => (eventName? options.eventPrefix name).isSome

theorem not_mem_of_mem_callbackNames {options : Options} {source : Text} {script : Program}
    {members : List Member} {name : Text} (h : name ∈ callbackNames options source members) :
    name ∉ (members.filterMap (memberParameter? options source script)).map Parameter.name := by
  intro hmem
  obtain ⟨parameter, hparameter, rfl⟩ := List.mem_map.mp hmem
  obtain ⟨member, -, hmember⟩ := List.mem_filterMap.mp hparameter
  obtain ⟨-, -, -, hevent, -⟩ := memberParameter?_eq_some hmember
  have hcallback := (List.mem_filter.mp h).2
  rw [hevent] at hcallback
  contradiction

theorem isListed_of_mem_callbackNames {options : Options} {source : Text} (script : Program)
    {members : List Member} {name : Text} (h : name ∈ callbackNames options source members) :
    isListed options (members.filterMap (memberEvent? options source script)) name = true := by
  obtain ⟨hname, hcallback⟩ := List.mem_filter.mp h
  obtain ⟨signature, hsignature, rfl⟩ := List.mem_map.mp hname
  obtain ⟨member, hmember, hsignature⟩ := List.mem_filterMap.mp hsignature
  obtain ⟨event, hevent⟩ := Option.isSome_iff_exists.mp hcallback
  rw [isListed, hevent, Option.any_some, List.any_eq_true]
  have hlisted : memberEvent? options source script member = some
      { name := event, type := signature.type, description := script.summaryAt member.span.start
        payload := signature.payload, source := .callback } := by
    simp [memberEvent?, hsignature, hevent]
  exact ⟨_, List.mem_filterMap.mpr ⟨member, hmember, hlisted⟩, beq_self_eq_true event⟩

/--
The members of the type of the properties give the events and the first parameters, in their
order; the other names that a script mentions follow where they occur first, and each name
has one record.  A declared callback has a parameter next to its event if and only if it is
also an exported variable and no pattern takes apart the properties.
-/
theorem parameters_merged (options : Options) (source : Text) (script : Program)
    (hdistinct : (memberNames source (propsMembers options script.statements)).Nodup) :
    let api := ScriptApi.ofTree options source script
    let members := propsMembers options script.statements
    let declared := members.filterMap (memberParameter? options source script)
    let added := contributions options source script
    api.events = members.filterMap (memberEvent? options source script) ∧
    api.parameters = declared.map (settled added) ++
      (undeclaredNames (passesOver options script api.events) declared added).map
        (contributed added) ∧
    (api.parameters.map Parameter.name).Nodup ∧
    (∀ name ∈ callbackNames options source members,
      name ∈ api.parameters.map Parameter.name ↔
        patterns options script = [] ∧ name ∈ added.map Contribution.name) ∧
    ((skippedMembers source members).map (skipped options source)).Sublist api.warnings := by
  intro api members declared added
  have htakes := Walk.takes_foldl options source script script.statements {}
  have hfinish := Walk.contributes_finish options source script _
    (by simpa [patterns] using htakes.destructured) (by simpa using htakes.exported)
  have hmembers : Declares options source script {} _ members := htakes.declares
  have hevents : api.events = members.filterMap (memberEvent? options source script) := by
    rw [show api.events = _ from hfinish.events, hmembers.events, List.nil_append]
  have hnodup : (declared.map Parameter.name).Nodup :=
    (sublist_names options source script members).nodup hdistinct
  have hparameters : api.parameters =
      mergedParameters (passesOver options script api.events) declared added := by
    rw [show api.parameters = _ from hfinish.parameters, hmembers.parameters, List.nil_append,
      show api.events = _ from hfinish.events]
    refine foldl_contribute hnodup (fun parameter hparameter => ?_) _
    obtain ⟨member, -, hmember⟩ := List.mem_filterMap.mp hparameter
    obtain ⟨-, -, -, -, hfallback⟩ := memberParameter?_eq_some hmember
    exact hfallback
  refine ⟨hevents, hparameters, ?_, ?_, ?_⟩
  · rw [hparameters]
    exact nodup_mergedParameters hnodup added
  · intro name hname
    rw [hparameters, names_mergedParameters, List.mem_append, mem_undeclaredNames, hevents,
      passesOver, isListed_of_mem_callbackNames script hname]
    have hdeclared : name ∉ declared.map Parameter.name := not_mem_of_mem_callbackNames hname
    simp [hdeclared, and_comm]
  · obtain ⟨warnings, hwarnings, hsublist⟩ := hmembers.warnings
    rw [List.nil_append] at hwarnings
    exact (hwarnings ▸ hsublist).trans hfinish.warnings.sublist

/-- A script with a member and a variable of one name, and a callback that is taken apart. -/
def meterScript : Text :=
  "interface Props{low?:Limit;onRise():void;[key]:X}let{low=1,onRise,high,low=2}=$props()"

theorem parameters_merged_meter : ∃ script,
    parse? Language.ofComponents meterScript = some script ∧
      (memberNames meterScript (propsMembers {} script.statements)).Nodup ∧
      let api := ScriptApi.ofTree {} meterScript script
      let members := propsMembers {} script.statements
      let declared := members.filterMap (memberParameter? {} meterScript script)
      let added := contributions {} meterScript script
      api.parameters = declared.map (settled added) ++
          (undeclaredNames (passesOver {} script api.events) declared added).map
            (contributed added) ∧
        api.parameters.map (fun parameter => (parameter.name, parameter.required)) =
          [("low".toList, false), ("high".toList, true)] := by
  have hread : ((parse? Language.ofComponents meterScript).any fun script =>
      decide (memberNames meterScript (propsMembers {} script.statements)).Nodup &&
        (ScriptApi.ofTree {} meterScript script).parameters.map
            (fun parameter => (parameter.name, parameter.required)) ==
          [("low".toList, false), ("high".toList, true)]) = true := by
    decide +kernel
  obtain ⟨script, hparse, hread⟩ := (Option.any_eq_true _ _).mp hread
  rw [Bool.and_eq_true, decide_eq_true_eq, beq_iff_eq] at hread
  obtain ⟨-, hparameters, -, -, -⟩ := parameters_merged {} meterScript script hread.1
  exact ⟨script, hparse, hread.1, hparameters, hread.2⟩

/-- A callback that is declared and exported is both an event and a parameter. -/
theorem exported_callback_listed_twice :
    let source : Text := "interface Props{onRise():void}export let onRise"
    ∃ script, parse? Language.ofComponents source = some script ∧
      memberNames source (propsMembers {} script.statements) = ["onRise".toList] ∧
      let api := ScriptApi.ofTree {} source script
      api.events.map Event.name = ["rise".toList] ∧
        api.parameters.map Parameter.name = ["onRise".toList] := by
  intro source
  have hread : ((parse? Language.ofComponents source).any fun script =>
      memberNames source (propsMembers {} script.statements) == ["onRise".toList] &&
        ((ScriptApi.ofTree {} source script).events.map Event.name == ["rise".toList] &&
          (ScriptApi.ofTree {} source script).parameters.map Parameter.name ==
            ["onRise".toList])) = true := by
    decide +kernel
  obtain ⟨script, hparse, hread⟩ := (Option.any_eq_true _ _).mp hread
  rw [Bool.and_eq_true, Bool.and_eq_true, beq_iff_eq, beq_iff_eq, beq_iff_eq] at hread
  exact ⟨script, hparse, hread.1, hread.2.1, hread.2.2⟩

end ComponentDocs.Component
