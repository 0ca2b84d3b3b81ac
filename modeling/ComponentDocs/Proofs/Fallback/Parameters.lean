import ComponentDocs.Document.Decode
import ComponentDocs.Proofs.Component.Merge
import ComponentDocs.Proofs.Fallback.Patterns
import ComponentDocs.Proofs.Folds

/-!
# Parameters that are recovered from a text

Members of the type of the properties come first.  A pattern merges its names into them, and
exported variables, which count where there is no pattern, are listed behind them.
-/

namespace ComponentDocs.Fallback

open ComponentDocs.Component
open ComponentDocs.Script (unknownType)

def foundMembers (options : Options) (source : Text) : List MemberText :=
  ((typeBody? options.propsTypeName source).map memberTexts).getD []

def foundNames (members : List MemberText) : List Text :=
  (members.filterMap fun found => member? found.text).map FoundMember.name

def foundParameter? (options : Options) (found : MemberText) : Option Parameter :=
  (member? found.text).bind fun member =>
    match eventName? options.eventPrefix member.name with
    | some _ => none
    | none =>
        some
          { name := member.name, type := member.type, required := !member.optional
            description := found.description }

theorem parameters_addMemberText (options : Options) (api : ScriptApi) (found : MemberText) :
    (addMemberText options api found).parameters =
      api.parameters ++ (foundParameter? options found).toList := by
  unfold addMemberText foundParameter?
  cases member? found.text with
  | none => simp [ScriptApi.warn]
  | some member =>
      cases hevent : eventName? options.eventPrefix member.name with
      | none => simp [hevent, ScriptApi.addParameter]
      | some event => simp [hevent, ScriptApi.addEvent]

theorem sublist_foundNames (options : Options) (members : List MemberText) :
    ((members.filterMap (foundParameter? options)).map Parameter.name).Sublist
      (foundNames members) := by
  induction members with
  | nil => exact .slnil
  | cons found members ih =>
      unfold foundNames at ih ⊢
      cases hmember : member? found.text with
      | none => simpa [foundParameter?, hmember] using ih
      | some member =>
          cases hevent : eventName? options.eventPrefix member.name with
          | none => simpa [foundParameter?, hmember, hevent] using ih
          | some event => simpa [foundParameter?, hmember, hevent] using ih.cons _

theorem fallback_foundParameter? {options : Options} {found : MemberText} {parameter : Parameter}
    (h : foundParameter? options found = some parameter) : parameter.fallback = none := by
  obtain ⟨member, -, hparameter⟩ := Option.bind_eq_some_iff.mp h
  split at hparameter
  · contradiction
  · cases hparameter
    rfl

def entryContribution? (entry : FoundBinding × Option Text) : Option Contribution :=
  if entry.1.isRest then none
  else some ⟨entry.1.name, unknownType, entry.2.map textValue, none⟩

theorem contributes_addEntry (options : Options) (api : ScriptApi)
    (entry : FoundBinding × Option Text) :
    Contributes (isListed options api.events) api (addEntry options api entry)
      (entryContribution? entry).toList := by
  obtain ⟨⟨isRest, name, optional, type⟩, fallback⟩ := entry
  cases isRest with
  | true => exact .refl _ api
  | false => exact contributes_addDestructured options api name _

@[simp] theorem name_exportParameter (found : FoundExport) :
    (exportParameter found).name = found.name := by
  cases found with
  | mk name type fallback => cases fallback <;> rfl

theorem nodup_append_exports {declared : List Parameter} {exports : List FoundExport}
    (hdeclared : (declared.map Parameter.name).Nodup)
    (hexports : (exports.map FoundExport.name).Nodup) :
    ((declared ++ exports.map exportParameter).map Parameter.name).Nodup ↔
      ∀ found ∈ exports, found.name ∉ declared.map Parameter.name := by
  have hnames : (exports.map exportParameter).map Parameter.name =
      exports.map FoundExport.name := by
    simp [Function.comp_def]
  rw [List.map_append, hnames, List.nodup_append']
  constructor
  · rintro ⟨-, -, hdisjoint⟩ found hfound hname
    exact hdisjoint hname (List.mem_map_of_mem hfound)
  · intro hnot
    refine ⟨hdeclared, hexports, fun name hname hexport => ?_⟩
    obtain ⟨found, hfound, rfl⟩ := List.mem_map.mp hexport
    exact hnot found hfound hname

def memberApi (options : Options) (source : Text) : ScriptApi :=
  (foundMembers options source).foldl (addMemberText options) {}

theorem parameters_memberApi (options : Options) (source : Text) :
    (memberApi options source).parameters =
      (foundMembers options source).filterMap (foundParameter? options) := by
  rw [memberApi, view_foldl_append ScriptApi.parameters (parameters_addMemberText options),
    List.filterMap_eq_flatMap_toList]
  rfl

theorem parameters_ofText_exports {options : Options} {source : Text}
    (h : destructuredTexts options.propsRune source = []) :
    (ScriptApi.ofText options source).parameters =
      (memberApi options source).parameters ++ (foundExports source).map exportParameter := by
  have hexports := view_foldl_append ScriptApi.parameters
    (fun api found => (rfl : (ScriptApi.addParameter api (exportParameter found)).parameters = _))
    (foundExports source) (memberApi options source)
  rw [ScriptApi.ofText, foldl_addOperation, h]
  exact hexports.trans (congrArg _ List.map_eq_flatMap.symm)

theorem contributes_ofText {options : Options} {source : Text}
    (h : destructuredTexts options.propsRune source ≠ []) :
    Contributes (isListed options (memberApi options source).events) (memberApi options source)
      (ScriptApi.ofText options source)
      (((destructuredTexts options.propsRune source).flatMap entries).filterMap
        entryContribution?) := by
  have hentries : Contributes (isListed options (memberApi options source).events)
      (memberApi options source)
      (((destructuredTexts options.propsRune source).flatMap entries).foldl (addEntry options)
        (memberApi options source)) _ :=
    contributes_foldl _ (fun api entry hevents => hevents ▸ contributes_addEntry options api entry)
      _ rfl
  have hempty : (destructuredTexts options.propsRune source).isEmpty = false := by
    rwa [List.isEmpty_eq_false_iff]
  rw [ScriptApi.ofText, hempty, foldl_addOperation_eq]
  exact ⟨hentries.parameters, hentries.events, hentries.warnings⟩

/--
Behind the members that are parameters stand the names that only patterns mention or, without a
pattern, all exported variables.  So a name has two records if and only if no pattern takes apart
the properties and the name is declared and exported.
-/
theorem recovered_parameters (options : Options) (source : Text)
    (hmembers : (foundNames (foundMembers options source)).Nodup)
    (hexports : ((foundExports source).map FoundExport.name).Nodup) :
    let api := ScriptApi.ofText options source
    let declared := (foundMembers options source).filterMap (foundParameter? options)
    let patterns := destructuredTexts options.propsRune source
    let added := (patterns.flatMap entries).filterMap entryContribution?
    (api.parameters =
      if patterns = [] then declared ++ (foundExports source).map exportParameter
      else declared.map (settled added) ++
        (undeclaredNames (isListed options api.events) declared added).map (contributed added)) ∧
    ((api.parameters.map Parameter.name).Nodup ↔
      (patterns = [] →
        ∀ found ∈ foundExports source, found.name ∉ declared.map Parameter.name)) := by
  intro api declared patterns added
  have hdeclared : (memberApi options source).parameters = declared :=
    parameters_memberApi options source
  have hnodup : (declared.map Parameter.name).Nodup :=
    (sublist_foundNames options _).nodup hmembers
  by_cases hpatterns : patterns = []
  · have hparameters : api.parameters = declared ++ (foundExports source).map exportParameter := by
      rw [← hdeclared]
      exact parameters_ofText_exports hpatterns
    refine ⟨by rw [if_pos hpatterns, hparameters], ?_⟩
    rw [hparameters, nodup_append_exports hnodup hexports]
    exact ⟨fun hnot _ => hnot, fun hnot => hnot hpatterns⟩
  · have hcontributes := contributes_ofText hpatterns
    have hparameters : api.parameters =
        mergedParameters (isListed options api.events) declared added := by
      rw [show api.events = _ from hcontributes.events,
        show api.parameters = _ from hcontributes.parameters, hdeclared]
      refine foldl_contribute hnodup (fun parameter hparameter => ?_) _
      obtain ⟨found, -, hfound⟩ := List.mem_filterMap.mp hparameter
      exact fallback_foundParameter? hfound
    refine ⟨by rw [if_neg hpatterns, hparameters, mergedParameters], ?_⟩
    rw [hparameters]
    exact iff_of_true (nodup_mergedParameters hnodup added) fun hnil => absurd hnil hpatterns

/-- A script with two members, one of which a pattern mentions, and an exported variable. -/
def brokenPattern : Text :=
  "interface Props \x7b low: Limit; onRise: Go \x7d\n" ++
    "let \x7b low = 1, high, onRise \x7d = $props();\nexport let low = (;"

theorem recovered_parameters_brokenPattern :
    (foundNames (foundMembers {} brokenPattern)).Nodup ∧
    ((foundExports brokenPattern).map FoundExport.name) = ["low".toList] ∧
    destructuredTexts "$props" brokenPattern ≠ [] ∧
    ((ScriptApi.ofText {} brokenPattern).parameters.map Parameter.name).Nodup := by
  have hmembers : (foundNames (foundMembers {} brokenPattern)).Nodup := by decide +kernel
  have hexports : (foundExports brokenPattern).map FoundExport.name = ["low".toList] := by
    decide +kernel
  have hpatterns : destructuredTexts "$props" brokenPattern ≠ [] := by decide +kernel
  obtain ⟨-, hnodup⟩ := recovered_parameters {} brokenPattern hmembers (by simp [hexports])
  exact ⟨hmembers, hexports, hpatterns, hnodup.mpr fun hnil => absurd hnil hpatterns⟩

/-- A declared parameter that is exported has two records, and the default is in the second. -/
theorem exported_parameter_listed_twice :
    let source : Text := "interface Props \x7b title: string \x7d\nexport let title = 'x';"
    (foundNames (foundMembers {} source)).Nodup ∧
    ((foundExports source).map FoundExport.name).Nodup ∧
    (ScriptApi.ofText {} source).parameters.map (fun parameter =>
        (parameter.name, parameter.type, parameter.fallback.bind Json.text?)) =
      [("title".toList, "string".toList, none),
        ("title".toList, "unknown".toList, some "x".toList)] := by
  intro source
  exact ⟨by decide +kernel, by decide +kernel, by decide +kernel⟩

end ComponentDocs.Fallback
