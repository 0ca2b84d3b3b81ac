import ComponentDocs.Document.Decode
import ComponentDocs.Document.Render
import ComponentDocs.Proofs.Dictionary
import ComponentDocs.Proofs.Json.Values

/-!
# Rendered documentation reads back

Records are written as objects and read from them by the names of their fields.  The text
of a list of documents holds all of them, except that a default of null is lost.
-/

namespace ComponentDocs

open Dictionary (InOrder)

namespace Json

def last? (name : Text) : List (Text × Json) → Option Json
  | [] => none
  | (key, value) :: rest => (last? name rest).or (if key = name then some value else none)

theorem field?_object (name : Text) (fields : List (Text × Json)) :
    (object fields).field? name = fields.lookup name := by
  induction fields with
  | nil => rfl
  | cons field fields ih =>
      rw [Table.lookup_cons_eq, ← ih]
      by_cases h : field.1 = name
      · simp [field?, h]
      · simp [field?, h, Ne.symm h]

theorem lookup_reverse (name : Text) (fields : List (Text × Json)) :
    fields.reverse.lookup name = last? name fields := by
  induction fields with
  | nil => rfl
  | cons field fields ih =>
      obtain ⟨key, value⟩ := field
      rw [List.reverse_cons, List.lookup_append, ih, last?, Table.lookup_cons_eq]
      simp only [List.lookup_nil, eq_comm]

@[simp] theorem last?_append (name : Text) (fields more : List (Text × Json)) :
    last? name (fields ++ more) = (last? name more).or (last? name fields) := by
  induction fields with
  | nil => simp [last?]
  | cons field fields ih => rw [List.cons_append, last?, ih, last?, Option.or_assoc]

@[simp] theorem last?_present (name key : Text) (value : Json) :
    last? name (present key value) = if key = name then some value else none := by
  simp [present, last?]

@[simp] theorem last?_whenSome (name key : Text) (value : Option Json) :
    last? name (whenSome key value) = if key = name then value else none := by
  cases value <;> simp [whenSome, last?]

@[simp] theorem last?_whenNonempty (name key : Text) (items : List Json) :
    last? name (whenNonempty key items) =
      if key = name ∧ items ≠ [] then some (.array items) else none := by
  cases items <;> simp [whenNonempty, last?]

theorem last?_sortedFields (name : Text) (fields : List (Text × Json)) :
    last? name (sortedFields fields) = (last? name fields).map sorted := by
  induction fields with
  | nil => rfl
  | cons field fields ih =>
      obtain ⟨key, value⟩ := field
      rw [sortedFields, last?, last?, ih]
      cases last? name fields with
      | none => split_ifs <;> rfl
      | some value => rfl

theorem field?_sorted (name : Text) (fields : List (Text × Json)) :
    (object fields).sorted.field? name = (last? name fields).map sorted := by
  rw [sorted, ofFields, field?_object, Dictionary.lookup_ofList, lookup_reverse,
    last?_sortedFields]

end Json

namespace Fields

open Json (last?)

def ofWritten (fields : List (Text × Json)) : Fields :=
  ⟨Dictionary.ofList (Json.sortedFields fields), false⟩

@[simp] theorem of?_sorted (names : List Text) (fields : List (Text × Json)) :
    of? names (Json.object fields).sorted = some (ofWritten fields) := by
  rw [Json.sorted]
  rfl

theorem find?_ofWritten (fields : List (Text × Json)) (name : Text) :
    (ofWritten fields).find? name = (last? name fields).map Json.sorted := by
  rw [← Json.field?_sorted, Json.sorted]
  rfl

variable {α : Type} {decode : Json → Option α}

@[simp] theorem required_ofWritten (fields : List (Text × Json)) (name : Text) :
    (ofWritten fields).required name decode =
      (last? name fields).bind fun value => decode value.sorted := by
  rw [required, find?_ofWritten, Option.bind_map]
  rfl

@[simp] theorem optional_ofWritten (fields : List (Text × Json)) (name : Text) :
    (ofWritten fields).optional name decode =
      ((last? name fields).map fun value => nullable decode value.sorted).getD (some none) := by
  rw [optional, find?_ofWritten]
  cases last? name fields <;> rfl

@[simp] theorem named_ofWritten (fields : List (Text × Json)) (name : Text) :
    (ofWritten fields).named name decode =
      ((last? name fields).map fun value => nullable decode value.sorted).getD (some none) := by
  rw [named, find?_ofWritten]
  cases last? name fields <;> rfl

@[simp] theorem defaulted_ofWritten (fields : List (Text × Json)) (name : Text) (absent : α) :
    (ofWritten fields).defaulted name absent decode =
      ((last? name fields).map fun value => decode value.sorted).getD (some absent) := by
  rw [defaulted, find?_ofWritten]
  cases last? name fields <;> rfl

end Fields

namespace Json

mutual

def IsSorted : Json → Prop
  | .null | .bool _ | .integer _ | .float _ | .string _ => True
  | .array items => AreSorted items
  | .object fields => InOrder fields ∧ FieldsSorted fields

def AreSorted : List Json → Prop
  | [] => True
  | item :: rest => item.IsSorted ∧ AreSorted rest

def FieldsSorted : List (Text × Json) → Prop
  | [] => True
  | (_, value) :: rest => value.IsSorted ∧ FieldsSorted rest

end

theorem areSorted_iff {items : List Json} : AreSorted items ↔ ∀ item ∈ items, item.IsSorted := by
  induction items with
  | nil => simp [AreSorted]
  | cons item items ih => simp [AreSorted, ih]

variable {fields : List (Text × Json)}

theorem fieldsSorted_iff :
    FieldsSorted fields ↔ ∀ field ∈ fields, field.2.IsSorted := by
  induction fields with
  | nil => simp [FieldsSorted]
  | cons field fields ih => simp [FieldsSorted, ih]

theorem ofFields_of_inOrder (h : InOrder fields) : ofFields fields = .object fields := by
  rw [ofFields, Dictionary.ofList_of_inOrder h]

theorem sorted_of_isSorted (value : Json) (h : value.IsSorted) : value.sorted = value := by
  induction value using nestedInduction with
  | null | bool | integer | float | string => rw [sorted]
  | array items ih =>
      rw [IsSorted, areSorted_iff] at h
      have hitems : ∀ item ∈ items, item.sorted = id item := fun item hitem =>
        ih item hitem (h item hitem)
      rw [sorted, sortedItems_eq_map, List.map_congr_left hitems, List.map_id]
  | object fields ih =>
      rw [IsSorted, fieldsSorted_iff] at h
      have hfields : ∀ field ∈ fields, (field.1, field.2.sorted) = id field := by
        intro field hfield
        rw [ih field hfield (h.2 field hfield), id]
      rw [sorted, sortedFields_eq_map, List.map_congr_left hfields, List.map_id,
        ofFields_of_inOrder h.1]

end Json

/-! ## Records -/

variable {β : Type}

namespace Json

@[simp] theorem text?_string_sorted (text : Text) : text? (string text).sorted = some text := by
  rw [sorted, text?]

@[simp] theorem bool?_bool_sorted (value : Bool) : bool? (bool value).sorted = some value := by
  rw [sorted, bool?]

@[simp] theorem nullable_ofText? (text : Option Text) :
    ((ofText? text).map fun value => Fields.nullable text? value.sorted).getD (some none) =
      some text := by
  cases text with
  | none => rfl
  | some text =>
      rw [ofText?, Option.map_some, Option.map_some, sorted]
      rfl

theorem mapM_map_eq_some {α γ : Type} {decode : β → Option γ} {encode : α → β} (read : α → γ)
    {records : List α} (h : ∀ record ∈ records, decode (encode record) = some (read record)) :
    (records.map encode).mapM decode = some (records.map read) := by
  induction records with
  | nil => rfl
  | cons record records ih =>
      obtain ⟨hrecord, hrecords⟩ := List.forall_mem_cons.mp h
      rw [List.map_cons, List.mapM_cons, hrecord, ih hrecords]
      rfl

theorem list?_sorted {α : Type} {decode : Json → Option β} {encode : α → Json} (read : α → β)
    {records : List α}
    (h : ∀ record ∈ records, decode (encode record).sorted = some (read record)) :
    list? decode (array (records.map encode)).sorted = some (records.map read) := by
  rw [sorted, sortedItems_eq_map, list?, List.map_map]
  exact mapM_map_eq_some read h

@[simp] theorem list?_string_sorted (texts : List Text) :
    list? text? (array (texts.map string)).sorted = some texts := by
  rw [list?_sorted id fun text _ => text?_string_sorted text, List.map_id]

@[simp] theorem list?_whenNonempty {α : Type} (decode : Json → Option β) (encode : α → Json)
    (records : List α) :
    ((if records = [] then none else some (array (records.map encode))).map fun value =>
      list? decode value.sorted).getD (some []) =
        list? decode (array (records.map encode)).sorted := by
  cases records with
  | nil =>
      rw [List.map_nil, sorted, sortedItems]
      rfl
  | cons record records => rfl

theorem sorted_ofTexts {entries : List (Text × Text)} (h : InOrder entries) :
    (ofTexts entries).sorted = ofTexts entries := by
  apply sorted_of_isSorted
  rw [ofTexts, IsSorted, fieldsSorted_iff]
  refine ⟨List.pairwise_map.mpr h, ?_⟩
  intro field hfield
  obtain ⟨entry, -, rfl⟩ := List.mem_map.mp hfield
  trivial

theorem texts?_ofTexts (entries : List (Text × Text)) :
    texts? (ofTexts entries) = some entries := by
  rw [ofTexts, texts?, mapM_map_eq_some id, List.map_id]
  intro entry _
  rfl

theorem nullable_ofTexts {entries : Option (List (Text × Text))}
    (h : ∀ attributes ∈ entries, InOrder attributes) :
    ((entries.map ofTexts).map fun value => Fields.nullable texts? value.sorted).getD (some none) =
      some entries := by
  cases entries with
  | none => rfl
  | some entries =>
      rw [Option.map_some, Option.map_some, sorted_ofTexts (h entries rfl)]
      exact congrArg (Option.map some) (texts?_ofTexts entries)

theorem word?_sorted {α : Type} {word : α → Text} {values : List α} {value : α}
    (h : values.find? (fun other => word other == word value) = some value) :
    word? word values (string (word value)).sorted = some value := by
  rw [sorted, word?, h]

end Json

namespace Json

@[simp] theorem isLegible_string (text : Text) : (string text).IsLegible := trivial

@[simp] theorem isLegible_bool (value : Bool) : (bool value).IsLegible := trivial

@[simp] theorem isLegible_object (fields : List (Text × Json)) :
    (object fields).IsLegible ↔ FieldsLegible fields := Iff.rfl

@[simp] theorem isLegible_array_map {α : Type} (encode : α → Json) (records : List α) :
    (array (records.map encode)).IsLegible ↔ ∀ record ∈ records, (encode record).IsLegible := by
  rw [IsLegible, areLegible_iff, List.forall_mem_map]

@[simp] theorem fieldsLegible_append (fields more : List (Text × Json)) :
    FieldsLegible (fields ++ more) ↔ FieldsLegible fields ∧ FieldsLegible more := by
  simp only [fieldsLegible_iff, List.forall_mem_append]

@[simp] theorem fieldsLegible_present (name : Text) (value : Json) :
    FieldsLegible (present name value) ↔ value.IsLegible := by
  simp [present, fieldsLegible_iff]

theorem fieldsLegible_whenSome (name : Text) (value : Option Json) :
    FieldsLegible (whenSome name value) ↔ ∀ json ∈ value, json.IsLegible := by
  cases value <;> simp [whenSome, fieldsLegible_iff]

@[simp] theorem fieldsLegible_whenNonempty {α : Type} (name : Text) (encode : α → Json)
    (records : List α) :
    FieldsLegible (whenNonempty name (records.map encode)) ↔
      ∀ record ∈ records, (encode record).IsLegible := by
  cases records <;> simp [whenNonempty, fieldsLegible_iff, IsLegible, areLegible_iff]

@[simp] theorem fieldsLegible_ofText? (name : Text) (text : Option Text) :
    FieldsLegible (whenSome name (ofText? text)) := by
  cases text <;> simp [fieldsLegible_whenSome, ofText?]

@[simp] theorem isLegible_ofTexts (entries : List (Text × Text)) : (ofTexts entries).IsLegible := by
  rw [ofTexts, isLegible_object, fieldsLegible_iff, List.forall_mem_map]
  intro entry _
  trivial

structure Holds {α : Type} (decode : Json → Option α) (json : Json) (record : α) : Prop where
  legible : json.IsLegible
  decoded : decode json.sorted = some record

theorem Holds.list {α : Type} {decode : Json → Option β} (encode : α → Json) (read : α → β)
    {records : List α} (h : ∀ record ∈ records, Holds decode (encode record) (read record)) :
    Holds (list? decode) (array (records.map encode)) (records.map read) where
  legible := (isLegible_array_map encode records).mpr fun record hrecord =>
    (h record hrecord).legible
  decoded := list?_sorted read fun record hrecord => (h record hrecord).decoded

def isNull : Json → Bool
  | .null => true
  | _ => false

theorem nullable_fallback {fallback : Option Json} (h : ∀ value ∈ fallback, value.IsSorted) :
    ((fallback.map fun value => Fields.nullable some value.sorted).getD (some none)) =
      some (fallback.filter fun value => !value.isNull) := by
  cases fallback with
  | none => rfl
  | some value =>
      rw [Option.map_some, sorted_of_isSorted value (h value rfl)]
      cases value <;> rfl

end Json

open Json (Holds)

theorem Failure.holds (failure : Failure) : Holds Failure.ofJson? failure.toJson failure where
  legible := by simp [Failure.toJson, FailureKind.toJson]
  decoded := by
    have hkind : Json.word? FailureKind.word FailureKind.all failure.kind.toJson.sorted =
        some failure.kind := Json.word?_sorted (by cases failure.kind <;> decide)
    simp [Failure.ofJson?, Failure.toJson, hkind]

namespace Component

theorem Metadata.holds (metadata : Metadata) :
    Holds Metadata.ofJson? metadata.toJson metadata where
  legible := by simp [Metadata.toJson]
  decoded := by simp [Metadata.ofJson?, Metadata.toJson]

def Parameter.withoutNull (parameter : Parameter) : Parameter :=
  { parameter with fallback := parameter.fallback.filter fun value => !value.isNull }

def Parameter.IsRegular (parameter : Parameter) : Prop :=
  ∀ value ∈ parameter.fallback, value.IsLegible ∧ value.IsSorted

theorem Parameter.holds {parameter : Parameter} (h : parameter.IsRegular) :
    Holds Parameter.ofJson? parameter.toJson parameter.withoutNull where
  legible := by
    have hfallback := (Json.fieldsLegible_whenSome "defaultValue" parameter.fallback).mpr
      fun value hvalue => (h value hvalue).1
    simpa [Parameter.toJson] using hfallback
  decoded := by
    have hfallback := Json.nullable_fallback fun value hvalue => (h value hvalue).2
    simp [Parameter.ofJson?, Parameter.toJson, hfallback, withoutNull]

theorem Event.holds (event : Event) : Holds Event.ofJson? event.toJson event where
  legible := by simp [Event.toJson]
  decoded := by
    have hsource : Json.word? EventSource.word EventSource.all
        (Json.string event.source.word).sorted = some event.source :=
      Json.word?_sorted (by cases event.source <;> decide)
    simp [Event.ofJson?, Event.toJson, hsource]

def Slot.IsRegular (slot : Slot) : Prop :=
  ∀ attributes ∈ slot.attributes, InOrder attributes

theorem Slot.holds {slot : Slot} (h : slot.IsRegular) : Holds Slot.ofJson? slot.toJson slot where
  legible := by
    have hattributes : Json.FieldsLegible
        (Json.whenSome "props" (slot.attributes.map Json.ofTexts)) := by
      rw [Json.fieldsLegible_whenSome]
      intro json hjson
      obtain ⟨entries, -, rfl⟩ := Option.map_eq_some_iff.mp hjson
      exact Json.isLegible_ofTexts entries
    simpa [Slot.toJson] using hattributes
  decoded := by
    have hattributes := Json.nullable_ofTexts h
    simp [Slot.ofJson?, Slot.toJson, hattributes, -Option.map_map]

def Operation.withoutNulls (operation : Operation) : Operation :=
  { operation with parameters := operation.parameters.map Parameter.withoutNull }

def Operation.IsRegular (operation : Operation) : Prop :=
  ∀ parameter ∈ operation.parameters, parameter.IsRegular

theorem Operation.holds {operation : Operation} (h : operation.IsRegular) :
    Holds Operation.ofJson? operation.toJson operation.withoutNulls := by
  have hparameters := Holds.list Parameter.toJson Parameter.withoutNull fun parameter hparameter =>
    Parameter.holds (h parameter hparameter)
  constructor
  · simpa [Operation.toJson] using hparameters.legible
  · simp [Operation.ofJson?, Operation.toJson, hparameters.decoded, withoutNulls]

/-- What the types of the records promise: defaults can be written and read, and maps are
sorted. -/
structure Api.IsRegular (api : Api) : Prop where
  parameters : ∀ parameter ∈ api.parameters, parameter.IsRegular
  slots : ∀ slot ∈ api.slots, slot.IsRegular
  operations : ∀ operation ∈ api.operations, operation.IsRegular

def Api.withoutNulls (api : Api) : Api :=
  { api with
    parameters := api.parameters.map Parameter.withoutNull
    operations := api.operations.map Operation.withoutNulls }

theorem Api.holds {api : Api} (h : api.IsRegular) :
    Holds Api.ofJson? api.toJson api.withoutNulls := by
  have hmetadata := Metadata.holds api.metadata
  have hparameters := Holds.list Parameter.toJson Parameter.withoutNull fun parameter hparameter =>
    Parameter.holds (h.parameters parameter hparameter)
  have hevents := Holds.list Event.toJson id fun event (_ : event ∈ api.events) => Event.holds event
  have hslots := Holds.list Slot.toJson id fun slot hslot => Slot.holds (h.slots slot hslot)
  have hoperations := Holds.list Operation.toJson Operation.withoutNulls
    fun operation hoperation => Operation.holds (h.operations operation hoperation)
  have hfailures := Holds.list Failure.toJson id fun failure (_ : failure ∈ api.failures) =>
    Failure.holds failure
  have hstrategy : Json.word? Strategy.word Strategy.all
      (Json.string api.strategy.word).sorted = some api.strategy :=
    Json.word?_sorted (by cases api.strategy <;> decide)
  constructor
  · simpa [Api.toJson, hmetadata.legible, hparameters.legible, hevents.legible, hslots.legible,
      hoperations.legible] using hfailures.legible
  · simp [Api.ofJson?, Api.toJson, hmetadata.decoded, hparameters.decoded, hevents.decoded,
      hslots.decoded, hoperations.decoded, hfailures.decoded, hstrategy, withoutNulls]

end Component

theorem Types.ResolvedType.holds (type : Types.ResolvedType) :
    Holds Types.ResolvedType.ofJson? type.toJson type where
  legible := by simp [toJson, Json.ofTextList]
  decoded := by simp [ofJson?, toJson, Json.ofTextList]

/-! ## Documents -/

namespace ComponentDoc

def IsRegular (doc : ComponentDoc) : Prop :=
  doc.api.IsRegular

def withoutNulls (doc : ComponentDoc) : ComponentDoc :=
  { doc with api := doc.api.withoutNulls }

theorem holds {doc : ComponentDoc} (h : doc.IsRegular) :
    Holds ComponentDoc.ofJson? doc.toJson doc.withoutNulls := by
  have hapi := Component.Api.holds h
  have htypes := Holds.list Types.ResolvedType.toJson id fun type (_ : type ∈ doc.types) =>
    Types.ResolvedType.holds type
  constructor
  · simpa [toJson, hapi.legible] using htypes.legible
  · simp [ofJson?, toJson, hapi.decoded, htypes.decoded, withoutNulls]

end ComponentDoc

def documents? (depth : Nat) (text : Text) : Option (List ComponentDoc) := do
  let json ← Json.read? depth text
  let components ← json.field? "components"
  Json.list? ComponentDoc.ofJson? components

/-- What was rendered is read back, without defaults of null and with everything else. -/
theorem documents?_renderDocument (generatedAt : Text) (docs : List ComponentDoc) (depth : Nat)
    (hdocs : ∀ doc ∈ docs, doc.IsRegular)
    (hdepth : (documentJson generatedAt docs).nesting ≤ depth) :
    documents? depth (renderDocument generatedAt docs) =
      some (docs.map ComponentDoc.withoutNulls) := by
  have hcomponents := Holds.list ComponentDoc.toJson ComponentDoc.withoutNulls fun doc hdoc =>
    ComponentDoc.holds (hdocs doc hdoc)
  have hlegible : (documentJson generatedAt docs).IsLegible := by
    simpa [documentJson, Json.FieldsLegible] using hcomponents.legible
  have hfield : (documentJson generatedAt docs).sorted.field? "components" =
      some (Json.array (docs.map ComponentDoc.toJson)).sorted := by
    rw [documentJson, Json.field?_sorted]
    simp [Json.last?]
  rw [documents?, renderDocument, Json.read?_pretty hlegible hdepth]
  simp only [Option.bind_eq_bind, Option.bind_some, hfield, hcomponents.decoded]

/-- Documentation with a default of null, a nested default and control characters. -/
def exampleDoc : ComponentDoc where
  api :=
    { metadata := { name := "A\"\n", category := none, path := [Char.ofNat 1, 'é'] }
      parameters :=
        [{ name := "a", type := "T", required := false, fallback := some .null },
          { name := "b", type := "U", required := false
            fallback := some (.object
              [("k".toList, .array [.integer (-3), .float ⟨false, 4503599627370496, -53⟩]),
                ("l".toList, .object [])]) }]
      slots := [{ name := "s", attributes := some [("p".toList, "q".toList), ("r".toList, [])] }]
      strategy := .tree }
  types := [{ name := "T", definition := [], dependencies := [], sourceFile := none }]

theorem exampleDoc_isRegular : exampleDoc.IsRegular where
  parameters := by
    have hhalf : Json.ReadsBack ⟨false, 4503599627370496, -53⟩ := by
      unfold Json.ReadsBack
      rfl
    have hnames : ['k'] < ['l'] := by decide
    simp [exampleDoc, Component.Parameter.IsRegular, Json.IsLegible, Json.AreLegible,
      Json.FieldsLegible, Json.IsSorted, Json.AreSorted, Json.FieldsSorted, InOrder, hhalf,
      hnames]
  slots := by
    have hnames : ['p'] < ['r'] := by decide
    simp [exampleDoc, Component.Slot.IsRegular, InOrder, hnames]
  operations := by simp [exampleDoc]

theorem documents?_renderDocument_example :
    exampleDoc.IsRegular ∧ (documentJson "now" [exampleDoc]).nesting ≤ 9 ∧
      documents? 9 (renderDocument "now" [exampleDoc]) = some [exampleDoc.withoutNulls] :=
  ⟨exampleDoc_isRegular, by decide,
    documents?_renderDocument "now" [exampleDoc] 9 (by simpa using exampleDoc_isRegular)
      (by decide)⟩

end ComponentDocs
