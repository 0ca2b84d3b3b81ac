import ComponentDocs.Proofs.Text.Trim
import ComponentDocs.Script.TypeText

/-!
# Type texts on one line

However a type is laid out in its source, its text is one line in normal form.  The pieces of
the text are tidy, and what is put between and around them keeps it so.
-/

namespace ComponentDocs

namespace Text

/-- A text that is not empty and has no white space but single spaces, none of them at its
ends. -/
structure IsLine (text : Text) : Prop where
  ne_nil : text ≠ []
  normalize_eq : normalize text = text
  eq_space : ∀ c ∈ text, isSpace c = true → c = ' '
  head : ∀ c ∈ text.head?, isSpace c = false
  last : ∀ c ∈ text.getLast?, isSpace c = false
  single : ¬[' ', ' '] <:+: text

variable {text : Text}

theorem Tidy.not_infix (h : Tidy text) : ¬[' ', ' '] <:+: text := by
  induction h with
  | single hc =>
      intro hwithin
      simpa using hwithin.length_le
  | cons hc _ ih =>
      rw [List.infix_cons_iff, not_or]
      refine ⟨fun hstart => ?_, ih⟩
      obtain rfl := (List.cons_prefix_cons.mp hstart).1
      contradiction
  | space hc htext ih =>
      obtain ⟨d, rest, rfl, hd⟩ := htext.exists_cons
      rw [List.infix_cons_iff, List.infix_cons_iff, not_or, not_or]
      refine ⟨fun hstart => ?_, fun hstart => ?_, ih⟩
      · obtain rfl := (List.cons_prefix_cons.mp hstart).1
        contradiction
      · obtain rfl := (List.cons_prefix_cons.mp (List.cons_prefix_cons.mp hstart).2).1
        contradiction

theorem Tidy.isLine (h : Tidy text) : IsLine text where
  ne_nil := by
    obtain ⟨c, rest, rfl, -⟩ := h.exists_cons
    exact List.cons_ne_nil _ _
  normalize_eq := h.normalize_eq
  eq_space c hc hspace := by
    rcases h.isSpace_or hc with hnone | rfl
    · rw [hnone] at hspace
      contradiction
    · rfl
  head := (trim_eq_self_iff.mp h.trim_eq).1
  last := (trim_eq_self_iff.mp h.trim_eq).2
  single := h.not_infix

theorem words_ne_nil (h : isBlank text = false) : words text ≠ [] := by
  induction text with
  | nil => contradiction
  | cons c text ih =>
      rw [words]
      cases hc : isSpace c with
      | true =>
          rw [isBlank, List.all_cons, hc, Bool.true_and] at h
          exact ih h
      | false =>
          cases atWordEnd text with
          | true => exact List.cons_ne_nil _ _
          | false => cases words text <;> exact List.cons_ne_nil _ _

theorem tidy_normalize (h : isBlank text = false) : Tidy (normalize text) :=
  tidy_join (words_ne_nil h) fun _ => isWord_of_mem_words

def Joins (separator : Text) : Prop :=
  ∀ {first second : Text}, Tidy first → Tidy second → Tidy (first ++ separator ++ second)

theorem joins_mark {mark : Text} (h : Tidy mark) : Joins (mark ++ " ") := by
  intro first second hfirst hsecond
  simpa using (hfirst.append h).append_space hsecond

theorem joins_operator {mark : Text} (h : Tidy mark) : Joins (" " ++ mark ++ " ") := by
  intro first second hfirst hsecond
  simpa using hfirst.append_space (h.append_space hsecond)

theorem Joins.tidy_join {separator : Text} (h : Joins separator) {pieces : List Text}
    (hne : pieces ≠ []) (hpieces : ∀ piece ∈ pieces, Tidy piece) :
    Tidy (join separator pieces) := by
  induction pieces with
  | nil => contradiction
  | cons piece pieces ih =>
      rw [List.forall_mem_cons] at hpieces
      cases pieces with
      | nil => exact hpieces.1
      | cons next pieces => exact h hpieces.1 (ih (List.cons_ne_nil _ _) hpieces.2)

theorem tidy_parenthesis : Tidy ")" :=
  .of_all (by decide) (by decide)

theorem Tidy.parenthesize {closer : Text} (h : Tidy text) (hcloser : Tidy closer) :
    Tidy ("(" ++ text ++ closer) := by
  have hopen : Tidy "(" := .of_all (by decide) (by decide)
  exact (hopen.append h).append hcloser

end Text

namespace Script

open Text (Tidy IsLine isBlank joins_mark joins_operator)

def Span.Covers (source : Text) (span : Span) : Prop :=
  isBlank (span.text source) = false

def Span.CoversMember (source : Text) (span : Span) : Prop :=
  isBlank (Text.dropEndWhile (fun c => c == ';' || c == ',') (span.text source)) = false

def IsSpaceless (name : Text) : Prop :=
  ∀ c ∈ name, Text.isSpace c = false

mutual

/-- Whatever is quoted for the type is not blank, operators have operands and the names of members
have no blanks. -/
def TypeNode.Covers (source : Text) : TypeNode → Prop
  | .union parts | .intersection parts => parts ≠ [] ∧ TypeNode.AllCover source parts
  | .array element => element.Covers source
  | .parenthesized inner => inner.Covers source
  | .function _ parameters rest result =>
      Parameter.AllCover source parameters ∧ Parameter.Covers? source rest ∧ result.Covers source
  | .object members => Member.AllCover source members
  | .other span => span.Covers source

def TypeNode.AllCover (source : Text) : List TypeNode → Prop
  | [] => True
  | part :: others => part.Covers source ∧ TypeNode.AllCover source others

def TypeNode.Covers? (source : Text) : Option TypeNode → Prop
  | none => True
  | some type => type.Covers source

def Parameter.Covers (source : Text) : Parameter → Prop
  | .mk span _ _ declaredType _ => span.Covers source ∧ TypeNode.Covers? source declaredType

def Parameter.AllCover (source : Text) : List Parameter → Prop
  | [] => True
  | parameter :: others => parameter.Covers source ∧ Parameter.AllCover source others

def Parameter.Covers? (source : Text) : Option Parameter → Prop
  | none => True
  | some parameter => parameter.Covers source

def Member.Covers (source : Text) : Member → Prop
  | .property _ (.static name) _ _ declaredType =>
      IsSpaceless name ∧ TypeNode.Covers? source declaredType
  | .method _ _ (.static name) _ _ parameters rest result =>
      IsSpaceless name ∧ Parameter.AllCover source parameters ∧ Parameter.Covers? source rest ∧
        TypeNode.Covers? source result
  | .property span .computed _ _ _ | .method span _ .computed _ _ _ _ _ | .other span =>
      span.CoversMember source

def Member.AllCover (source : Text) : List Member → Prop
  | [] => True
  | member :: others => member.Covers source ∧ Member.AllCover source others

end

section

variable {source : Text}

variable {parameters : List Parameter}

theorem Parameter.allCover_iff :
    Parameter.AllCover source parameters ↔ ∀ parameter ∈ parameters, parameter.Covers source := by
  induction parameters with
  | nil => simp [Parameter.AllCover]
  | cons parameter others ih => simp [Parameter.AllCover, ih]

theorem TypeNode.texts_ne_nil {parts : List TypeNode} (h : parts ≠ []) :
    TypeNode.texts source parts ≠ [] := by
  cases parts with
  | nil => contradiction
  | cons part others => exact List.cons_ne_nil _ _

theorem tidy_unknownType : Tidy unknownType :=
  .of_all (by decide) (by decide)

theorem tidy_noValueType : Tidy noValueType :=
  .of_all (by decide) (by decide)

theorem Parameter.span_covers {parameter : Parameter} (h : parameter.Covers source) :
    parameter.span.Covers source := by
  cases parameter with
  | mk span binding optional declaredType fallback => exact h.1

theorem Parameter.spans_cover {rest : Option Parameter} (h : Parameter.AllCover source parameters)
    (hrest : Parameter.Covers? source rest) :
    ∀ parameter ∈ parameters ++ rest.toList, parameter.span.Covers source := by
  rw [List.forall_mem_append]
  constructor
  · intro parameter hparameter
    exact Parameter.span_covers (Parameter.allCover_iff.mp h parameter hparameter)
  · cases rest with
    | none => simp
    | some parameter => exact List.forall_mem_singleton.mpr (Parameter.span_covers hrest)

theorem tidy_parametersText {rest : Option Parameter}
    (h : ∀ parameter ∈ parameters ++ rest.toList, parameter.span.Covers source) :
    Tidy (parametersText source parameters rest) := by
  have hcomma : Text.Joins ", " := joins_mark (.of_all (by decide) (by decide) : Tidy ",")
  rw [parametersText]
  generalize parameters ++ rest.toList = listed at h
  cases listed with
  | nil =>
      have hnone : Tidy "()" := .of_all (by decide) (by decide)
      exact hnone
  | cons first others =>
      have hlisted : Tidy (Text.join ", "
          ((first :: others).map fun parameter => parameter.span.normalText source)) := by
        apply hcomma.tidy_join
        · simp
        · rw [List.forall_mem_map]
          exact fun parameter hparameter => Text.tidy_normalize (h parameter hparameter)
      exact hlisted.parenthesize Text.tidy_parenthesis

theorem tidy_arrowText {parameters result : Text} (hparameters : Tidy parameters)
    (hresult : Tidy result) : Tidy (arrowText parameters result) :=
  joins_operator (.of_all (by decide) (by decide) : Tidy "=>") hparameters hresult

theorem tidy_memberText (readonly : Bool) {name : Text} (optional : Bool) {type : Text}
    (hname : IsSpaceless name) (htype : Tidy type) :
    Tidy (memberText readonly name optional type) := by
  -- a name may be empty, but not together with its colon
  have hkey : Tidy (name ++ (if optional then ("?" : Text) else []) ++ ":") := by
    apply Tidy.of_all
    · simp
    · rw [List.forall_mem_append, List.forall_mem_append]
      refine ⟨⟨hname, ?_⟩, by decide⟩
      cases optional <;> decide
  have hmember := hkey.append_space htype
  cases readonly with
  | false => simpa [memberText] using hmember
  | true =>
      have hreadonly : Tidy "readonly" := .of_all (by decide) (by decide)
      simpa [memberText] using hreadonly.append_space hmember

theorem tidy_bracedMembers {members : List Text} (h : ∀ member ∈ members, Tidy member) :
    Tidy (bracedMembers members) := by
  have hopen : Tidy "\x7b" := .of_all (by decide) (by decide)
  have hclose : Tidy "\x7d" := .of_all (by decide) (by decide)
  have hsemicolon : Text.Joins "; " := joins_mark (.of_all (by decide) (by decide) : Tidy ";")
  cases members with
  | nil => exact hopen.append hclose
  | cons first others =>
      have hlisted := hsemicolon.tidy_join (List.cons_ne_nil first others) h
      simpa [bracedMembers] using hopen.append_space (hlisted.append_space hclose)

mutual

theorem TypeNode.tidy_text (type : TypeNode) (h : type.Covers source) :
    Tidy (type.text source) := by
  match type with
  | .union parts =>
      have hbar : Text.Joins " | " := joins_operator (.of_all (by decide) (by decide) : Tidy "|")
      exact hbar.tidy_join (TypeNode.texts_ne_nil h.1) (TypeNode.tidy_texts parts h.2)
  | .intersection parts =>
      have hand : Text.Joins " & " := joins_operator (.of_all (by decide) (by decide) : Tidy "&")
      exact hand.tidy_join (TypeNode.texts_ne_nil h.1) (TypeNode.tidy_texts parts h.2)
  | .array element =>
      have helement := TypeNode.tidy_text element h
      rw [TypeNode.text]
      split
      · exact helement.parenthesize (.of_all (by decide) (by decide))
      · exact helement.append (.of_all (by decide) (by decide))
  | .parenthesized inner =>
      exact (TypeNode.tidy_text inner h).parenthesize Text.tidy_parenthesis
  | .function _ parameters rest result =>
      exact tidy_arrowText (tidy_parametersText (Parameter.spans_cover h.1 h.2.1))
        (TypeNode.tidy_text result h.2.2)
  | .object members => exact tidy_bracedMembers (Member.tidy_texts members h)
  | .other span => exact Text.tidy_normalize h
termination_by sizeOf type

theorem TypeNode.tidy_texts (parts : List TypeNode) (h : TypeNode.AllCover source parts) :
    ∀ text ∈ TypeNode.texts source parts, Tidy text := by
  match parts with
  | [] => simp [TypeNode.texts]
  | part :: others =>
      rw [TypeNode.texts, List.forall_mem_cons]
      exact ⟨TypeNode.tidy_text part h.1, TypeNode.tidy_texts others h.2⟩
termination_by sizeOf parts

theorem TypeNode.tidy_textOr {absent : Text} (habsent : Tidy absent) (type? : Option TypeNode)
    (h : TypeNode.Covers? source type?) : Tidy (TypeNode.textOr source absent type?) := by
  match type? with
  | none => exact habsent
  | some type => exact TypeNode.tidy_text type h
termination_by sizeOf type?

theorem Member.tidy_text (member : Member) (h : member.Covers source) :
    Tidy (member.text source) := by
  match member with
  | .property _ (.static name) readonly optional declaredType =>
      exact tidy_memberText readonly optional h.1
        (TypeNode.tidy_textOr tidy_unknownType declaredType h.2)
  | .method _ _ (.static name) optional _ parameters rest result =>
      exact tidy_memberText false optional h.1
        (tidy_arrowText (tidy_parametersText (Parameter.spans_cover h.2.1 h.2.2.1))
          (TypeNode.tidy_textOr tidy_noValueType result h.2.2.2))
  | .property span .computed _ _ _ | .method span _ .computed _ _ _ _ _ | .other span =>
      exact Text.tidy_normalize h
termination_by sizeOf member

theorem Member.tidy_texts (members : List Member) (h : Member.AllCover source members) :
    ∀ text ∈ Member.texts source members, Tidy text := by
  match members with
  | [] => simp [Member.texts]
  | member :: others =>
      rw [Member.texts, List.forall_mem_cons]
      exact ⟨Member.tidy_text member h.1, Member.tidy_texts others h.2⟩
termination_by sizeOf members

end

theorem tidy_firstParameterType (h : Parameter.AllCover source parameters) :
    ∀ payload ∈ firstParameterType source parameters, Tidy payload := by
  intro payload hpayload
  cases parameters with
  | nil => contradiction
  | cons first others =>
      obtain ⟨type, htype, rfl⟩ := Option.map_eq_some_iff.mp hpayload
      obtain ⟨span, binding, optional, declaredType, fallback⟩ := first
      cases fallback with
      | some value => contradiction
      | none =>
          obtain rfl : declaredType = some type := htype
          exact type.tidy_text h.1.2

theorem TypeNode.tidy_payload? (type : TypeNode) (h : type.Covers source) :
    ∀ payload ∈ type.payload? source, Tidy payload := by
  match type with
  | .parenthesized inner => exact TypeNode.tidy_payload? inner h
  | .function _ parameters rest result => exact tidy_firstParameterType h.1
  | .union _ | .intersection _ | .array _ | .object _ | .other _ =>
      exact fun _ hnone => by cases hnone

theorem Member.tidy_signature? {member : Member} {signature : MemberSignature}
    (h : member.Covers source) (hsignature : member.signature? source = some signature) :
    Tidy signature.type ∧ ∀ payload ∈ signature.payload, Tidy payload := by
  match member with
  | .property _ (.static name) readonly optional declaredType =>
      cases hsignature
      refine ⟨TypeNode.tidy_textOr tidy_unknownType declaredType h.2, ?_⟩
      intro payload hpayload
      obtain ⟨type, rfl, htype⟩ := Option.bind_eq_some_iff.mp hpayload
      exact type.tidy_payload? h.2 payload htype
  | .method _ _ (.static name) optional _ parameters rest result =>
      cases hsignature
      refine ⟨?_, tidy_firstParameterType h.2.1⟩
      exact tidy_arrowText (tidy_parametersText (Parameter.spans_cover h.2.1 h.2.2.1))
        (TypeNode.tidy_textOr tidy_noValueType result h.2.2.2)
  | .property _ .computed _ _ _ | .method _ _ .computed _ _ _ _ _ | .other _ => contradiction

end

/-- The texts of types, of parameters and of the signatures of members are lines in normal form,
if what they quote from the source is not blank. -/
theorem type_texts_on_one_line (source : Text) :
    (∀ type : TypeNode, type.Covers source →
      IsLine (type.text source) ∧ ∀ payload ∈ type.payload? source, IsLine payload) ∧
    (∀ (parameters : List Parameter) (rest : Option Parameter),
      (∀ parameter ∈ parameters ++ rest.toList, parameter.span.Covers source) →
        IsLine (parametersText source parameters rest)) ∧
    ∀ (member : Member) (signature : MemberSignature), member.Covers source →
      member.signature? source = some signature →
        IsLine signature.type ∧ ∀ payload ∈ signature.payload, IsLine payload := by
  refine ⟨fun type htype => ⟨(type.tidy_text htype).isLine, fun payload hpayload => ?_⟩,
    fun parameters rest hspans => (tidy_parametersText hspans).isLine,
    fun member signature hmember hsignature => ?_⟩
  · exact (type.tidy_payload? htype payload hpayload).isLine
  · obtain ⟨htype, hpayload⟩ := Member.tidy_signature? hmember hsignature
    exact ⟨htype.isLine, fun payload hmem => (hpayload payload hmem).isLine⟩

/-- An object type with a callback and an index signature, laid out over several lines. -/
def pickerSource : Text :=
  "\x7b pick?: (item:\n  Item) =>\tvoid;\n  [key:  string]: any; \x7d"

def pickerParameter : Parameter :=
  .mk ⟨10, 22⟩ (.name "item") false (some (.other ⟨18, 22⟩)) none

def pickerMember : Member :=
  .property ⟨2, 32⟩ (.static "pick") false true
    (some (.function {} [pickerParameter] none (.other ⟨27, 31⟩)))

def pickerType : TypeNode :=
  .object [pickerMember, .other ⟨35, 55⟩]

theorem type_texts_on_one_line_picker :
    pickerType.text pickerSource =
      "\x7b pick?: (item: Item) => void; [key: string]: any \x7d".toList ∧
    pickerType.Covers pickerSource ∧ IsLine (pickerType.text pickerSource) ∧
    pickerParameter.span.Covers pickerSource ∧
    IsLine (parametersText pickerSource [pickerParameter] none) ∧
    ∃ signature : MemberSignature,
      pickerMember.Covers pickerSource ∧ pickerMember.signature? pickerSource = some signature ∧
      signature.payload = some "Item".toList ∧ IsLine signature.type ∧ IsLine "Item" := by
  obtain ⟨htypes, hparameters, hmembers⟩ := type_texts_on_one_line pickerSource
  have hparameter : pickerParameter.span.Covers pickerSource := rfl
  have hname : ∀ c ∈ "pick".toList, Text.isSpace c = false := by decide
  have hmember : pickerMember.Covers pickerSource :=
    ⟨hname, ⟨⟨hparameter, rfl⟩, trivial⟩, trivial, rfl⟩
  have htype : pickerType.Covers pickerSource := ⟨hmember, rfl, trivial⟩
  obtain ⟨hline, hpayload⟩ := hmembers pickerMember _ hmember rfl
  exact ⟨by decide, htype, (htypes pickerType htype).1, hparameter,
    hparameters [pickerParameter] none (List.forall_mem_singleton.mpr hparameter),
    _, hmember, rfl, rfl, hline, hpayload "Item" rfl⟩

end Script

end ComponentDocs
