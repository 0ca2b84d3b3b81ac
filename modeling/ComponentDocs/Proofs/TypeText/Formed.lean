import ComponentDocs.Proofs.Script.Yields
import ComponentDocs.Script.Parse
import ComponentDocs.Script.TypeText

/-!
# The trees of types that are read

Operators bind their operands, so that a tree that has been read never needs a parenthesis that
it does not have.  The readers are put together from a few, and what they build is found from how
they are.
-/

namespace ComponentDocs.Script

open ComponentDocs.Script.Parser

namespace Parser

variable {α β : Type}

class Is (p : α → Prop) (value : α) : Prop where
  holds : p value

class Always (p : α → Prop) (reader : Parser α) : Prop where
  yields : ∀ context cursor, Yields reader context cursor fun value _ => p value

/-- What is known of the values of a reader. -/
class Gives (reader : Parser α) (p : outParam (α → Prop)) : Prop where
  always : Always p reader

variable {p : α → Prop}

instance (value : {value // p value}) : Is p value.1 :=
  ⟨value.2⟩

def Maybe (p : α → Prop) (found : Option α) : Prop :=
  ∀ value ∈ found, p value

instance : Is (Maybe p) none :=
  ⟨by simp [Maybe]⟩

instance (value : α) [h : Is p value] : Is (Maybe p) (some value) :=
  ⟨by simpa [Maybe] using h.holds⟩

namespace Always

instance (value : α) [Is p value] : Always p (pure value) :=
  ⟨fun _ _ => (yields_pure value).mpr Is.holds⟩

instance : Always p (failure : Parser α) :=
  ⟨fun _ _ => yields_failure⟩

theorem next {reader : Parser β} {next : β → Parser α} (h : ∀ value, Always p (next value)) :
    Always p (reader >>= next) :=
  ⟨fun context _ => (yields_bind reader next).mpr fun value moved _ =>
    (h value).yields context moved⟩

theorem bind {q : β → Prop} {reader : Parser β} (hreader : Always q reader)
    {next : β → Parser α} (h : ∀ value, q value → Always p (next value)) :
    Always p (reader >>= next) :=
  ⟨fun context cursor => (hreader.yields context cursor).bind fun value moved hvalue =>
    (h value hvalue).yields context moved⟩

instance (reader : Parser α) [h : Gives reader p] : Always p reader :=
  h.always

instance (priority := low) (reader : Parser β) (next : β → Parser α)
    [∀ value, Always p (next value)] : Always p (reader >>= next) :=
  .next inferInstance

instance (reader : Parser β) (next : β → Parser α) (q : β → Prop) [Gives reader q]
    [∀ value : {value // q value}, Always p (next value.1)] : Always p (reader >>= next) :=
  .bind (q := q) inferInstance fun value hvalue =>
    inferInstanceAs (Always p (next (Subtype.mk value hvalue).1))

instance (condition : Prop) [Decidable condition] (first second : Parser α) [Always p first]
    [Always p second] : Always p (if condition then first else second) := by
  split <;> infer_instance

instance (change : Context → Context) (reader : Parser α) [Always p reader] :
    Always p (withReader change reader : Parser α) :=
  ⟨fun context cursor => (yields (change context) cursor : Yields reader _ _ _)⟩

instance (change : Context → Context) (reader : Parser α) [Gives reader p] :
    Gives (withReader change reader : Parser α) p :=
  ⟨inferInstance⟩

theorem collect {item : Parser (Option α)} (h : Always (Maybe p) item) :
    Always (fun values => ∀ value ∈ values, p value) (Parser.collect item) := by
  have hfrom : ∀ fuel, Always (fun values => ∀ value ∈ values, p value)
      (Parser.collectFrom item fuel) := by
    intro fuel
    induction fuel with
    | zero => exact inferInstanceAs (Always _ failure)
    | succ fuel ih =>
        refine .bind h fun value hvalue => ?_
        cases value with
        | none => exact ⟨fun _ _ => (yields_pure _).mpr (by simp)⟩
        | some value =>
            refine .bind ih fun values hvalues => ⟨fun _ _ => (yields_pure _).mpr ?_⟩
            exact List.forall_mem_cons.mpr ⟨hvalue value rfl, hvalues⟩
  exact .next fun context => hfrom context.itemBound

theorem extend {step : α → Parser (Option α)} {value : α} (hvalue : p value)
    (h : ∀ value, p value → Always (Maybe p) (step value)) :
    Always p (Parser.extend step value) := by
  have hfrom : ∀ fuel value, p value → Always p (Parser.extendFrom step fuel value) := by
    intro fuel
    induction fuel with
    | zero => exact fun _ _ => inferInstanceAs (Always p failure)
    | succ fuel ih =>
        intro value hvalue
        refine .bind (h value hvalue) fun next hnext => ?_
        cases next with
        | none => exact ⟨fun _ _ => (yields_pure value).mpr hvalue⟩
        | some next => exact ih next (hnext next rfl)
  exact .next fun context => hfrom context.itemBound value hvalue

end Always

end Parser

/-! ## Well-formed trees -/

def TypeNode.isMeet : TypeNode → Bool
  | .union _ | .function _ _ _ _ => false
  | _ => true

mutual

def TypeNode.IsFormed : TypeNode → Prop
  | .union parts => parts ≠ [] ∧ TypeNode.AreParts TypeNode.isMeet parts
  | .intersection parts => parts ≠ [] ∧ TypeNode.AreParts (fun part => !part.needsParens) parts
  | .array element => element.needsParens = false ∧ element.IsFormed
  | .parenthesized inner => inner.IsFormed
  | .function _ _ _ result => result.IsFormed
  | .object members => Member.AreFormed members
  | .other _ => True

def TypeNode.AreParts (isPart : TypeNode → Bool) : List TypeNode → Prop
  | [] => True
  | part :: others => isPart part = true ∧ part.IsFormed ∧ TypeNode.AreParts isPart others

def TypeNode.IsFormed? : Option TypeNode → Prop
  | none => True
  | some type => type.IsFormed

def Member.IsFormed : Member → Prop
  | .property _ _ _ _ declaredType => TypeNode.IsFormed? declaredType
  | .method _ _ _ _ _ _ _ result => TypeNode.IsFormed? result
  | .other _ => True

def Member.AreFormed : List Member → Prop
  | [] => True
  | member :: others => member.IsFormed ∧ Member.AreFormed others

end

theorem TypeNode.areParts_iff {isPart : TypeNode → Bool} {parts : List TypeNode} :
    TypeNode.AreParts isPart parts ↔ ∀ part ∈ parts, isPart part = true ∧ part.IsFormed := by
  induction parts with
  | nil => simp [TypeNode.AreParts]
  | cons part others ih => simp [TypeNode.AreParts, ih, and_assoc]

theorem Member.areFormed_iff {members : List Member} :
    Member.AreFormed members ↔ ∀ member ∈ members, member.IsFormed := by
  induction members with
  | nil => simp [Member.AreFormed]
  | cons member others ih => simp [Member.AreFormed, ih]

def TypeNode.IsOperand (type : TypeNode) : Prop :=
  type.needsParens = false ∧ type.IsFormed

def Signature.IsFormed (signature : Signature) : Prop :=
  TypeNode.IsFormed? signature.result

def Member.Builds (build : Span → Member) : Prop :=
  ∀ span, (build span).IsFormed

class Grammar.FormsTypes (g : Grammar) : Prop where
  type : Always TypeNode.IsFormed g.type
  typeOperand : Always TypeNode.IsOperand g.typeOperand

section Types

set_option synthInstance.maxSize 100000

open TypeNode (IsFormed IsFormed? IsOperand)

/-! ## What is built -/

instance (span : Span) : Is IsFormed (.other span) := ⟨trivial⟩

instance (span : Span) : Is IsOperand (.other span) := ⟨rfl, trivial⟩

instance (inner : TypeNode) [h : Is IsFormed inner] : Is IsOperand (.parenthesized inner) :=
  ⟨rfl, h.holds⟩

instance (element : TypeNode) [h : Is IsOperand element] : Is IsOperand (.array element) :=
  ⟨rfl, h.holds⟩

instance (members : List Member) [h : Is Member.AreFormed members] :
    Is IsOperand (.object members) :=
  ⟨rfl, h.holds⟩

instance (head : SignatureHead) (parameters : List Parameter) (rest : Option Parameter)
    (result : TypeNode) [h : Is IsFormed result] :
    Is IsFormed (.function head parameters rest result) :=
  ⟨h.holds⟩

instance : Is IsFormed? none := ⟨trivial⟩

instance (type : TypeNode) [h : Is IsFormed type] : Is IsFormed? (some type) :=
  ⟨h.holds⟩

instance (signature : Signature) [h : Is Signature.IsFormed signature] :
    Is IsFormed? signature.result :=
  ⟨h.holds⟩

instance (head : SignatureHead) (parameters : List Parameter) (rest : Option Parameter)
    (result : Option TypeNode) [h : Is IsFormed? result] :
    Is Signature.IsFormed ⟨head, parameters, rest, result⟩ :=
  ⟨h.holds⟩

instance (key : Key) (readonly optional : Bool) (type : Option TypeNode) [h : Is IsFormed? type] :
    Is Member.Builds fun span => .property span key readonly optional type :=
  ⟨fun _ => h.holds⟩

instance (kind : MethodKind) (key : Key) (optional : Bool) (head : SignatureHead)
    (parameters : List Parameter) (rest : Option Parameter) (result : Option TypeNode)
    [h : Is IsFormed? result] :
    Is Member.Builds fun span => .method span kind key optional head parameters rest result :=
  ⟨fun _ => h.holds⟩

instance : Is Member.Builds .other := ⟨fun _ => trivial⟩

instance (build : Span → Member) [h : Is Member.Builds build] (span : Span) :
    Is Member.IsFormed (build span) :=
  ⟨h.holds span⟩

/-! ## Types without operators -/

variable {g : Grammar}

instance : Always IsOperand (typeReference g) := by unfold typeReference; infer_instance

instance : Always IsOperand (importedType g) := by unfold importedType; infer_instance

instance : Always IsOperand (queriedType g) := by unfold queriedType; infer_instance

instance : Always IsOperand (templateType g) := by unfold templateType; infer_instance

instance : Always IsOperand (tupleType g) := by unfold tupleType; infer_instance

instance : Always IsOperand (mappedType g) := by unfold mappedType; infer_instance

instance : Always IsOperand negativeType := by unfold negativeType; infer_instance

instance : Always IsOperand (thisType g) := by unfold thisType; infer_instance

instance : Always IsOperand (assertedType g) := by unfold assertedType; infer_instance

instance : Always IsOperand (inferredType g) := by unfold inferredType; infer_instance

instance : Always IsOperand tokenType := by unfold tokenType; infer_instance

variable [h : g.FormsTypes]

instance : Gives g.type IsFormed := ⟨h.type⟩

instance : Gives g.typeOperand IsOperand := ⟨h.typeOperand⟩

instance : Gives (declaredType? g) IsFormed? := ⟨by unfold declaredType?; infer_instance⟩

instance : Gives (resultType g) IsFormed := ⟨by unfold resultType; infer_instance⟩

instance : Gives (result? g) IsFormed? := ⟨by unfold result?; infer_instance⟩

instance (constructs : Bool) : Gives (signature g constructs) Signature.IsFormed := by
  unfold signature
  dsimp only
  exact ⟨inferInstance⟩

instance (getter : Bool) : Always Member.Builds (accessorMember g getter) := by
  unfold accessorMember
  infer_instance

instance (readonly : Bool) : Always Member.Builds (keyedMember g readonly) := by
  unfold keyedMember
  infer_instance

instance : Gives (bareMember g) Member.Builds := ⟨by unfold bareMember; infer_instance⟩

instance : Gives (typeMember g) Member.IsFormed := ⟨by unfold typeMember; infer_instance⟩

instance : Gives (typeMembers g) Member.AreFormed := by
  have hitem : Always (Maybe Member.IsFormed) (do
      if ← atMark .closeBrace then return none
      return some (← typeMember g)) := by
    infer_instance
  refine ⟨.next fun _ => .bind (.collect hitem) fun members hmembers => ?_⟩
  have : Is Member.AreFormed members := ⟨Member.areFormed_iff.mpr hmembers⟩
  infer_instance

instance : Always IsOperand (parenthesizedType g) := by unfold parenthesizedType; infer_instance

instance : Gives (simpleType g) IsOperand := by
  unfold simpleType
  refine ⟨.next fun token => ?_⟩
  split <;> infer_instance

instance (start : Nat) (type : TypeNode) [Is IsOperand type] :
    Always (Maybe IsOperand) (typeSuffix g start type) := by
  unfold typeSuffix
  refine .next fun token => ?_
  repeat' split
  all_goals infer_instance

instance : Always IsOperand (typeOperand g) := by
  unfold typeOperand
  refine .next fun start => .next fun token => ?_
  split
  case h_5 =>
    have hreader : Always IsOperand (do extend (typeSuffix g start) (← simpleType g)) :=
      .bind inferInstance fun first hfirst => .extend hfirst fun type htype =>
        have : Is IsOperand type := ⟨htype⟩
        inferInstance
    infer_instance
  all_goals infer_instance

/-! ## Operators -/

omit h in
theorem always_joinedTypes {mark : Punctuator} {join : List TypeNode → TypeNode}
    {part : Parser TypeNode} {p q : TypeNode → Prop} [Gives part p] (hone : ∀ type, p type → q type)
    (hjoin : ∀ first others, (∀ type ∈ first :: others, p type) → q (join (first :: others))) :
    Always q (joinedTypes mark join part) := by
  have hitem : Always (Maybe p) (do
      if ← eat mark then return some (← part) else return none) := by
    infer_instance
  refine .next fun leading => .bind (Gives.always : Always p part) fun first hfirst => ?_
  refine .bind (.collect hitem) fun others hothers => ?_
  have : Is q first := ⟨hone first hfirst⟩
  have : Is q (join (first :: others)) :=
    ⟨hjoin first others (List.forall_mem_cons.mpr ⟨hfirst, hothers⟩)⟩
  infer_instance

instance : Gives (joinedTypes .ampersand .intersection g.typeOperand)
    fun type => type.isMeet = true ∧ type.IsFormed := by
  refine ⟨always_joinedTypes ?_ ?_⟩
  · rintro type ⟨hparens, hformed⟩
    refine ⟨?_, hformed⟩
    cases type <;> first | rfl | contradiction
  · intro first others hparts
    refine ⟨rfl, List.cons_ne_nil _ _, TypeNode.areParts_iff.mpr fun part hpart => ?_⟩
    exact ⟨by simp [(hparts part hpart).1], (hparts part hpart).2⟩

instance : Gives (unionType g) IsFormed := by
  refine ⟨always_joinedTypes (fun type htype => htype.2) ?_⟩
  intro first others hparts
  exact ⟨List.cons_ne_nil _ _, TypeNode.areParts_iff.mpr hparts⟩

instance : Always IsFormed (functionType g) := by
  unfold functionType
  dsimp only
  infer_instance

instance (start : Nat) : Always IsFormed (conditionalType g start) := by
  unfold conditionalType
  infer_instance

instance : Always IsFormed (anyType g) := by unfold anyType; infer_instance

end Types

instance (depth : Nat) : (grammar depth).FormsTypes := by
  induction depth with
  | zero => exact ⟨inferInstanceAs (Always _ failure), inferInstanceAs (Always _ failure)⟩
  | succ depth ih =>
      exact ⟨inferInstanceAs (Always _ (anyType _)), inferInstanceAs (Always _ (typeOperand _))⟩

/-! ## Statements -/

def Form.aliased? : Form → Option TypeNode
  | .struct _ false members => some (.object members)
  | .typeAlias _ aliased => some aliased
  | _ => none

def Form.IsFormed (form : Form) : Prop :=
  ∀ type, form.aliased? = some type → type.IsFormed

def Statement.IsFormed (statement : Statement) : Prop :=
  statement.form.IsFormed

/-- A declaration, which is read with its span. -/
def Form.IsFormedAt (declared : Form × Span) : Prop :=
  declared.1.IsFormed

section Statements

set_option synthInstance.maxSize 100000

open Form (IsFormed IsFormedAt)

theorem Form.IsFormed.of_eq_none {form : Form} (h : form.aliased? = none) : form.IsFormed := by
  intro type htype
  rw [h] at htype
  contradiction

instance (isLet : Bool) (declarators : List Declarator) :
    Is IsFormed (.bindings isLet declarators) := ⟨.of_eq_none rfl⟩

instance (name : Option Text) (signature : Signature) : Is IsFormed (.function name signature) :=
  ⟨.of_eq_none rfl⟩

instance (name : Option Text) : Is IsFormed (.classDefinition name) := ⟨.of_eq_none rfl⟩

instance (name : Identifier) (members : List Member) : Is IsFormed (.struct name true members) :=
  ⟨.of_eq_none rfl⟩

instance (name : Identifier) (members : List EnumMember) :
    Is IsFormed (.enumeration name members) :=
  ⟨.of_eq_none rfl⟩

instance (source : Text) (typeOnly : Bool) (names : List ImportedName) :
    Is IsFormed (.imports source typeOnly names) := ⟨.of_eq_none rfl⟩

instance (source : Option Text) (names : List Text) : Is IsFormed (.exportList source names) :=
  ⟨.of_eq_none rfl⟩

instance (source : Text) (name : Option Text) : Is IsFormed (.exportAll source name) :=
  ⟨.of_eq_none rfl⟩

instance : Is IsFormed .unsupported := ⟨.of_eq_none rfl⟩

instance : Is IsFormed .defaultExpression := ⟨.of_eq_none rfl⟩

instance (form : Form) (span : Span) [h : Is IsFormed form] : Is IsFormedAt (form, span) :=
  ⟨h.holds⟩

instance (declared : Form × Span) [h : Is IsFormedAt declared] : Is IsFormed declared.1 :=
  ⟨h.holds⟩

instance (span declarationSpan : Span) (exported isDefault : Bool) (form : Form)
    [h : Is IsFormed form] :
    Is Statement.IsFormed ⟨span, declarationSpan, exported, isDefault, form⟩ :=
  ⟨h.holds⟩

variable {g : Grammar}

instance (waits nameless declared : Bool) :
    Gives (functionDeclaration g waits nameless declared) IsFormed :=
  ⟨by unfold functionDeclaration; infer_instance⟩

instance (nameless : Bool) : Gives (classDeclaration g nameless) IsFormed :=
  ⟨by unfold classDeclaration; infer_instance⟩

instance : Gives (interfaceDeclaration g) IsFormed :=
  ⟨by unfold interfaceDeclaration; infer_instance⟩

instance : Always IsFormed (variableDeclaration g) := by unfold variableDeclaration; infer_instance

instance : Always IsFormed (enumDeclaration g) := by unfold enumDeclaration; infer_instance

instance : Always IsFormed (namespaceDeclaration g) := by
  unfold namespaceDeclaration
  infer_instance

instance : Always IsFormed aliasedImport := by unfold aliasedImport; infer_instance

instance : Gives importForm IsFormed := ⟨by unfold importForm; infer_instance⟩

instance : Gives exportList IsFormed := ⟨by unfold exportList; infer_instance⟩

instance : Gives exportAll IsFormed := ⟨by unfold exportAll; infer_instance⟩

instance (start : Nat) : Always Statement.IsFormed (plainStatement start) := by
  unfold plainStatement
  infer_instance

instance : Always Statement.IsFormed importStatement := by unfold importStatement; infer_instance

instance : Gives (defaultExport g) IsFormedAt :=
  ⟨by unfold defaultExport; infer_instance⟩

variable [g.FormsTypes]

instance : Always IsFormed (aliasDeclaration g) := by
  unfold aliasDeclaration
  refine .next fun _ => .next fun _ => .next fun _ => .next fun _ => ?_
  refine .bind (Gives.always : Always _ g.type) fun aliased haliased => .next fun _ => ?_
  split <;> exact ⟨fun _ _ => (yields_pure _).mpr (by rintro _ ⟨⟩; exact haliased)⟩

instance (words : List Keyword) : Gives (declarationForm g words) IsFormed := by
  unfold declarationForm
  refine ⟨.next fun token => ?_⟩
  repeat' split
  all_goals infer_instance

instance : Gives (declaration g) IsFormedAt :=
  ⟨by unfold declaration; infer_instance⟩

instance : Always Statement.IsFormed (exportStatement g) := by
  unfold exportStatement
  dsimp only
  infer_instance

instance : Always Statement.IsFormed (declarationStatement g) := by
  unfold declarationStatement
  dsimp only
  infer_instance

instance : Always Statement.IsFormed (decoratedStatement g) := by
  unfold decoratedStatement
  dsimp only
  infer_instance

instance : Always Statement.IsFormed (statement g) := by
  unfold statement
  refine .next fun start => .next fun token => ?_
  split
  case h_4 =>
    refine .next fun next => ?_
    repeat' split
    all_goals infer_instance
  all_goals infer_instance

end Statements

end ComponentDocs.Script
