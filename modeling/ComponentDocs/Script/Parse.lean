import ComponentDocs.Path
import ComponentDocs.Script.Markup
import ComponentDocs.Script.Statements

/-!
Parsing a script: the knot of the grammar, and the languages of scripts.
-/

namespace ComponentDocs.Script

structure Language where
  typed : Bool := true
  markup : Bool := false
  ambient : Bool := false
  deriving DecidableEq, Repr

def Language.ofComponents : Language := {}

def isDescriptionName (name : Text) : Bool :=
  ((Path.pieces (name.map fun c => if c == '.' then '/' else c)).reverse.take 3).contains ['d']

def Language.ofPath (path : Text) : Language :=
  match Path.extension? path with
  | some extension =>
      if [("js" : Text), "mjs", "cjs"].contains extension then { typed := false }
      else if extension == "jsx".toList then { typed := false, markup := true }
      else if extension == "tsx".toList then { markup := true }
      else if [("ts" : Text), "mts", "cts"].contains extension then
        { ambient := isDescriptionName ((Path.fileName? path).getD []) }
      else {}
  | none => {}

def Language.context (language : Language) (source : Text) : Context :=
  { typed := language.typed, markup := language.markup, ambient := language.ambient
    itemBound := source.length + 3 }

def grammar : Nat → Grammar
  | 0 =>
      { assignment := fun _ => failure
        operation := fun _ => failure
        operand := failure
        leftHandSide := failure
        constructed := failure
        type := failure
        typeOperand := failure
        binding := failure
        statement := failure
        element := fun _ => failure }
  | depth + 1 =>
      { assignment := fun resultAllowed context =>
          Parser.assignment (grammar depth) resultAllowed context
        operation := fun level context => Parser.operation (grammar depth) level context
        operand := fun context => Parser.operand (grammar depth) context
        leftHandSide := fun context => Parser.leftHandSide (grammar depth) context
        constructed := fun context => Parser.constructed (grammar depth) context
        type := fun context => Parser.anyType (grammar depth) context
        typeOperand := fun context => Parser.typeOperand (grammar depth) context
        binding := fun context => Parser.anyBinding (grammar depth) context
        statement := fun context => Parser.statement (grammar depth) context
        element := fun inContent context => Parser.element (grammar depth) inContent context }

namespace Parser

def directive (g : Grammar) : Parser Bool := do
  let value ← innerExpression g
  endStatement
  match value with
  | .string _ _ => return true
  | _ => return false

def directives (g : Grammar) : Parser Unit :=
  discard <| collect do
    if (← token).kind == .string && (← isAhead (directive g)) then
      return some (← directive g)
    else return none

def script (g : Grammar) : Parser (List Statement) := do
  directives g
  collect do
    if (← token).kind == .endOfSource then return none
    return some (← g.statement)

end Parser

/-- Nesting costs at least a character on each few levels of the grammar. -/
def depthBound (source : Text) : Nat :=
  8 * source.length + 64

def parse? (language : Language) (source : Text) : Option Program :=
  let reader := Parser.script (grammar (depthBound source))
  match reader (language.context source) (Cursor.start source) with
  | some (statements, cursor) =>
      if cursor.flawed || !cursor.openCovers.isEmpty then none
      else some ⟨statements, cursor.docs⟩
  | none => none

end ComponentDocs.Script
