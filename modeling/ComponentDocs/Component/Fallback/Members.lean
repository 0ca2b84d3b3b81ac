import ComponentDocs.Component.Fallback.Brackets
import ComponentDocs.Text.Scan

/-!
The members of a declared type, recovered from its text.
-/

namespace ComponentDocs.Component

def cleanType (text : Text) : Text :=
  let ended := Text.dropEndWhile (fun c => c == ';' || c == ',') (Text.trim text)
  Text.normalize (ended.dropWhile (· == '|'))

def optionalMark (text : Text) : Bool × Text :=
  match text with
  | '?' :: rest => (true, rest)
  | _ => (false, text)

def typeBehindColon? (text : Text) : Option Text :=
  match Text.trimStart text with
  | ':' :: rest => if rest.isEmpty then none else some (cleanType rest)
  | _ => none

/-- What follows a word, blanks and a name, by the longest run of blanks that lets
the name follow.  Also gives the character before what follows. -/
def afterNamed? (word name text : Text) (accept : Option Char → Text → Option Text) :
    Option Text :=
  (Text.after? word text).bind fun behind =>
    (Text.longCuts Text.isSpace behind).findSome? fun (blanks, rest) =>
      if blanks.isEmpty then none
      else
        (Text.after? name rest).bind fun behind => accept (blanks ++ name).getLast? behind

/-- The text behind the brace that opens the body of an interface.  Type arguments
before it are passed over, and a semicolon means that there is no body. -/
def interfaceBody? : Nat → Option Char → Text → Option Text
  | _, _, [] => none
  | angles, previous, c :: rest =>
      if c == '<' then interfaceBody? (angles + 1) (some c) rest
      else if c == '>' && previous != some '=' then interfaceBody? (angles - 1) (some c) rest
      else if c == '\x7b' && angles == 0 then some rest
      else if c == ';' && angles == 0 then none
      else interfaceBody? angles (some c) rest

inductive TypeHead where
  | interface (behind : Text)
  | typeAlias (behind : Text)

def typeHeadAt? (name text : Text) : Option TypeHead :=
  let asInterface :=
    afterNamed? "interface" name text fun last behind =>
      if Text.atBoundary last behind then some behind else none
  match asInterface with
  | some behind => some (.interface behind)
  | none =>
      (afterNamed? "type" name text fun _ behind =>
        (Text.after? "=" (Text.trimStart behind)).bind fun behind =>
          Text.after? "\x7b" (Text.trimStart behind)).map .typeAlias

def typeHead? (name : Text) : Option Char → Text → Option TypeHead
  | previous, text =>
      let continues :=
        match previous with
        | some c => Text.continuesIdentifier c
        | none => false
      match if continues then none else typeHeadAt? name text with
      | some head => some head
      | none =>
          match text with
          | [] => none
          | c :: rest => typeHead? name (some c) rest

def typeBody? (name source : Text) : Option Text :=
  (typeHead? name none source).bind fun head =>
    let opened :=
      match head with
      | .interface behind => interfaceBody? 0 none behind
      | .typeAlias behind => some behind
    opened.bind fun behind => (balancedBlock behind).map (·.1)

/-- The text without block comments that span lines.  A comment ends at the first
star and slash behind its own slash. -/
def stripLongComments : Nat → Text → Text
  | _, [] => []
  | skip + 1, _ :: rest => stripLongComments skip rest
  | 0, c :: rest =>
      match Text.after? "/*" (c :: rest) with
      | none => c :: stripLongComments 0 rest
      | some _ =>
          match Text.cut? "*/" rest with
          | none => c :: rest
          | some (inside, _) =>
              let comment := c :: inside ++ "*/"
              if comment.any (· == '\n') then stripLongComments (inside.length + 2) rest
              else comment ++ stripLongComments (inside.length + 2) rest

structure MemberText where
  text : Text
  description : Option Text
  deriving DecidableEq, Repr

def isUnfinished (text : Text) : Bool :=
  [("|" : Text), "&", ":", "=>"].any fun ending => ending.isSuffixOf text

def isContinuation (text : Text) : Bool :=
  text.head? == some '|' || text.head? == some '&'

/-- A member without the line comment behind it.  Behind a quote there is none. -/
def cutLineComment (text : Text) : Text :=
  match Text.cut? "//" text with
  | some (before, _) =>
      if before.any fun c => c == '\'' || c == '"' then text else Text.trim before
  | none => text

/-- Members that have been read, the last one first, and the comment for the next
one. -/
structure MemberLines where
  reversed : List MemberText := []
  pending : Option Text := none

def MemberLines.add (lines : MemberLines) (text : Text) : MemberLines :=
  match lines.reversed with
  | last :: earlier =>
      if isContinuation text || isUnfinished last.text then
        { lines with reversed := { last with text := last.text ++ " " ++ text } :: earlier }
      else ⟨⟨cutLineComment text, lines.pending⟩ :: lines.reversed, none⟩
  | [] => ⟨[⟨cutLineComment text, lines.pending⟩], none⟩

def isMemberless (text : Text) : Bool :=
  text.isEmpty || "//".toList.isPrefixOf text || "/*".toList.isPrefixOf text

def MemberLines.addPiece (lines : MemberLines) (piece : Text) : MemberLines :=
  let text := Text.trim piece
  match Text.after? "/**" text with
  | none => if isMemberless text then lines else lines.add text
  | some rest =>
      match Text.cut? "*/" rest with
      | none => lines
      | some (comment, behind) =>
          let comment := Text.trim comment
          let lines := if comment.isEmpty then lines else { lines with pending := some comment }
          let text := Text.trim behind
          if isMemberless text then lines else lines.add text

def separatesMembers (c : Char) : Bool :=
  c == ';' || c == ',' || c == '\n'

def memberTexts (body : Text) : List MemberText :=
  let pieces := splitTopLevel separatesMembers (stripLongComments 0 body)
  (pieces.foldl MemberLines.addPiece {}).reversed.reverse

structure FoundMember where
  name : Text
  optional : Bool
  type : Text
  deriving DecidableEq, Repr

def isPlainQuote (c : Char) : Bool :=
  c == '\'' || c == '"'

def unquote (text : Text) : Text :=
  Text.dropEndWhile isPlainQuote (text.dropWhile isPlainQuote)

def memberName? (text : Text) : Option (Text × Text) :=
  match text with
  | quote :: rest =>
      if isPlainQuote quote then
        (Text.until? quote rest).map fun (inside, behind) => (unquote inside, behind)
      else Text.identifier? text
  | [] => none

def plainProperty? (text : Text) : Option FoundMember :=
  (memberName? text).bind fun (name, behind) =>
    let (optional, behind) := optionalMark behind
    (typeBehindColon? behind).map fun type => { name, optional, type }

def property? (text : Text) : Option FoundMember :=
  let marked := ((Text.after? "readonly" text).bind Text.afterBlanks?).bind plainProperty?
  marked.orElse fun _ => plainProperty? text

/-- A method.  Its parameters go up to the last parenthesis behind which a type
follows. -/
def method? (text : Text) : Option FoundMember :=
  (Text.identifier? text).bind fun (name, behind) =>
    let (optional, behind) := optionalMark behind
    (Text.after? "(" (Text.trimStart behind)).bind fun behind =>
      (Text.longCuts (fun _ => true) behind).findSome? fun (parameters, rest) =>
        (Text.after? ")" rest).bind fun rest =>
          (typeBehindColon? rest).map fun type =>
            { name, optional, type := "(" ++ Text.normalize parameters ++ ") => " ++ type }

def member? (text : Text) : Option FoundMember :=
  (property? text).orElse fun _ => method? text

end ComponentDocs.Component
