import ComponentDocs.Proofs.TypeText.Tokens
import ComponentDocs.Script.Parse

/-!
# How types begin

A reader of types looks ahead: a parenthesis may open the parameters of a function or a type.
`Opening` says that what stands behind it does not begin like a parameter.
-/

namespace ComponentDocs.Script

open ComponentDocs.Script.Parser

/-- Whether a token of the kind opens no pattern and modifies nothing. -/
def TokenKind.opensPlainly : TokenKind → Bool
  | .punctuator mark => mark != .openBrace && mark != .openBracket
  | .name word => !word.any isModifier
  | _ => true

section

variable {token : Token} {cursor : Cursor} {context : Context} {mark : Punctuator}

theorem Token.of_opensPlainly (h : token.kind.opensPlainly = true) :
    (∀ mark ∈ [Punctuator.openBrace, .openBracket], token.is mark = false) ∧
      ∀ word, token.kind = .name (some word) → isModifier word = false := by
  refine ⟨fun mark hmark => ?_, fun word hword => by simpa [hword, TokenKind.opensPlainly] using h⟩
  rw [Token.is, beq_eq_false_iff_ne]
  intro heq
  simp only [heq, TokenKind.opensPlainly, List.mem_cons, List.not_mem_nil, or_false] at h hmark
  rcases hmark with rfl | rfl <;> contradiction

theorem skipParameterStart_apply (g : Grammar) (hbound : 0 < context.itemBound)
    (h : cursor.token.kind.opensPlainly = true) :
    skipParameterStart g context cursor =
      some (isPlainName cursor.token || cursor.token.isKeyword .thisWord,
        if (isPlainName cursor.token || cursor.token.isKeyword .thisWord) = true then cursor.advance
        else cursor) := by
  obtain ⟨hpattern, hmodifier⟩ := Token.of_opensPlainly h
  have hmodifiers : (discard modifiers : Parser Unit) context cursor = some ((), cursor) := by
    change (modifiers >>= fun _ => pure ()) context cursor = _
    rw [bind_apply, modifiers_apply_nil hmodifier hbound]
    rfl
  simp only [skipParameterStart, bind_apply, hmodifiers, Option.bind_some, token_apply,
    hpattern .openBrace (by decide), hpattern .openBracket (by decide), Bool.or_self,
    Bool.false_eq_true, ↓reduceIte]
  cases isPlainName cursor.token || cursor.token.isKeyword .thisWord <;> rfl

theorem isWord_of_isBindingName (h : isBindingName token = true) : isWord token = true := by
  revert h
  unfold isBindingName isWord
  split <;> simp_all

theorem isWord_of_plain (h : (isPlainName token || token.isKeyword .thisWord) = true) :
    isWord token = true := by
  revert h
  unfold isPlainName isWord Token.isKeyword
  split <;> simp_all

theorem yields_predicateSubject_mark (hkind : cursor.token.kind = .punctuator mark) :
    Yields predicateSubject context cursor fun _ _ => False := by
  have hname : isBindingName cursor.token = false := by simp [isBindingName, hkind]
  simp [predicateSubject, variableName, identifier, hname]

end

/-- The punctuators in front of which a parameter may end. -/
def parameterEnds : List Punctuator :=
  [.colon, .comma, .question, .assign, .closeParen]

/-- Behind a parenthesis, a type begins: a name in front of it is all of the type, or the type
goes on where no parameter does. -/
structure Opening (source after : Text) (cursor : Cursor) : Prop where
  is_eq_false : ∀ mark ∈ [Punctuator.closeParen, .ellipsis], cursor.token.is mark = false
  isPlain : cursor.token.kind.opensPlainly = true
  goesOn : isWord cursor.token = true → cursor.advance.Faces source after ∨
    ∀ mark ∈ parameterEnds, cursor.advance.token.is mark = false

end ComponentDocs.Script
