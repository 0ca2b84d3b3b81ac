import ComponentDocs.Script.Token

/-!
Punctuators.  The longest one wins, except that a greater-than sign stands
alone: what follows it depends on the place in the grammar.
-/

namespace ComponentDocs.Script

def Punctuator.scan : Text → Option (Punctuator × Nat)
  | [] => none
  | c :: rest =>
      match c, rest with
      | '\x7b', _ => some (.openBrace, 1)
      | '\x7d', _ => some (.closeBrace, 1)
      | '(', _ => some (.openParen, 1)
      | ')', _ => some (.closeParen, 1)
      | '[', _ => some (.openBracket, 1)
      | ']', _ => some (.closeBracket, 1)
      | ';', _ => some (.semicolon, 1)
      | ',', _ => some (.comma, 1)
      | ':', _ => some (.colon, 1)
      | '@', _ => some (.atSign, 1)
      | '~', _ => some (.tilde, 1)
      | '>', _ => some (.greater, 1)
      | '.', '.' :: '.' :: _ => some (.ellipsis, 3)
      | '.', _ => some (.dot, 1)
      | '?', '?' :: '=' :: _ => some (.coalesceAssign, 3)
      | '?', '?' :: _ => some (.coalesce, 2)
      | '?', '.' :: d :: _ => if d.isDigit then some (.question, 1) else some (.questionDot, 2)
      | '?', '.' :: _ => some (.questionDot, 2)
      | '?', _ => some (.question, 1)
      | '=', '=' :: '=' :: _ => some (.strictEqual, 3)
      | '=', '=' :: _ => some (.equal, 2)
      | '=', '>' :: _ => some (.arrow, 2)
      | '=', _ => some (.assign, 1)
      | '!', '=' :: '=' :: _ => some (.strictNotEqual, 3)
      | '!', '=' :: _ => some (.notEqual, 2)
      | '!', _ => some (.bang, 1)
      | '+', '+' :: _ => some (.increment, 2)
      | '+', '=' :: _ => some (.plusAssign, 2)
      | '+', _ => some (.plus, 1)
      | '-', '-' :: _ => some (.decrement, 2)
      | '-', '=' :: _ => some (.minusAssign, 2)
      | '-', _ => some (.minus, 1)
      | '*', '*' :: '=' :: _ => some (.powerAssign, 3)
      | '*', '*' :: _ => some (.power, 2)
      | '*', '=' :: _ => some (.starAssign, 2)
      | '*', _ => some (.star, 1)
      | '/', '=' :: _ => some (.slashAssign, 2)
      | '/', _ => some (.slash, 1)
      | '%', '=' :: _ => some (.percentAssign, 2)
      | '%', _ => some (.percent, 1)
      | '<', '<' :: '=' :: _ => some (.shiftLeftAssign, 3)
      | '<', '<' :: _ => some (.shiftLeft, 2)
      | '<', '=' :: _ => some (.lessEqual, 2)
      | '<', _ => some (.less, 1)
      | '&', '&' :: '=' :: _ => some (.logicalAndAssign, 3)
      | '&', '&' :: _ => some (.logicalAnd, 2)
      | '&', '=' :: _ => some (.andAssign, 2)
      | '&', _ => some (.ampersand, 1)
      | '|', '|' :: '=' :: _ => some (.logicalOrAssign, 3)
      | '|', '|' :: _ => some (.logicalOr, 2)
      | '|', '=' :: _ => some (.orAssign, 2)
      | '|', _ => some (.bar, 1)
      | '^', '=' :: _ => some (.xorAssign, 2)
      | '^', _ => some (.caret, 1)
      | _, _ => none

def Punctuator.scanBehindGreater : Text → Punctuator × Nat
  | '>' :: '>' :: '=' :: _ => (.shiftRightZeroAssign, 3)
  | '>' :: '>' :: _ => (.shiftRightZero, 2)
  | '>' :: '=' :: _ => (.shiftRightAssign, 2)
  | '>' :: _ => (.shiftRight, 1)
  | '=' :: _ => (.greaterEqual, 1)
  | _ => (.greater, 0)

end ComponentDocs.Script
