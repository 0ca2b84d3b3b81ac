import ComponentDocs.Text.Code
import ComponentDocs.Script.Token

/-!
Names, which may be spelled with Unicode escapes.
-/

namespace ComponentDocs.Script

/-- The code behind a backslash and the letter u: four digits, or digits in
braces.  Gives the code and the number of characters read. -/
def scanUnicodeCode (text : Text) : Option (Nat × Nat) :=
  match text with
  | '\x7b' :: rest =>
      let digits := rest.takeWhile Text.isHex
      match rest.drop digits.length with
      | '\x7d' :: _ =>
          let code := Text.hexNumber digits
          if digits.isEmpty || code > 0x10ffff then none else some (code, digits.length + 2)
      | _ => none
  | _ => (Text.hexNumber? 4 text).map fun code => (code, 4)

structure ScannedName where
  name : Text
  count : Nat
  escaped : Bool

/-- Scan the rest of a name, of which `skip` characters belong to an escape that has
been read.  An escape that is no name character makes the name unreadable. -/
def scanNameFrom (isPart : Char → Bool) : Nat → Text → Option ScannedName
  | _, [] => some ⟨[], 0, false⟩
  | skip + 1, _ :: rest =>
      (scanNameFrom isPart skip rest).map fun more => { more with count := more.count + 1 }
  | 0, c :: rest =>
      if c == '\\' then
        match rest with
        | 'u' :: digits =>
            (scanUnicodeCode digits).bind fun (code, count) =>
              if isPart (Char.ofNat code) then
                (scanNameFrom Text.isNamePart (count + 1) rest).map fun more =>
                  ⟨Char.ofNat code :: more.name, more.count + 1, true⟩
              else none
        | _ => none
      else if isPart c then
        (scanNameFrom Text.isNamePart 0 rest).map fun more =>
          ⟨c :: more.name, more.count + 1, more.escaped⟩
      else some ⟨[], 0, false⟩

def scanName (text : Text) : Option ScannedName :=
  scanNameFrom Text.isNameStart 0 text

theorem scanNameFrom_isNameCharacter {isPart : Char → Bool} {skip : Nat} {text : Text}
    {scanned : ScannedName} (hpart : ∀ c, isPart c = true → Text.isNameCharacter c = true)
    (hscan : scanNameFrom isPart skip text = some scanned) :
    scanned.name.all Text.isNameCharacter = true := by
  have hmore : ∀ c, Text.isNamePart c = true → Text.isNameCharacter c = true := by
    intro c hc
    simp [Text.isNameCharacter, hc]
  fun_induction scanNameFrom isPart skip text generalizing scanned with
  | case1 | case6 =>
      cases hscan
      rfl
  | case2 isPart skip c rest ih =>
      obtain ⟨more, hrest, rfl⟩ := Option.map_eq_some_iff.mp hscan
      simpa using ih hpart hrest
  | case3 isPart c _ digits ih =>
      obtain ⟨⟨code, count⟩, -, hcode⟩ := Option.bind_eq_some_iff.mp hscan
      dsimp only at hcode
      split at hcode
      · next hc =>
          obtain ⟨more, hrest, rfl⟩ := Option.map_eq_some_iff.mp hcode
          simpa [hpart _ hc] using ih count hmore hrest
      · cases hcode
  | case4 => cases hscan
  | case5 isPart c rest _ hc ih =>
      obtain ⟨more, hrest, rfl⟩ := Option.map_eq_some_iff.mp hscan
      simpa [hpart c hc] using ih hmore hrest

theorem scanName_isNameCharacter {text : Text} {scanned : ScannedName}
    (hscan : scanName text = some scanned) :
    scanned.name.all Text.isNameCharacter = true := by
  apply scanNameFrom_isNameCharacter _ hscan
  intro c hc
  simp [Text.isNameCharacter, hc]

end ComponentDocs.Script
