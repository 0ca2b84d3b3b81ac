import ComponentDocs.Json.Read
import ComponentDocs.Json.Write
import ComponentDocs.Proofs.Text.Scan
import Mathlib.Data.List.TakeWhile
import Mathlib.Tactic.IntervalCases

/-!
# Written numbers and strings

A number or a string is read up to its end, whatever stands behind it: a comma or a line
break behind a number, and anything behind a string.
-/

namespace ComponentDocs.Json

open Number

def Ends (rest : Text) : Prop :=
  ∀ c ∈ rest.head?, c = ',' ∨ c = '\n'

variable {rest behind digits : Text} {c : Char} {below negative : Bool} {value : Json} {n : Nat}

theorem Ends.ne (h : Ends rest) {d : Char} (hcomma : d ≠ ',') (hline : d ≠ '\n') :
    ∀ c ∈ rest.head?, c ≠ d := by
  rintro c hc rfl
  rcases h c hc with hc | hc
  · exact hcomma hc
  · exact hline hc

theorem Ends.isDigit (h : Ends rest) : ∀ c ∈ rest.head?, c.isDigit = false := by
  intro c hc
  rcases h c hc with rfl | rfl <;> decide

theorem skipBlanks_cons (hc : isBlank c = false) (text : Text) :
    skipBlanks (c :: text) = c :: text := by
  simp [skipBlanks, hc]

theorem skipBlanks_append {gap : Text} (hgap : gap.all isBlank = true) (text : Text) :
    skipBlanks (gap ++ text) = skipBlanks text := by
  rw [skipBlanks, List.dropWhile_append_of_pos (List.all_eq_true.mp hgap), skipBlanks]

theorem all_isBlank_newLine (level : Nat) : (newLine level).all isBlank = true := by
  have hspace : isBlank ' ' = true := by decide
  have hline : isBlank '\n' = true := by decide
  simp [newLine, hspace, hline]

theorem takeWhile_append_of_head? {p : Char → Bool} (text : Text)
    (h : ∀ c ∈ rest.head?, p c = false) : (text ++ rest).takeWhile p = text.takeWhile p := by
  induction text with
  | nil => exact Text.takeWhile_of_head? h
  | cons c text ih => simp only [List.cons_append, List.takeWhile_cons, ih]

theorem drop_takeWhile_append (p : Char → Bool) (text rest : Text) :
    (text ++ rest).drop (text.takeWhile p).length =
      text.drop (text.takeWhile p).length ++ rest :=
  List.drop_append_of_le_length (List.takeWhile_prefix p).length_le

theorem splitDigits_append (negative : Bool) {text : Text} (hrest : Ends rest)
    (h : (if (text.takeWhile Char.isDigit).isEmpty then none
      else some (negative, text.takeWhile Char.isDigit,
        text.drop (text.takeWhile Char.isDigit).length)) = some (below, digits, behind)) :
    (if ((text ++ rest).takeWhile Char.isDigit).isEmpty then none
      else some (negative, (text ++ rest).takeWhile Char.isDigit,
        (text ++ rest).drop ((text ++ rest).takeWhile Char.isDigit).length)) =
      some (below, digits, behind ++ rest) := by
  rw [takeWhile_append_of_head? text hrest.isDigit, drop_takeWhile_append]
  split at h
  · contradiction
  · next hne =>
      cases h
      rw [if_neg hne]

theorem splitExponent_append {text : Text} (hrest : Ends rest)
    (h : splitExponent text = some (below, digits, behind)) :
    splitExponent (text ++ rest) = some (below, digits, behind ++ rest) := by
  cases text with
  | nil => contradiction
  | cons c text =>
      by_cases hminus : c = '-'
      · subst hminus
        exact splitDigits_append true hrest h
      · by_cases hplus : c = '+'
        · subst hplus
          exact splitDigits_append false hrest h
        · have hsign (more : Text) : splitExponent (c :: more) =
              if ((c :: more).takeWhile Char.isDigit).isEmpty then none
              else some (false, (c :: more).takeWhile Char.isDigit,
                (c :: more).drop ((c :: more).takeWhile Char.isDigit).length) := by
            unfold splitExponent
            split
            next heq =>
              split at heq
              · simp_all
              · simp_all
              · cases heq
                rfl
          rw [hsign] at h
          rw [List.cons_append, hsign]
          exact splitDigits_append false hrest h

theorem readExponentPart_of_ends (negative : Bool) (significand : Nat) (exponent : Int)
    (hrest : Ends rest) :
    readExponentPart negative significand exponent rest =
      (scaledNumber? negative significand exponent).map fun number => (.float number, rest) := by
  cases rest with
  | nil => rfl
  | cons c rest =>
      rcases hrest c rfl with rfl | rfl <;> rfl

theorem readExponentPart_append (negative : Bool) (significand : Nat) (exponent : Int) {text : Text}
    (hrest : Ends rest)
    (h : readExponentPart negative significand exponent text = some (value, behind)) :
    readExponentPart negative significand exponent (text ++ rest) =
      some (value, behind ++ rest) := by
  cases text with
  | nil =>
      rw [List.nil_append, readExponentPart_of_ends _ _ _ hrest]
      obtain ⟨number, hnumber, heq⟩ := Option.map_eq_some_iff.mp h
      cases heq
      rw [hnumber]
      rfl
  | cons mark text =>
      rw [readExponentPart] at h
      rw [List.cons_append, readExponentPart]
      split at h
      · next hmark =>
          rw [if_pos hmark]
          obtain ⟨⟨below, digits, more⟩, hsplit, hvalue⟩ := Option.bind_eq_some_iff.mp h
          rw [splitExponent_append hrest hsplit, Option.bind_some]
          dsimp only at hvalue ⊢
          split at hvalue
          · next hlarge =>
              rw [if_pos hlarge]
              split at hvalue
              · contradiction
              · next hzero =>
                  cases hvalue
                  rw [if_neg hzero]
          · next hlarge =>
              rw [if_neg hlarge]
              obtain ⟨number, hnumber, heq⟩ := Option.map_eq_some_iff.mp hvalue
              cases heq
              rw [hnumber]
              rfl
      · next hmark =>
          rw [if_neg hmark]
          obtain ⟨number, hnumber, heq⟩ := Option.map_eq_some_iff.mp h
          cases heq
          rw [hnumber]
          rfl

theorem readFractionPart_of_ne {text : Text} (h : ∀ c ∈ text.head?, c ≠ '.') (negative : Bool)
    (significand dropped : Nat) :
    readFractionPart negative significand dropped text =
      readExponentPart negative significand dropped text := by
  unfold readFractionPart
  split
  · exact absurd rfl (h '.' rfl)
  · rfl

theorem readFractionPart_append (negative : Bool) (significand dropped : Nat) {text : Text}
    (hrest : Ends rest)
    (h : readFractionPart negative significand dropped text = some (value, behind)) :
    readFractionPart negative significand dropped (text ++ rest) =
      some (value, behind ++ rest) := by
  by_cases hpoint : ∃ more, text = '.' :: more
  · obtain ⟨more, rfl⟩ := hpoint
    rw [readFractionPart] at h
    rw [List.cons_append, readFractionPart, takeWhile_append_of_head? more hrest.isDigit,
      drop_takeWhile_append]
    split at h
    · contradiction
    · next hdigits =>
        rw [if_neg hdigits]
        exact readExponentPart_append _ _ _ hrest h
  · have hne : ∀ c ∈ text.head?, c ≠ '.' := by
      rintro c hc rfl
      cases text with
      | nil => contradiction
      | cons d more =>
          cases hc
          exact hpoint ⟨more, rfl⟩
    have hne_append : ∀ c ∈ (text ++ rest).head?, c ≠ '.' := by
      cases text with
      | nil => exact hrest.ne (by decide) (by decide)
      | cons d more => exact hne
    rw [readFractionPart_of_ne hne] at h
    rw [readFractionPart_of_ne hne_append]
    exact readExponentPart_append _ _ _ hrest h

def opensFraction : Text → Bool
  | c :: _ => c == '.' || c == 'e' || c == 'E'
  | [] => false

theorem opensFraction_append (text : Text) (hrest : Ends rest) :
    opensFraction (text ++ rest) = opensFraction text := by
  cases text with
  | nil =>
      cases rest with
      | nil => rfl
      | cons c rest => rcases hrest c rfl with rfl | rfl <;> rfl
  | cons c text => rfl

theorem readNumber_eq (negative : Bool) (text : Text) :
    readNumber negative text =
      let digits := text.takeWhile Char.isDigit
      let behind := text.drop digits.length
      let significand := (takeSignificand 0 digits).1
      let unread := (takeSignificand 0 digits).2
      if digits = [] ∨ (digits.head? = some '0' ∧ 2 ≤ digits.length) then none
      else if opensFraction behind || !unread.isEmpty then
        readFractionPart negative significand unread.length behind
      else (wholeNumber negative significand).map fun value => (value, behind) := by
  unfold readNumber
  dsimp only
  split
  · next hnil => simp [hnil]
  · next hzero => simp [hzero]
  · next hnil hzero =>
      have hdigits : ¬(text.takeWhile Char.isDigit = [] ∨
          ((text.takeWhile Char.isDigit).head? = some '0' ∧
            2 ≤ (text.takeWhile Char.isDigit).length)) := by
        rintro (hdigits | ⟨hhead, hlength⟩)
        · exact hnil hdigits
        · match hdigits : text.takeWhile Char.isDigit with
          | [] => exact hnil hdigits
          | [_] => simp [hdigits] at hlength
          | c :: d :: more =>
              rw [hdigits] at hhead
              cases hhead
              exact hzero d more hdigits
      rw [if_neg hdigits]
      rfl

theorem readNumber_append (negative : Bool) {text : Text} (hrest : Ends rest)
    (h : readNumber negative text = some (value, behind)) :
    readNumber negative (text ++ rest) = some (value, behind ++ rest) := by
  rw [readNumber_eq] at h ⊢
  dsimp only at h ⊢
  rw [takeWhile_append_of_head? text hrest.isDigit, drop_takeWhile_append,
    opensFraction_append _ hrest]
  split at h
  · contradiction
  · next hdigits =>
      rw [if_neg hdigits]
      split at h
      · next hpart =>
          rw [if_pos hpart]
          exact readFractionPart_append _ _ _ hrest h
      · next hwhole =>
          rw [if_neg hwhole]
          obtain ⟨number, hnumber, heq⟩ := Option.map_eq_some_iff.mp h
          cases heq
          rw [hnumber]
          rfl

theorem suffix_of_splitExponent {text : Text}
    (h : splitExponent text = some (below, digits, behind)) : behind <:+ text := by
  unfold splitExponent at h
  split at h
  next negative more heq =>
    have hmore : more <:+ text := by
      split at heq <;> cases heq
      · exact List.suffix_cons _ _
      · exact List.suffix_cons _ _
      · exact List.suffix_rfl
    dsimp only at h
    split at h
    · contradiction
    · cases h
      exact (List.drop_suffix _ _).trans hmore

theorem suffix_of_readExponentPart {significand : Nat} {exponent : Int} {text : Text}
    (h : readExponentPart negative significand exponent text = some (value, behind)) :
    behind <:+ text := by
  cases text with
  | nil =>
      obtain ⟨number, -, heq⟩ := Option.map_eq_some_iff.mp h
      cases heq
      exact List.suffix_rfl
  | cons mark text =>
      rw [readExponentPart] at h
      split at h
      · obtain ⟨⟨below, digits, more⟩, hsplit, hvalue⟩ := Option.bind_eq_some_iff.mp h
        have hmore : more <:+ mark :: text :=
          (suffix_of_splitExponent hsplit).trans (List.suffix_cons _ _)
        dsimp only at hvalue
        split at hvalue
        · split at hvalue
          · contradiction
          · cases hvalue
            exact hmore
        · obtain ⟨number, -, heq⟩ := Option.map_eq_some_iff.mp hvalue
          cases heq
          exact hmore
      · obtain ⟨number, -, heq⟩ := Option.map_eq_some_iff.mp h
        cases heq
        exact List.suffix_rfl

theorem suffix_of_readFractionPart {significand dropped : Nat} {text : Text}
    (h : readFractionPart negative significand dropped text = some (value, behind)) :
    behind <:+ text := by
  unfold readFractionPart at h
  split at h
  · dsimp only at h
    split at h
    · contradiction
    · exact (suffix_of_readExponentPart h).trans
        ((List.drop_suffix _ _).trans (List.suffix_cons _ _))
  · exact suffix_of_readExponentPart h

theorem suffix_of_readNumber {text : Text}
    (h : readNumber negative text = some (value, behind)) : behind <:+ text := by
  rw [readNumber_eq] at h
  dsimp only at h
  split at h
  · contradiction
  · split at h
    · exact (suffix_of_readFractionPart h).trans (List.drop_suffix _ _)
    · obtain ⟨number, -, heq⟩ := Option.map_eq_some_iff.mp h
      cases heq
      exact List.drop_suffix _ _

theorem le_foldl_digits (digits : Text) (value : Nat) :
    value ≤ Nat.ofDigitChars 10 digits value := by
  induction digits generalizing value with
  | nil => exact Nat.le_refl value
  | cons d digits ih =>
      have hstep := ih (10 * value + (d.toNat - '0'.toNat))
      simp only [Nat.ofDigitChars, List.foldl_cons] at hstep ⊢
      omega

theorem takeSignificand_of_le {value : Nat}
    (h : Nat.ofDigitChars 10 digits value ≤ greatestSignificand) :
    takeSignificand value digits = (Nat.ofDigitChars 10 digits value, []) := by
  induction digits generalizing value with
  | nil => rfl
  | cons d digits ih =>
      have hnext : value * 10 + (d.toNat - '0'.toNat) = 10 * value + (d.toNat - '0'.toNat) := by
        rw [Nat.mul_comm]
      have hle := le_foldl_digits digits (10 * value + (d.toNat - '0'.toNat))
      have hvalue : Nat.ofDigitChars 10 (d :: digits) value =
          Nat.ofDigitChars 10 digits (10 * value + (d.toNat - '0'.toNat)) := rfl
      rw [hvalue] at h ⊢
      rw [takeSignificand, hnext, if_neg (Nat.not_lt.mpr (hle.trans h)), ih h]

theorem head?_toDigits_ne (hn : 0 < n) : (Nat.toDigits 10 n).head? ≠ some '0' := by
  induction n using Nat.strongRecOn with
  | ind n ih =>
      by_cases hsmall : n < 10
      · rw [Nat.toDigits_of_lt_base hsmall]
        interval_cases n <;> decide
      · have hlarge : 10 ≤ n := Nat.le_of_not_lt hsmall
        rw [Nat.toDigits_of_base_le (by decide) hlarge, List.head?_append_of_ne_nil]
        · exact ih (n / 10) (by omega) (by omega)
        · exact Nat.toDigits_ne_nil

theorem readNumber_toDigits (negative : Bool) (hn : n < 2 ^ 64) (hrest : Ends rest) :
    readNumber negative (Nat.toDigits 10 n ++ rest) =
      (wholeNumber negative n).map fun value => (value, rest) := by
  have hall : ∀ c ∈ Nat.toDigits 10 n, c.isDigit = true := fun c hc =>
    Nat.isDigit_of_mem_toDigits (by decide) (by decide) hc
  have hdigits : (Nat.toDigits 10 n ++ rest).takeWhile Char.isDigit = Nat.toDigits 10 n := by
    rw [takeWhile_append_of_head? _ hrest.isDigit, List.takeWhile_eq_self_iff.mpr hall]
  have hvalue : Nat.ofDigitChars 10 (Nat.toDigits 10 n) 0 = n :=
    Nat.ofDigitChars_toDigits (by decide) (by decide)
  have htake : takeSignificand 0 (Nat.toDigits 10 n) = (n, []) := by
    have hle : n ≤ greatestSignificand := by
      rw [greatestSignificand]
      exact Nat.le_sub_one_of_lt hn
    rw [takeSignificand_of_le (hvalue.symm ▸ hle), hvalue]
  have hlead : ¬(Nat.toDigits 10 n = [] ∨
      ((Nat.toDigits 10 n).head? = some '0' ∧ 2 ≤ (Nat.toDigits 10 n).length)) := by
    rintro (hnil | ⟨hhead, hlength⟩)
    · exact Nat.toDigits_ne_nil hnil
    · rcases Nat.eq_zero_or_pos n with rfl | hpos
      · simp at hlength
      · exact head?_toDigits_ne hpos hhead
  have hopens : opensFraction rest = false := opensFraction_append [] hrest
  rw [readNumber_eq]
  dsimp only
  rw [hdigits, htake, if_neg hlead, List.drop_left, hopens]
  rfl

theorem readNumber_natAbs {value : Int} (hleast : -2 ^ 63 ≤ value) (hgreatest : value < 2 ^ 64)
    (hrest : Ends rest) :
    readNumber (value < 0) (Nat.toDigits 10 value.natAbs ++ rest) =
      some (.integer value, rest) := by
  rw [readNumber_toDigits _ (by omega) hrest]
  by_cases hsign : value < 0
  · have hzero : value.natAbs ≠ 0 := by omega
    have hlarge : ¬value.natAbs > Nat.pow 2 63 := by
      change ¬value.natAbs > 2 ^ 63
      omega
    have hvalue : -(value.natAbs : Int) = value := by omega
    simp [wholeNumber, hsign, hzero, hlarge, hvalue, -Nat.cast_natAbs]
  · have hvalue : (value.natAbs : Int) = value := by omega
    simp [wholeNumber, hsign, hvalue, -Nat.cast_natAbs]

/-! ## Strings -/

theorem readString_plain (hquote : c ≠ '"') (hslash : c ≠ '\\') (hsize : 32 ≤ c.toNat)
    (rest : Text) :
    readString (c :: rest) = (readString rest).map fun (more, behind) => (c :: more, behind) := by
  rw [readString]
  · simp [hslash]; omega
  all_goals simp_all

theorem readString_escaped {value : Char} (hc : escaped? c = some value) (rest : Text) :
    readString ('\\' :: c :: rest) =
      (readString rest).map fun (more, behind) => (value :: more, behind) := by
  have hu : c ≠ 'u' := by
    rintro rfl
    contradiction
  rw [readString]
  · simp [hc]
  all_goals simp_all

theorem readString_unicode {a b d : Char} {code : Nat}
    (hcode : Text.hexNumber? 4 [a, b, c, d] = some code) (hplain : Text.isSurrogate code = false)
    (rest : Text) :
    readString ('\\' :: 'u' :: a :: b :: c :: d :: rest) =
      (readString rest).map fun (more, behind) => (Char.ofNat code :: more, behind) := by
  obtain ⟨hhigh, hlow⟩ := Bool.or_eq_false_iff.mp hplain
  by_cases hpair : ∃ e f g h more, rest = '\\' :: 'u' :: e :: f :: g :: h :: more
  · obtain ⟨e, f, g, h, more, rfl⟩ := hpair
    rw [readString]
    simp [hcode, hhigh, hlow]
  · rw [readString]
    · simp [hcode, hplain]
    · rintro e f g h more rfl
      exact hpair ⟨e, f, g, h, more, rfl⟩

theorem readString_escape (c : Char) (rest : Text) :
    readString (escape c ++ rest) =
      (readString rest).map fun (more, behind) => (c :: more, behind) := by
  have hchar (n : Nat) (h : c.toNat = n) : c = Char.ofNat n := by rw [← h, Char.ofNat_toNat]
  unfold escape
  split_ifs with hquote hslash hline hreturn htab hback hfeed hsmall hcontrol
  · rw [beq_iff_eq.mp hquote]
    exact readString_escaped (by decide) rest
  · rw [beq_iff_eq.mp hslash]
    exact readString_escaped (by decide) rest
  · rw [beq_iff_eq.mp hline]
    exact readString_escaped (by decide) rest
  · rw [beq_iff_eq.mp hreturn]
    exact readString_escaped (by decide) rest
  · rw [beq_iff_eq.mp htab]
    exact readString_escaped (by decide) rest
  · rw [hchar 8 (beq_iff_eq.mp hback)]
    exact readString_escaped (by decide) rest
  · rw [hchar 12 (beq_iff_eq.mp hfeed)]
    exact readString_escaped (by decide) rest
  · obtain ⟨n, hn⟩ : ∃ n, c.toNat = n := ⟨_, rfl⟩
    rw [hn, hchar n hn]
    rw [hn] at hsmall
    interval_cases n <;> exact readString_unicode (by decide) (by decide) rest
  · obtain ⟨n, hn⟩ : ∃ n, c.toNat = n := ⟨_, rfl⟩
    rw [hn, hchar n hn]
    rw [hn] at hsmall hcontrol
    interval_cases n <;> exact readString_unicode (by decide) (by decide) rest
  · simp only [beq_iff_eq] at hquote hslash
    exact readString_plain hquote hslash (Nat.le_of_not_lt hcontrol) rest

theorem readString_quoted (text rest : Text) :
    readString (text.flatMap escape ++ '"' :: rest) = some (text, rest) := by
  induction text with
  | nil => rfl
  | cons c text ih =>
      rw [List.flatMap_cons, List.append_assoc, readString_escape, ih]
      rfl

/-! ## Fractions -/

theorem isBlank_of_isDigit (hc : c.isDigit = true) : isBlank c = false := by
  simp only [isBlank, Bool.or_eq_false_iff, beq_eq_false_iff_ne]
  refine ⟨⟨⟨?_, ?_⟩, ?_⟩, ?_⟩ <;> rintro rfl <;> contradiction

theorem isBlank_of_mem_toDigits (hc : c ∈ Nat.toDigits 10 n) :
    isBlank c = false :=
  isBlank_of_isDigit (Nat.isDigit_of_mem_toDigits (by decide) (by decide) hc)

theorem isBlank_of_mem_writePositional {decimal : Decimal}
    (hc : c ∈ floatFormat.writePositional decimal) : isBlank c = false := by
  have hzero : isBlank '0' = false := by decide
  have hpoint : isBlank '.' = false := by decide
  simp only [DecimalFormat.writePositional, floatFormat] at hc
  split_ifs at hc
  · simp only [List.mem_append, List.mem_replicate] at hc
    rcases hc with (hc | ⟨-, rfl⟩) | hc
    · rcases List.mem_pair.mp hc with rfl | rfl
      · exact hzero
      · exact hpoint
    · exact hzero
    · exact isBlank_of_mem_toDigits hc
  · simp only [List.mem_append, List.mem_replicate] at hc
    rcases hc with (hc | ⟨-, rfl⟩) | hc
    · exact isBlank_of_mem_toDigits hc
    · exact hzero
    · rcases List.mem_pair.mp hc with rfl | rfl
      · exact hpoint
      · exact hzero
  · simp only [List.mem_append] at hc
    rcases hc with (hc | hc) | hc
    · exact isBlank_of_mem_toDigits (List.mem_of_mem_take hc)
    · rw [List.mem_singleton.mp hc]
      exact hpoint
    · exact isBlank_of_mem_toDigits (List.mem_of_mem_drop hc)

theorem isBlank_of_mem_writeScientific {decimal : Decimal}
    (hc : c ∈ floatFormat.writeScientific decimal) : isBlank c = false := by
  simp only [DecimalFormat.writeScientific, List.mem_append] at hc
  rcases hc with (((hc | hc) | hc) | hc) | hc
  · exact isBlank_of_mem_toDigits (List.mem_of_mem_take hc)
  · split_ifs at hc
    · contradiction
    · rcases List.mem_cons.mp hc with rfl | hc
      · decide
      · exact isBlank_of_mem_toDigits (List.mem_of_mem_drop hc)
  · rw [List.mem_singleton.mp hc]
    decide
  · split_ifs at hc <;> rw [List.mem_singleton.mp hc] <;> decide
  · exact isBlank_of_mem_toDigits hc

theorem isBlank_of_mem_write {value : Binary64} (hc : c ∈ floatFormat.write value) :
    isBlank c = false := by
  have hsign (h : c ∈ (if value.negative then "-".toList else [])) : isBlank c = false := by
    split_ifs at h
    · rw [List.mem_singleton.mp h]
      decide
    · contradiction
  simp only [DecimalFormat.write] at hc
  generalize (if value.negative then "-".toList else []) = sign at hc hsign
  split_ifs at hc
  · simp only [List.mem_append] at hc
    rcases hc with (hc | hc) | hc
    · exact hsign hc
    · rw [List.mem_singleton.mp hc]
      decide
    · rcases List.mem_pair.mp hc with rfl | rfl <;> decide
  · rcases List.mem_append.mp hc with hc | hc
    · exact hsign hc
    · exact isBlank_of_mem_writePositional hc
  · rcases List.mem_append.mp hc with hc | hc
    · exact hsign hc
    · exact isBlank_of_mem_writeScientific hc

def ReadsBack (value : Binary64) : Prop :=
  read? 0 (compact (.float value)) = some (.float value)

theorem ReadsBack.text {value : Binary64} (h : ReadsBack value) :
    (∃ digits, floatFormat.write value = '-' :: digits ∧
      readNumber true digits = some (.float value, [])) ∨
    (∃ c more, floatFormat.write value = c :: more ∧ c.isDigit = true ∧
      readNumber false (c :: more) = some (.float value, [])) := by
  have hplain : ∀ c ∈ floatFormat.write value, isBlank c = false := fun c =>
    isBlank_of_mem_write
  have hleft {behind : Text} (hbehind : behind <:+ floatFormat.write value)
      (hblank : (skipBlanks behind).isEmpty = true) : behind = [] := by
    cases behind with
    | nil => rfl
    | cons c behind =>
        rw [skipBlanks_cons (hplain c (hbehind.subset List.mem_cons_self))] at hblank
        contradiction
  unfold ReadsBack read? compact at h
  split at h
  · next result behind hread =>
      split_ifs at h with hblank
      cases h
      match htext : floatFormat.write value with
      | [] =>
          rw [htext] at hread
          contradiction
      | c :: more =>
          rw [htext, readValue, skipBlanks_cons (hplain c (by simp [htext]))] at hread
          split at hread
          · contradiction
          · obtain ⟨_, -, heq⟩ := Option.map_eq_some_iff.mp hread
            cases heq
          · contradiction
          · contradiction
          · next digits heq =>
              cases heq
              have hend := hleft (htext ▸ (suffix_of_readNumber hread).trans
                (List.suffix_cons _ _)) hblank
              exact .inl ⟨_, rfl, hend ▸ hread⟩
          · next heq =>
              cases heq
              split_ifs at hread with hdigit
              · have hend := hleft (htext ▸ suffix_of_readNumber hread) hblank
                exact .inr ⟨_, _, rfl, hdigit, hend ▸ hread⟩
              · split at hread <;> cases hread
  · contradiction

end ComponentDocs.Json
