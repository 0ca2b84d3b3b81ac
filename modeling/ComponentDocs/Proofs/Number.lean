import ComponentDocs.Number.Decimal
import Mathlib.Data.List.TakeWhile
import Mathlib.Data.Nat.Digits.Defs
import Mathlib.Tactic.NormNum
import Mathlib.Tactic.Ring

/-!
# Whole numbers of moderate size

A decimal of at most fifteen digits is never too large to be read.
-/

namespace ComponentDocs.Number

theorem digitsValue_lt (digits : Text) (h : digits.all Char.isDigit = true) :
    digitsValue digits < 10 ^ digits.length := by
  suffices hfold : ∀ value, digits.foldl (fun value c => value * 10 + (c.toNat - '0'.toNat)) value <
      (value + 1) * 10 ^ digits.length by simpa [digitsValue] using hfold 0
  induction digits with
  | nil => intro value; simp
  | cons c digits ih =>
      intro value
      rw [List.all_cons, Bool.and_eq_true] at h
      have hc : c.toNat - '0'.toNat ≤ 9 := by
        have hdigit := h.1
        simp only [Char.isDigit, Bool.and_eq_true, decide_eq_true_eq,
          UInt32.le_iff_toNat_le] at hdigit
        have hnine : c.toNat ≤ 57 := hdigit.2
        exact Nat.sub_le_of_le_add hnine
      have hrest := ih h.2 (value * 10 + (c.toNat - '0'.toNat))
      rw [List.foldl_cons, List.length_cons, Nat.pow_succ]
      calc _ < (value * 10 + (c.toNat - '0'.toNat) + 1) * 10 ^ digits.length := hrest
        _ ≤ (value + 1) * 10 * 10 ^ digits.length := Nat.mul_le_mul_right _ (by omega)
        _ = (value + 1) * (10 ^ digits.length * 10) := by ring

theorem Binary64.isSome_ofRatio? (negative : Bool) {n : Nat} (h : n < 10 ^ 15) :
    (ofRatio? negative n 1).isSome = true := by
  unfold ofRatio?
  split
  · rfl
  · next hne =>
      have hlog : n.log2 < 50 :=
        (Nat.log2_lt (by simpa using hne)).mpr (h.trans (by norm_num))
      have hexponent : exponentFor n 1 ≤ 1 := by
        have hone : Nat.log2 1 = 0 := by decide
        simp only [exponentFor, leastExponent, hone]
        split <;> omega
      dsimp only
      split
      all_goals
        rw [if_neg]
        · rfl
        · simp only [greatestExponent]
          omega

theorem isSome_readDecimal? (negative : Bool) {digits : Text} (hne : digits ≠ [])
    (hdigits : digits.all Char.isDigit = true) (hlength : digits.length ≤ 15) :
    (readDecimal? ((if negative then ("-" : Text) else []) ++ digits)).isSome = true := by
  have hlt : digitsValue digits < 10 ^ 15 :=
    (digitsValue_lt digits hdigits).trans_le (Nat.pow_le_pow_right (by decide) hlength)
  have hcount : (Binary64.digitCount (digitsValue digits) : Int) ≤ 15 := by
    exact_mod_cast Nat.toDigits_length 10 _ 15 (by decide) hlt
  have hsigned : ∀ signed, (Binary64.ofDecimal? signed (digitsValue digits) 0).isSome = true := by
    intro signed
    unfold Binary64.ofDecimal?
    dsimp only
    split
    · rfl
    · rw [if_neg (by omega), if_pos (by decide)]
      simpa using Binary64.isSome_ofRatio? signed hlt
  have hwhole : digits.takeWhile Char.isDigit = digits :=
    List.takeWhile_eq_self_iff.mpr (List.all_eq_true.mp hdigits)
  obtain ⟨d, more, rfl⟩ := List.exists_cons_of_ne_nil hne
  cases negative with
  | true => simpa [readDecimal?, hwhole, readExponent?] using hsigned true
  | false =>
      rw [List.all_cons, Bool.and_eq_true] at hdigits
      have hminus : d ≠ '-' := by
        rintro rfl
        exact absurd hdigits.1 (by decide)
      have hplus : d ≠ '+' := by
        rintro rfl
        exact absurd hdigits.1 (by decide)
      simpa [readDecimal?, hwhole, readExponent?, hminus, hplus] using hsigned false

end ComponentDocs.Number
