import Mathlib.Data.Nat.Digits.Lemmas
import ArrowLang.Proofs.Binary64.Rounding
import ArrowLang.Token.Numeral

/-!
# What numerals spell

A numeral spells a decimal: the digits before the point count powers of ten, those after it tenths
of the digit before, and the exponent moves the point. The value of a numeral is the double nearest
to its decimal, unless this is out of range (`Numeral.isRounding_value`).
-/

namespace ArrowLang

namespace Numeral

/-- The digits of a text, from left to right. -/
def digits (t : Text) : List Nat := (t.filter Char.isDigit).map fun c => c.toNat - '0'.toNat

/-- The whole number that the digits of a text spell. -/
def spelled (t : Text) : Nat := Nat.ofDigits 10 (digits t).reverse

def signedExponent (t : Text) : ℤ := if '-' ∈ t then -spelled t else spelled t

/-- The decimal that a numeral spells. -/
def decimal (n : Numeral) : ℚ :=
  (spelled n.whole + Nat.ofDigits (10⁻¹ : ℚ) (0 :: digits n.fraction)) *
    10 ^ signedExponent n.exponent

theorem digits_append (s t : Text) : digits (s ++ t) = digits s ++ digits t := by
  simp [digits]

theorem digitsValue_eq (t : Text) : digitsValue t = spelled t := by
  rw [spelled, Nat.ofDigits_eq_foldr, List.foldr_reverse, digits, List.foldl_map, digitsValue]
  simp only [Nat.cast_id, Nat.add_comm]

theorem exponentValue_eq (t : Text) : exponentValue t = signedExponent t := by
  simp [exponentValue, signedExponent, digitsValue_eq]

/-- Digits after the point, read with the point moved behind them. -/
theorem ofDigits_reverse (ds : List Nat) : ((Nat.ofDigits 10 ds.reverse : ℕ) : ℚ) =
    10 ^ ds.length * Nat.ofDigits (10⁻¹ : ℚ) (0 :: ds) := by
  induction ds with
  | nil => simp [Nat.ofDigits]
  | cons d ds ih =>
    rw [Nat.ofDigits_reverse_cons, Nat.cast_add, ih]
    simp only [Nat.ofDigits, List.length_cons, pow_succ, Nat.cast_mul, Nat.cast_pow]
    field_simp
    ring

theorem decimal_eq (n : Numeral) : n.decimal =
    digitsValue (n.whole ++ n.fraction) *
      10 ^ (exponentValue n.exponent - (n.fraction.filter Char.isDigit).length) := by
  have hlength : (n.fraction.filter Char.isDigit).length = (digits n.fraction).length := by
    simp [digits]
  rw [digitsValue_eq, exponentValue_eq, spelled, digits_append, List.reverse_append,
    Nat.ofDigits_append, Nat.cast_add, ofDigits_reverse, List.length_reverse, hlength,
    zpow_sub₀ (by norm_num), zpow_natCast, decimal, spelled]
  push_cast
  field_simp
  ring

theorem decimal_nonneg (n : Numeral) : 0 ≤ n.decimal := by
  rw [decimal_eq]
  positivity

/-- The value of a numeral is what its decimal is rounded to. -/
theorem isRounding_value (n : Numeral) : n.value.IsRounding n.decimal := by
  rw [decimal_eq]
  exact Binary64.isRounding_ofDecimal _ _

end Numeral

end ArrowLang
