import ArrowLang.Binary64
import ArrowLang.Text

/-!
# Numerals

A numeral has a whole part, then perhaps a fraction and an exponent. Underscores may follow any
digit of the first two parts. `Numeral.scan` takes the longest numeral a text starts with: a point
or an `e` without a digit to follow it is left over.
-/

namespace ArrowLang

/-- The three parts as written: the fraction with its point and the exponent with its `e`. -/
structure Numeral where
  whole : Text
  fraction : Text
  exponent : Text
deriving DecidableEq

namespace Numeral

def text (n : Numeral) : Text := n.whole ++ n.fraction ++ n.exponent

def isDigitOrUnderscore (c : Char) : Bool := c.isDigit || c == '_'

/-- Splits a fraction off, empty if there is none. -/
def scanFraction : Text → Text × Text
  | '.' :: d :: cs =>
    if d.isDigit then
      ('.' :: d :: cs.takeWhile isDigitOrUnderscore, cs.dropWhile isDigitOrUnderscore)
    else ([], '.' :: d :: cs)
  | cs => ([], cs)

/-- Splits the sign of an exponent off, empty if there is none. -/
def scanSign : Text → Text × Text
  | '+' :: cs => (['+'], cs)
  | '-' :: cs => (['-'], cs)
  | cs => ([], cs)

/-- Splits an exponent off, empty if there is none. -/
def scanExponent : Text → Text × Text
  | [] => ([], [])
  | e :: cs =>
    let (sign, ds) := scanSign cs
    let digits := ds.takeWhile Char.isDigit
    if (e == 'e' || e == 'E') && !digits.isEmpty then
      (e :: (sign ++ digits), ds.dropWhile Char.isDigit)
    else ([], e :: cs)

/-- The numeral that starts with the digit `c`, and what follows it. -/
def scan (c : Char) (cs : Text) : Numeral × Text :=
  let whole := c :: cs.takeWhile isDigitOrUnderscore
  let (fraction, cs) := scanFraction (cs.dropWhile isDigitOrUnderscore)
  let (exponent, cs) := scanExponent cs
  (⟨whole, fraction, exponent⟩, cs)

/-- The number that the digits of a text spell, all else skipped. -/
def digitsValue (t : Text) : Nat :=
  (t.filter Char.isDigit).foldl (fun n c => 10 * n + (c.toNat - '0'.toNat)) 0

def exponentValue (t : Text) : Int :=
  if t.contains '-' then -digitsValue t else digitsValue t

/-- The nearest double; infinite if the numeral is out of range. -/
def value (n : Numeral) : Binary64 :=
  let places := (n.fraction.filter Char.isDigit).length
  .ofDecimal (digitsValue (n.whole ++ n.fraction)) (exponentValue n.exponent - places)

theorem scanFraction_append (t : Text) : (scanFraction t).1 ++ (scanFraction t).2 = t := by
  fun_cases scanFraction t <;> simp

theorem scanSign_append (t : Text) : (scanSign t).1 ++ (scanSign t).2 = t := by
  fun_cases scanSign t <;> simp

theorem scanExponent_append (t : Text) : (scanExponent t).1 ++ (scanExponent t).2 = t := by
  cases t with
  | nil => rfl
  | cons e cs =>
    have h := scanSign_append cs
    simp only [scanExponent]
    split
    · simpa using h
    · rfl

/-- A scan loses nothing. -/
theorem scan_append (c : Char) (cs : Text) :
    (scan c cs).1.text ++ (scan c cs).2 = c :: cs := by
  simp only [scan, text]
  rw [List.append_assoc, scanExponent_append, List.append_assoc, scanFraction_append,
    List.cons_append, List.takeWhile_append_dropWhile]

end Numeral

end ArrowLang
