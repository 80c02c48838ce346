/-!
# Double-precision numbers

A number of the language is a 64-bit floating-point word: a sign bit, eleven bits of exponent and
52 bits of fraction. `Binary64.ofDecimal` reads a decimal by exact rounding: to the nearest word,
and to the even one of two that are equally near.
-/

namespace ArrowLang

/-- A floating-point number, given by its bits. -/
structure Binary64 where
  bits : UInt64
deriving DecidableEq, Inhabited

namespace Binary64

/-- The weight of the lowest bit of the exponent, `2 ^ 52`. -/
def fieldUnit : Nat := 0x10000000000000

/-- The exponent as it is stored, in eleven bits. -/
def field (x : Binary64) : Nat := x.bits.toNat / fieldUnit % 0x800

def fraction (x : Binary64) : Nat := x.bits.toNat % fieldUnit

def isNegative (x : Binary64) : Bool := x.bits ≥ 0x8000000000000000

/-- Numbers with the greatest exponent are no finite ones. -/
def isFinite (x : Binary64) : Bool := x.field != 0x7ff

/-- The bits of positive infinity. Every smaller pattern is a finite nonnegative number. -/
def infinityBits : Nat := 0x7ff * fieldUnit

def infinity : Binary64 := ⟨.ofNat infinityBits⟩

/-- The same number with the other sign. -/
def neg (x : Binary64) : Binary64 := ⟨x.bits ^^^ 0x8000000000000000⟩

/-- The quotient rounded to the nearest natural number, a tie to the even one. -/
def roundQuotient (num den : Nat) : Nat :=
  let q := num / den
  let twice := 2 * (num % den)
  if twice > den || (twice == den && q % 2 == 1) then q + 1 else q

/-- The greatest `k` with `2 ^ k * den ≤ num`, for positive arguments. -/
def floorLog2 (num den : Nat) : Int :=
  let k : Int := num.log2 - den.log2
  if den * Nat.pow 2 k.toNat ≤ num * Nat.pow 2 (-k).toNat then k else k - 1

/-- The nonnegative number nearest to `num / den`, or infinity from half a step above the
greatest finite one. The unit in the last place is `2 ^ q`, and never less than `2 ^ -1074`. -/
def ofQuotient (num den : Nat) : Binary64 :=
  let q : Int := max (-1074) (floorLog2 num den - 52)
  let m := roundQuotient (num * Nat.pow 2 (-q).toNat) (den * Nat.pow 2 q.toNat)
  ⟨.ofNat (min infinityBits ((q + 1074).toNat * fieldUnit + m))⟩

/-- The number nearest to `digits * 10 ^ exponent`. Decimals from `10 ^ 309` on are infinite and
those below `10 ^ -324` are zero, so no power of ten beyond these is ever computed. -/
def ofDecimal (digits : Nat) (exponent : Int) : Binary64 :=
  let magnitude : Int := exponent + (Nat.toDigits 10 digits).length
  if digits == 0 then ⟨0⟩
  else if magnitude > 309 then infinity
  else if magnitude ≤ -324 then ⟨0⟩
  else ofQuotient (digits * Nat.pow 10 exponent.toNat) (Nat.pow 10 (-exponent).toNat)

end Binary64

end ArrowLang
