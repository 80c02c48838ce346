import ArrowLang.Binary64

/-!
# Shortest decimal of a double

`Binary64.shortest` gives the fewest decimal digits that read back as the same number and, of these,
the ones nearest to it. `Binary64.render` writes them in positional or exponent notation.
-/

namespace ArrowLang

/-- The number `digits * 10 ^ exponent`. -/
structure Decimal where
  digits : Nat
  exponent : Int
deriving DecidableEq

namespace Binary64

/-- The `m` and `q` with value `m * 2 ^ q` of a finite number, its sign ignored. -/
def significand (x : Binary64) : Nat × Int :=
  if x.field == 0 then (x.fraction, -1074) else (x.fraction + fieldUnit, x.field - 1075)

/-- The decimal nearest to `m * 2 ^ q` among those that round to it and are multiples of
`10 ^ e`, the greater one of two equally near.

All is measured in units of `2 ^ (q - 2)`. The reals that round to `4 * m` lie between the midpoints
to its neighbours, of which the lower one is closer below a power of two; the midpoints count if `m`
is even. -/
def nearestOnGrid? (m : Nat) (q e : Int) : Option Decimal :=
  let unit := Nat.pow 2 (q - 2).toNat * Nat.pow 10 (-e).toNat
  let step := Nat.pow 10 e.toNat * Nat.pow 2 (2 - q).toNat
  let value := 4 * m * unit
  let low := if m == fieldUnit then (4 * m - 1) * unit else (4 * m - 2) * unit
  let high := (4 * m + 2) * unit
  let inside (d : Nat) : Bool :=
    if m % 2 == 0 then low ≤ d * step && d * step ≤ high else low < d * step && d * step < high
  let below := value / step
  let above := below + 1
  match inside below, inside above with
  | true, true =>
    if value - below * step < above * step - value then some ⟨below, e⟩ else some ⟨above, e⟩
  | true, false => some ⟨below, e⟩
  | false, true => some ⟨above, e⟩
  | false, false => none

/-- The decimal on the coarsest grid that has one, out of `n` grids from `10 ^ e` on downwards. -/
def coarsest (m : Nat) (q : Int) : Int → Nat → Decimal
  | e, 0 => ⟨0, e⟩
  | e, n + 1 => (nearestOnGrid? m q e).getD (coarsest m q (e - 1) n)

/-- The fewest digits that read back as the number. The first grid tried is coarser than the number
itself, and 17 digits always suffice. -/
def shortest (x : Binary64) : Decimal :=
  let (m, q) := x.significand
  if m == 0 then ⟨0, 0⟩ else
    -- the value is below `10 ^ top`, and more than a thousandth of it
    let top := ((m.log2 : Int) + 1 + q) * 30103 / 100000 + 2
    coarsest m q top 22

end Binary64

/-- How a decimal is laid out: by the places its point may take, counted from the first digit, for
positional notation, and with exponents written after `mark` otherwise. -/
structure Decimal.Layout where
  leastPoint : Int
  greatestPoint : Int
  mark : String

/-- Numbers from `10 ^ -4` to below `10 ^ 16` are positional. -/
def Binary64.layout : Decimal.Layout := ⟨-3, 16, "e"⟩

namespace Decimal

/-- Positional text always has a digit on either side of the point, exponent text has a point only
between two digits. -/
def render (layout : Layout) (d : Decimal) : String :=
  let digits := Nat.toDigits 10 d.digits
  let point := d.exponent + digits.length
  if d.digits == 0 then "0.0"
  else if layout.leastPoint ≤ point && point ≤ layout.greatestPoint then
    let whole := digits.take point.toNat ++ List.replicate (point.toNat - digits.length) '0'
    let fraction := List.replicate (-point).toNat '0' ++ digits.drop point.toNat
    let orZero (ds : List Char) := if ds.isEmpty then ['0'] else ds
    String.ofList (orZero whole ++ '.' :: orZero fraction)
  else
    let tail := match digits.drop 1 with
      | [] => []
      | rest => '.' :: rest
    String.ofList (digits.take 1 ++ tail) ++ layout.mark ++ toString (point - 1)

end Decimal

/-- The text of a finite number. -/
def Binary64.render (x : Binary64) : String :=
  let sign := if x.isNegative then "-" else ""
  sign ++ x.shortest.render Binary64.layout

end ArrowLang
