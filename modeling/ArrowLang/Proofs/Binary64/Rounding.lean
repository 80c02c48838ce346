import Mathlib.Algebra.Order.Field.Power
import Mathlib.Data.Nat.Digits.Lemmas
import Mathlib.Data.Rat.Cast.Order
import Mathlib.Tactic.FieldSimp
import Mathlib.Tactic.Linarith
import Mathlib.Tactic.NormNum.Pow
import Mathlib.Tactic.Positivity
import ArrowLang.Binary64

/-!
# Exact rounding

`Binary64.toRat` is the number that the bits of a double stand for. A decimal is read as the double
nearest to it, and as the even one of two that are equally near. From half a step above the greatest
double on it is out of range (`Binary64.isRounding_ofDecimal`).

Finite doubles are whole multiples of `2 ^ -1074`, and the proofs count in these units.
-/

namespace ArrowLang

namespace Binary64

/-! ## Values -/

/-- The absolute value, in units of `2 ^ -1074`. Without an exponent, the leading bit is missing. -/
def units (x : Binary64) : Nat :=
  if x.field = 0 then x.fraction else (fieldUnit + x.fraction) * Nat.pow 2 (x.field - 1)

/-- The number of units in `1`. -/
def scale : ℚ := 2 ^ 1074

theorem scale_pos : 0 < scale := by
  rw [scale]
  positivity

/-- The number that a finite double stands for. -/
def toRat (x : Binary64) : ℚ := (if x.isNegative then -(x.units : ℚ) else x.units) / scale

variable {x y : Binary64} {r : ℚ}

theorem fraction_lt (x : Binary64) : x.fraction < fieldUnit := Nat.mod_lt _ (by decide)

theorem isNegative_eq_false_iff : x.isNegative = false ↔ x.bits.toNat < 0x8000000000000000 := by
  simp [isNegative, UInt64.le_iff_toNat_le]

theorem bits_eq (h : x.isNegative = false) :
    x.bits.toNat = x.field * fieldUnit + x.fraction := by
  rw [isNegative_eq_false_iff] at h
  simp only [field, fraction, fieldUnit]
  omega

theorem isFinite_iff (h : x.isNegative = false) :
    x.isFinite = true ↔ x.bits.toNat < infinityBits := by
  rw [isNegative_eq_false_iff] at h
  simp only [isFinite, bne_iff_ne, field, infinityBits, fieldUnit]
  omega

/-- The double of a pattern without sign. -/
theorem toNat_bits_ofNat {b : Nat} (h : b < 0x8000000000000000) :
    (⟨.ofNat b⟩ : Binary64).bits.toNat = b := by
  rw [UInt64.toNat_ofNat']
  omega

theorem isNegative_ofNat {b : Nat} (h : b < 0x8000000000000000) :
    (⟨.ofNat b⟩ : Binary64).isNegative = false := by
  rwa [isNegative_eq_false_iff, toNat_bits_ofNat h]

theorem units_lt (x : Binary64) : x.units < fieldUnit * 2 ^ x.field := by
  have hfraction := x.fraction_lt
  rw [units]
  split
  next hfield => simpa [hfield] using hfraction
  next hfield =>
    calc (fieldUnit + x.fraction) * 2 ^ (x.field - 1)
      _ < (2 * fieldUnit) * 2 ^ (x.field - 1) := by gcongr; omega
      _ = fieldUnit * 2 ^ (x.field - 1 + 1) := by ring
      _ = fieldUnit * 2 ^ x.field := by rw [Nat.sub_add_cancel (by omega)]

theorem units_lt_of_field_lt (h : x.field < y.field) : x.units < y.units := by
  have hy : fieldUnit * 2 ^ x.field ≤ y.units := by
    rw [units, if_neg (by omega)]
    exact Nat.mul_le_mul (Nat.le_add_right _ _) (Nat.pow_le_pow_right (by omega) (by omega))
  exact Nat.lt_of_lt_of_le x.units_lt hy

/-- Nonnegative doubles are in the order of their bits. -/
theorem units_lt_units (hx : x.isNegative = false) (hy : y.isNegative = false)
    (h : x.bits.toNat < y.bits.toNat) : x.units < y.units := by
  rw [bits_eq hx, bits_eq hy] at h
  have hfx := x.fraction_lt
  have hfy := y.fraction_lt
  have hle : x.field ≤ y.field := by
    by_contra hlt
    have : (y.field + 1) * fieldUnit ≤ x.field * fieldUnit := Nat.mul_le_mul_right _ (by omega)
    rw [Nat.add_mul] at this
    omega
  rcases Nat.lt_or_eq_of_le hle with hlt | heq
  · exact units_lt_of_field_lt hlt
  · rw [heq] at h
    rw [units, units, heq]
    split
    · omega
    · exact Nat.mul_lt_mul_of_pos_right (by omega) (Nat.pow_pos (by omega))

theorem toRat_eq (hx : x.isNegative = false) : x.toRat = x.units / scale := by
  rw [toRat, hx, if_neg (by decide)]

/-! ## The nearest double -/

/-- `x` is the finite double nearest to `r`, and the even one of two that are equally near. -/
structure Nearest (x : Binary64) (r : ℚ) : Prop where
  finite : x.isFinite = true
  sign : x.isNegative = true ↔ r < 0
  near : ∀ y : Binary64, y.isFinite = true → |r - x.toRat| ≤ |r - y.toRat|
  even : ∀ y : Binary64, y.isFinite = true → y.toRat ≠ x.toRat →
    |r - y.toRat| = |r - x.toRat| → x.fraction % 2 = 0

theorem Nearest.isNegative_eq_false (h : x.Nearest r) (hr : 0 ≤ r) : x.isNegative = false := by
  rw [← Bool.not_eq_true, h.sign]
  exact not_lt.2 hr

/-- Two even patterns are not next to each other, and what is between them is nearer. -/
theorem Nearest.not_bits_lt (h : x.Nearest r) (h' : y.Nearest r) (hr : 0 ≤ r) :
    ¬ x.bits.toNat < y.bits.toNat := by
  intro hlt
  have hx := h.isNegative_eq_false hr
  have hy := h'.isNegative_eq_false hr
  have hrat {u v : Binary64} (hu : u.isNegative = false) (hv : v.isNegative = false)
      (huv : u.bits.toNat < v.bits.toNat) : u.toRat < v.toRat := by
    rw [toRat_eq hu, toRat_eq hv, div_lt_div_iff_of_pos_right scale_pos]
    exact_mod_cast units_lt_units hu hv huv
  have hxy := hrat hx hy hlt
  have htie : |r - x.toRat| = |r - y.toRat| :=
    le_antisymm (h.near y h'.finite) (h'.near x h.finite)
  have hevenx := h.even y h'.finite hxy.ne' htie.symm
  have heveny := h'.even x h.finite hxy.ne htie
  have hfinite := (isFinite_iff hy).1 h'.finite
  have hnext : x.bits.toNat + 1 < y.bits.toNat := by
    simp only [fraction, fieldUnit] at hevenx heveny
    omega
  have hsign : x.bits.toNat + 1 < 0x8000000000000000 := by
    have := isNegative_eq_false_iff.1 hy
    omega
  obtain ⟨z, hz, hbits⟩ : ∃ z : Binary64, z.isNegative = false ∧
      z.bits.toNat = x.bits.toNat + 1 := ⟨_, isNegative_ofNat hsign, toNat_bits_ofNat hsign⟩
  have hxz := hrat hx hz (by omega)
  have hzy := hrat hz hy (by omega)
  have hnear := h.near z ((isFinite_iff hz).2 (by omega))
  -- `r` is half way between `x` and `y`
  have hmiddle : r - x.toRat = y.toRat - r := by
    rcases abs_eq_abs.1 htie with heq | heq <;> linarith
  have hdist : |r - x.toRat| = r - x.toRat := abs_of_pos (by linarith)
  rw [hdist, le_abs] at hnear
  rcases hnear with hnear | hnear <;> linarith

theorem Nearest.unique (h : x.Nearest r) (h' : y.Nearest r) (hr : 0 ≤ r) : x = y := by
  have hxy := h.not_bits_lt h' hr
  have hyx := h'.not_bits_lt h hr
  obtain ⟨a⟩ := x
  obtain ⟨b⟩ := y
  rw [show a = b from UInt64.toNat_inj.1 (by dsimp only at hxy hyx; omega)]

/-! ## Rounded quotients -/

/-- The quotient is rounded by half a step at most, and by half a step to an even number only. -/
theorem roundQuotient_half (num : Nat) {den : Nat} (hden : 0 < den) :
    |(num / den : ℚ) - roundQuotient num den| ≤ 1 / 2 ∧
      (|(num / den : ℚ) - roundQuotient num den| = 1 / 2 → roundQuotient num den % 2 = 0) := by
  have hpos : (0 : ℚ) < den := by exact_mod_cast hden
  obtain ⟨f, hf⟩ : ∃ f : ℚ, f = (num % den : ℕ) / den := ⟨_, rfl⟩
  have hquotient : (num / den : ℚ) = (num / den : ℕ) + f := by
    have hmod : (num : ℚ) = den * (num / den : ℕ) + (num % den : ℕ) := by
      exact_mod_cast (Nat.div_add_mod num den).symm
    rw [hf, hmod]
    field_simp
  have hnonneg : 0 ≤ f := hf ▸ by positivity
  have hlt : f < 1 := hf ▸ (div_lt_one hpos).2 (by exact_mod_cast Nat.mod_lt num hden)
  have hhalf : f < 1 / 2 ↔ 2 * (num % den) < den := by
    rw [hf, div_lt_div_iff₀ hpos two_pos, one_mul, mul_comm]
    norm_cast
  have htie : f = 1 / 2 ↔ 2 * (num % den) = den := by
    rw [hf, div_eq_div_iff hpos.ne' two_ne_zero, one_mul, mul_comm]
    norm_cast
  rw [hquotient, roundQuotient]
  simp only [Bool.or_eq_true, Bool.and_eq_true, decide_eq_true_eq, beq_iff_eq]
  split
  next hup =>
    have hge : 1 / 2 ≤ f := by
      rw [← not_lt, hhalf]
      omega
    have hdist : |((num / den : ℕ) + f : ℚ) - (num / den + 1 : ℕ)| = 1 - f := by
      push_cast
      rw [abs_of_neg] <;> linarith
    rw [hdist]
    refine ⟨by linarith, fun h => ?_⟩
    have := htie.1 (by linarith)
    omega
  next hdown =>
    have hle : f ≤ 1 / 2 := by
      rw [← not_lt, not_lt, le_iff_lt_or_eq, hhalf, htie]
      omega
    have hdist : |((num / den : ℕ) + f : ℚ) - (num / den : ℕ)| = f := by
      rw [add_sub_cancel_left, abs_of_nonneg hnonneg]
    rw [hdist]
    refine ⟨hle, fun h => ?_⟩
    have := htie.1 h
    omega

/-- A power with an exponent of any sign, as the definitions compute it. -/
theorem cast_pow_toNat {b : Nat} (hb : 0 < b) (k : Int) :
    ((Nat.pow b k.toNat : ℕ) : ℚ) / (Nat.pow b (-k).toNat : ℕ) = (b : ℚ) ^ k := by
  have hne : (b : ℚ) ≠ 0 := by positivity
  rw [Nat.pow_eq, Nat.pow_eq, Nat.cast_pow, Nat.cast_pow, ← zpow_natCast, ← zpow_natCast,
    ← zpow_sub₀ hne, Int.toNat_sub_toNat_neg]

theorem cast_pow_pos {b : Nat} (hb : 0 < b) (n : Nat) : (0 : ℚ) < (Nat.pow b n : ℕ) := by
  exact_mod_cast Nat.pow_pos hb

theorem log2_bounds {n : Nat} (h : 0 < n) :
    (2 : ℚ) ^ (n.log2 : Int) ≤ n ∧ (n : ℚ) < 2 ^ (n.log2 + 1 : Int) := by
  rw [zpow_natCast, ← Nat.cast_add_one, zpow_natCast]
  exact ⟨by exact_mod_cast Nat.log2_self_le h.ne', by exact_mod_cast Nat.lt_log2_self⟩

/-- The quotient is between two powers of two that follow each other. -/
theorem floorLog2_spec {num den : Nat} (hnum : 0 < num) (hden : 0 < den) :
    (2 : ℚ) ^ floorLog2 num den ≤ num / den ∧ (num / den : ℚ) < 2 ^ (floorLog2 num den + 1) := by
  have hpos : (0 : ℚ) < den := by exact_mod_cast hden
  obtain ⟨hnum₁, hnum₂⟩ := log2_bounds hnum
  obtain ⟨hden₁, hden₂⟩ := log2_bounds hden
  obtain ⟨k, hk⟩ : ∃ k : Int, k = num.log2 - den.log2 := ⟨_, rfl⟩
  have hupper : (num / den : ℚ) < 2 ^ (k + 1) := by
    rw [div_lt_iff₀ hpos]
    calc (num : ℚ)
      _ < 2 ^ (num.log2 + 1 : Int) := hnum₂
      _ = 2 ^ (k + 1) * 2 ^ (den.log2 : Int) := by rw [← zpow_add₀ two_ne_zero, hk]; ring_nf
      _ ≤ 2 ^ (k + 1) * den := by gcongr
  have hlower : (2 : ℚ) ^ (k - 1) ≤ num / den := by
    rw [le_div_iff₀ hpos]
    calc (2 : ℚ) ^ (k - 1) * den
      _ ≤ 2 ^ (k - 1) * 2 ^ (den.log2 + 1 : Int) := by gcongr
      _ = 2 ^ (num.log2 : Int) := by rw [← zpow_add₀ two_ne_zero, hk]; ring_nf
      _ ≤ num := hnum₁
  have htest : den * Nat.pow 2 k.toNat ≤ num * Nat.pow 2 (-k).toNat ↔ (2 : ℚ) ^ k ≤ num / den := by
    have hpow := cast_pow_toNat two_pos k
    rw [Nat.cast_two] at hpow
    rw [← hpow, div_le_div_iff₀ (cast_pow_pos two_pos _) hpos, mul_comm]
    norm_cast
  rw [floorLog2, ← hk]
  split
  next h => exact ⟨htest.1 h, hupper⟩
  next h =>
    rw [htest, not_le] at h
    exact ⟨hlower, by rwa [sub_add_cancel]⟩

theorem one_sub_abs_le {w : ℚ} {m k : ℕ} (h : k ≠ m) : 1 - |w - m| ≤ |w - k| := by
  have hone : (1 : ℚ) ≤ |(m : ℚ) - k| := by
    have hint : 1 ≤ |(m : ℤ) - k| := Int.one_le_abs (by omega)
    exact_mod_cast hint
  have htriangle := abs_sub_le (m : ℚ) w k
  rw [abs_sub_comm (m : ℚ) w] at htriangle
  linarith

/-- What is rounded to less than an even number is less than half a step below it. -/
theorem lt_iff_of_half {w : ℚ} {m n : ℕ} (half : |w - m| ≤ 1 / 2)
    (even : |w - m| = 1 / 2 → m % 2 = 0) (hn : n % 2 = 0) : m < n ↔ w < n - 1 / 2 := by
  obtain ⟨hlow, hhigh⟩ := abs_le.1 half
  constructor
  · intro hm
    have hm' : (m : ℚ) + 1 ≤ n := by exact_mod_cast hm
    refine lt_of_le_of_ne (by linarith) fun heq => ?_
    -- a tie between `n` and the odd number before it
    have hlast : (m : ℚ) = n - 1 := by linarith
    have hodd : m + 1 = n := by exact_mod_cast eq_sub_iff_add_eq.1 hlast
    have heven := even (by rw [heq, hlast]; norm_num)
    omega
  · intro hlt
    have hm : (m : ℚ) < n := by linarith
    exact_mod_cast hm

/-! ## Patterns -/

/-- `m` steps of `2 ^ e` units are nearest to `R` units, and the step is the one of the doubles
around `R`. -/
structure Rounded (R : ℚ) (e m : Nat) : Prop where
  half : |R / 2 ^ e - m| ≤ 1 / 2
  even : |R / 2 ^ e - m| = 1 / 2 → m % 2 = 0
  lt : R / 2 ^ e < 2 ^ 53
  ge : e = 0 ∨ 2 ^ 52 ≤ R / 2 ^ e

namespace Rounded

variable {R : ℚ} {e m : Nat}

theorem le (h : Rounded R e m) : m ≤ 2 * fieldUnit := by
  have hlt : (m : ℚ) < 2 ^ 53 + 1 := by linarith [(abs_le.1 h.half).1, h.lt]
  have hlt' : m < 2 ^ 53 + 1 := by exact_mod_cast hlt
  simp only [fieldUnit]
  omega

theorem eq_zero_or_le (h : Rounded R e m) : e = 0 ∨ fieldUnit ≤ m := by
  refine h.ge.imp_right fun hge => ?_
  have hlt : (2 ^ 52 : ℚ) < m + 1 := by linarith [(abs_le.1 h.half).2]
  have hlt' : 2 ^ 52 < m + 1 := by exact_mod_cast hlt
  simp only [fieldUnit]
  omega

/-- The bits are those of the multiple. A carry into the exponent doubles the step. -/
theorem units_eq (h : Rounded R e m) (hbits : x.bits.toNat = e * fieldUnit + m)
    (hfinite : x.bits.toNat < infinityBits) : x.units = m * 2 ^ e := by
  have hle := h.le
  have hge := h.eq_zero_or_le
  have hfield : x.field = e + m / fieldUnit := by
    rw [field, hbits]
    simp only [hbits, infinityBits, fieldUnit] at hfinite ⊢
    omega
  have hfraction : x.fraction = m % fieldUnit := by
    rw [fraction, hbits, Nat.mul_add_mod_self_right]
  rw [units, hfield, hfraction]
  rcases Nat.lt_or_ge m fieldUnit with hlt | hm
  · obtain rfl : e = 0 := hge.resolve_right (by omega)
    simp [Nat.div_eq_of_lt hlt, Nat.mod_eq_of_lt hlt]
  · rw [if_neg (by have := Nat.div_pos hm (by decide); omega)]
    rcases Nat.lt_or_eq_of_le hle with hlt | rfl
    · have hdiv : m / fieldUnit = 1 := by simp only [fieldUnit] at hlt hm ⊢; omega
      have hmod : fieldUnit + m % fieldUnit = m := by
        have := Nat.div_add_mod m fieldUnit
        rwa [hdiv, Nat.mul_one] at this
      rw [hdiv, hmod, Nat.add_sub_cancel, Nat.pow_eq]
    · rw [Nat.mul_div_cancel _ (by decide), Nat.mul_mod_left, Nat.add_zero, Nat.pow_eq,
        Nat.add_sub_assoc (by omega), Nat.pow_add]
      ring

/-- A double is a multiple of the step, or it is below all numbers that have this step. -/
theorem exists_units_eq (h : Rounded R e m) (y : Binary64) :
    (∃ k, y.units = k * 2 ^ e) ∨ 2 ^ 52 ≤ R / 2 ^ e ∧ y.units < 2 ^ 52 * 2 ^ e := by
  rcases h.ge with rfl | hge
  · exact .inl ⟨y.units, by simp⟩
  rcases Nat.lt_or_ge e y.field with hlt | hle
  · refine .inl ⟨(fieldUnit + y.fraction) * 2 ^ (y.field - 1 - e), ?_⟩
    rw [units, if_neg (by omega), Nat.mul_assoc, ← Nat.pow_add,
      Nat.sub_add_cancel (by omega), Nat.pow_eq]
  · refine .inr ⟨hge, Nat.lt_of_lt_of_le y.units_lt ?_⟩
    exact Nat.mul_le_mul_left _ (Nat.pow_le_pow_right two_pos hle)

/-- The pattern is that of a finite double up to half a step above the greatest one. -/
theorem pattern_lt_iff (h : Rounded R e m) :
    e * fieldUnit + m < infinityBits ↔ R < 2 ^ 2098 - 2 ^ 2044 := by
  have hle := h.le
  obtain ⟨p, hp, hpos⟩ : ∃ p : ℚ, p = 2 ^ 2044 ∧ 0 < p := ⟨_, rfl, by positivity⟩
  have hbound : (2 ^ 2098 : ℚ) = 2 ^ 54 * p := by rw [hp, ← pow_add]
  rw [hbound, ← hp]
  rcases Nat.lt_trichotomy e 2045 with hlt | rfl | hgt
  · -- all multiples of such a step are far below
    have hpow : (2 : ℚ) ^ e ≤ p := by
      rw [hp]
      exact pow_le_pow_right₀ one_le_two (by omega)
    have hR : R < 2 ^ 53 * 2 ^ e := (div_lt_iff₀ (by positivity)).1 h.lt
    have hsmall : R < 2 ^ 54 * p - p := by linarith only [hpos, hpow, hR]
    simp only [hsmall, iff_true, infinityBits, fieldUnit] at hle ⊢
    omega
  · have hstep : (2 ^ 2045 : ℚ) = 2 * p := by rw [hp, ← pow_succ' 2 2044]
    obtain ⟨w, hw⟩ : ∃ w, w = R / 2 ^ 2045 := ⟨_, rfl⟩
    have hR : R < 2 ^ 54 * p - p ↔ w < 2 ^ 53 - 1 / 2 := by
      rw [hw, hstep, div_lt_iff₀ (mul_pos two_pos hpos)]
      exact ⟨fun h => by linarith only [h], fun h => by linarith only [h]⟩
    have hpattern : 2045 * fieldUnit + m < infinityBits ↔ m < 2 ^ 53 := by
      simp only [infinityBits, fieldUnit]
      omega
    rw [hR, hpattern, lt_iff_of_half (hw ▸ h.half) (hw ▸ h.even) (by decide)]
    norm_num
  · have hge : fieldUnit ≤ m := h.eq_zero_or_le.resolve_left (by omega)
    have hpow : 4 * p ≤ 2 ^ e := by
      calc 4 * p = 2 ^ 2046 := by rw [hp, show (4 : ℚ) = 2 ^ 2 by norm_num, ← pow_add]
        _ ≤ 2 ^ e := pow_le_pow_right₀ one_le_two (by omega)
    have hR : 2 ^ 52 * 2 ^ e ≤ R :=
      (le_div_iff₀ (by positivity)).1 (h.ge.resolve_left (by omega))
    have hlarge : ¬ R < 2 ^ 54 * p - p := not_lt.2 <| by
      calc 2 ^ 54 * p - p
        _ ≤ 2 ^ 52 * (4 * p) := by linarith only [hpos]
        _ ≤ 2 ^ 52 * 2 ^ e := by gcongr
        _ ≤ R := hR
    simp only [hlarge, iff_false, infinityBits, fieldUnit] at hge ⊢
    omega

/-- No double is nearer to `R` than the multiple is. -/
theorem near (h : Rounded R e m) (y : Binary64) :
    |R - (m * 2 ^ e : ℕ)| ≤ |R - y.units| ∧
      (|R - y.units| = |R - (m * 2 ^ e : ℕ)| → y.units ≠ m * 2 ^ e → m % 2 = 0) := by
  obtain ⟨w, hw⟩ : ∃ w, w = R / 2 ^ e := ⟨_, rfl⟩
  have hR : R = w * 2 ^ e := by rw [hw]; field_simp
  have hpos : (0 : ℚ) < 2 ^ e := by positivity
  have hdist (k : ℕ) : |R - (k * 2 ^ e : ℕ)| = |w - k| * 2 ^ e := by
    push_cast
    rw [hR, ← sub_mul, abs_mul, abs_of_pos hpos]
  have hhalf : |w - m| ≤ 1 / 2 := hw ▸ h.half
  have hnear (k : ℕ) : |w - m| ≤ |w - k| := by
    by_cases hk : k = m
    · rw [hk]
    · linarith [@one_sub_abs_le w m k hk]
  rcases h.exists_units_eq y with ⟨k, hk⟩ | ⟨hge, hlt⟩
  · rw [hk, hdist, hdist, mul_le_mul_iff_left₀ hpos, mul_left_inj' hpos.ne']
    refine ⟨hnear k, fun htie hne => h.even ?_⟩
    have hk' : k ≠ m := by
      rintro rfl
      exact hne rfl
    rw [← hw]
    linarith [@one_sub_abs_le w m k hk']
  · -- the least multiple with this step is between the double and `R`
    have hless : |R - (m * 2 ^ e : ℕ)| < |R - y.units| := by
      have hunits : (y.units : ℚ) < 2 ^ 52 * 2 ^ e := by exact_mod_cast hlt
      calc |R - (m * 2 ^ e : ℕ)|
        _ = |w - m| * 2 ^ e := hdist m
        _ ≤ |w - (2 ^ 52 : ℕ)| * 2 ^ e := mul_le_mul_of_nonneg_right (hnear _) hpos.le
        _ = R - 2 ^ 52 * 2 ^ e := by
          rw [← hw] at hge
          rw [Nat.cast_pow, Nat.cast_two, abs_of_nonneg (sub_nonneg.2 hge), sub_mul, ← hR]
        _ < R - y.units := by linarith
        _ ≤ |R - y.units| := le_abs_self _
    exact ⟨hless.le, fun htie => absurd htie hless.ne'⟩

end Rounded

theorem exists_rounded {num den : Nat} (hnum : 0 < num) (hden : 0 < den) :
    ∃ e m, ofQuotient num den = ⟨.ofNat (min infinityBits (e * fieldUnit + m))⟩ ∧
      Rounded (num / den * scale) e m := by
  obtain ⟨hlow, hhigh⟩ := floorLog2_spec hnum hden
  obtain ⟨q, hq⟩ : ∃ q : Int, q = max (-1074) (floorLog2 num den - 52) := ⟨_, rfl⟩
  have hstep : (num / den * scale : ℚ) / 2 ^ (q + 1074).toNat = num / den / 2 ^ q := by
    have he : ((q + 1074).toNat : Int) = q + 1074 := Int.toNat_of_nonneg (by omega)
    have hpow : (2 : ℚ) ^ (q + 1074).toNat = 2 ^ q * scale := by
      rw [← zpow_natCast, he, zpow_add₀ two_ne_zero, zpow_ofNat, scale]
    rw [hpow, mul_div_mul_right _ _ scale_pos.ne']
  have hscaled : ((num * Nat.pow 2 (-q).toNat : ℕ) : ℚ) / (den * Nat.pow 2 q.toNat : ℕ) =
      num / den / 2 ^ q := by
    have hpow := cast_pow_toNat two_pos q
    rw [Nat.cast_two] at hpow
    rw [← hpow, Nat.cast_mul, Nat.cast_mul, div_div_eq_mul_div, div_mul_eq_mul_div, div_div]
  obtain ⟨hhalf, heven⟩ := roundQuotient_half (num * Nat.pow 2 (-q).toNat)
    (Nat.mul_pos hden (Nat.pow_pos two_pos) : 0 < den * Nat.pow 2 q.toNat)
  rw [hscaled] at hhalf heven
  refine ⟨(q + 1074).toNat, _, by rw [ofQuotient, ← hq], ?_, ?_, ?_, ?_⟩
  · rwa [hstep]
  · rwa [hstep]
  · rw [hstep, div_lt_iff₀ (by positivity)]
    calc (num / den : ℚ)
      _ < 2 ^ (floorLog2 num den + 1) := hhigh
      _ ≤ 2 ^ (53 + q) := zpow_le_zpow_right₀ one_le_two (by omega)
      _ = 2 ^ 53 * 2 ^ q := by rw [zpow_add₀ two_ne_zero, zpow_ofNat]
  · rcases Int.le_total (floorLog2 num den - 52) (-1074) with hle | hle
    · exact .inl (by omega)
    · right
      rw [hstep, le_div_iff₀ (by positivity)]
      calc (2 ^ 52 * 2 ^ q : ℚ)
        _ = 2 ^ (52 + q) := by rw [zpow_add₀ two_ne_zero, zpow_ofNat]
        _ = 2 ^ floorLog2 num den := by rw [hq, max_eq_right hle, add_sub_cancel]
        _ ≤ num / den := hlow

/-- In units, half a step above the greatest double. -/
theorem lt_bound_iff : r * scale < 2 ^ 2098 - 2 ^ 2044 ↔ r < 2 ^ 1024 - 2 ^ 970 := by
  have hbound : (2 ^ 2098 - 2 ^ 2044 : ℚ) = (2 ^ 1024 - 2 ^ 970) * scale := by
    rw [scale, sub_mul, ← pow_add, ← pow_add]
  rw [hbound, mul_lt_mul_iff_left₀ scale_pos]

theorem abs_sub_toRat (hx : x.isNegative = false) (r : ℚ) :
    |r - x.toRat| * scale = |r * scale - x.units| := by
  have hsub : r * scale - x.units = (r - x.toRat) * scale := by
    rw [toRat_eq hx, sub_mul, div_mul_cancel₀ _ scale_pos.ne']
  rw [hsub, abs_mul, abs_of_pos scale_pos]

/-- A sign takes a double away from positive numbers. -/
theorem abs_sub_toRat_of_isNegative (hx : x.isNegative = true) (hr : 0 < r) :
    |r - x.toRat| * scale = r * scale + x.units := by
  have hsub : r - x.toRat = r + x.units / scale := by
    rw [toRat, hx, if_pos rfl, neg_div, sub_neg_eq_add]
  have hpos : 0 < r + x.units / scale :=
    add_pos_of_pos_of_nonneg hr (div_nonneg (Nat.cast_nonneg _) scale_pos.le)
  rw [hsub, abs_of_pos hpos, add_mul, div_mul_cancel₀ _ scale_pos.ne']

/-- Only zero is as far from a positive number with a sign as without. -/
theorem abs_sub_units_le (hr : 0 < r) (y : Binary64) :
    |r * scale - y.units| ≤ |r - y.toRat| * scale ∧
      (|r * scale - y.units| = |r - y.toRat| * scale → y.toRat = y.units / scale) := by
  cases hy : y.isNegative with
  | false => exact ⟨(abs_sub_toRat hy r).ge, fun _ => toRat_eq hy⟩
  | true =>
    have hpos : 0 < r * scale := mul_pos hr scale_pos
    have hunits : (0 : ℚ) ≤ y.units := Nat.cast_nonneg _
    rw [abs_sub_toRat_of_isNegative hy hr]
    refine ⟨abs_le.2 ⟨by linarith, by linarith⟩, fun h => ?_⟩
    have hzero : (y.units : ℚ) = 0 := by
      rcases abs_choice (r * scale - y.units) with habs | habs <;> linarith
    rw [toRat, hy, if_pos rfl, hzero, neg_zero]

theorem Rounded.nearest {e m : Nat} (h : Rounded (r * scale) e m) (hr : 0 < r)
    (hx : x.isNegative = false) (hbits : x.bits.toNat = e * fieldUnit + m)
    (hfinite : x.bits.toNat < infinityBits) : x.Nearest r := by
  have hunits := h.units_eq hbits hfinite
  have hdist := abs_sub_toRat hx r
  rw [hunits] at hdist
  refine ⟨(isFinite_iff hx).2 hfinite, by simp [hx, hr.le], fun y _ => ?_, fun y _ hne htie => ?_⟩
  · rw [← mul_le_mul_iff_left₀ scale_pos, hdist]
    exact (h.near y).1.trans (abs_sub_units_le hr y).1
  · obtain ⟨hle, heq⟩ := abs_sub_units_le hr y
    rw [htie, hdist] at hle heq
    have hsame := le_antisymm hle (h.near y).1
    have heven : m % 2 = 0 := by
      refine (h.near y).2 hsame fun hy => hne ?_
      rw [heq hsame, toRat_eq hx, hunits, hy]
    rw [fraction, hbits]
    simp only [fieldUnit]
    omega

/-! ## Quotients and decimals -/

/-- `x` is what `r` is rounded to: the nearest double, or none that is finite from half a step above
the greatest one on. -/
def IsRounding (x : Binary64) (r : ℚ) : Prop :=
  r < 2 ^ 1024 - 2 ^ 970 ∧ x.Nearest r ∨ 2 ^ 1024 - 2 ^ 970 ≤ r ∧ x.isFinite = false

theorem isRounding_ofQuotient {num den : Nat} (hnum : 0 < num) (hden : 0 < den) :
    (ofQuotient num den).IsRounding (num / den) := by
  have hr : (0 : ℚ) < num / den := by positivity
  obtain ⟨e, m, hpattern, hrounded⟩ := exists_rounded hnum hden
  have hiff := hrounded.pattern_lt_iff.trans lt_bound_iff
  rw [hpattern]
  rcases Nat.lt_or_ge (e * fieldUnit + m) infinityBits with hlt | hge
  · have hsign : e * fieldUnit + m < 0x8000000000000000 := Nat.lt_trans hlt (by decide)
    have hbits := toNat_bits_ofNat hsign
    rw [Nat.min_eq_right hlt.le]
    exact .inl ⟨hiff.1 hlt, hrounded.nearest hr (isNegative_ofNat hsign) hbits (by omega)⟩
  · rw [Nat.min_eq_left hge]
    exact .inr ⟨not_lt.1 (mt hiff.2 (by omega)), by decide⟩

theorem toDigits_bounds {n : Nat} (h : 0 < n) :
    10 ^ ((Nat.toDigits 10 n).length - 1) ≤ n ∧ n < 10 ^ (Nat.toDigits 10 n).length := by
  induction n using Nat.strongRecOn with
  | ind n ih =>
    rcases Nat.lt_or_ge n 10 with hlt | hge
    · rw [Nat.toDigits_of_lt_base hlt]
      simpa using ⟨h, hlt⟩
    · obtain ⟨hlow, hhigh⟩ := ih (n / 10) (by omega) (by omega)
      have hpos : 0 < (Nat.toDigits 10 (n / 10)).length := Nat.length_toDigits_pos
      rw [Nat.toDigits_of_base_le (by decide) hge, List.length_append, List.length_singleton,
        Nat.add_sub_cancel]
      constructor
      · calc 10 ^ (Nat.toDigits 10 (n / 10)).length
          _ = 10 ^ ((Nat.toDigits 10 (n / 10)).length - 1) * 10 := by
            rw [← Nat.pow_succ, Nat.succ_eq_add_one, Nat.sub_add_cancel hpos]
          _ ≤ n / 10 * 10 := Nat.mul_le_mul_right 10 hlow
          _ ≤ n := Nat.div_mul_le_self n 10
      · rw [Nat.pow_succ]
        omega

/-- A decimal is between two powers of ten that follow each other. -/
theorem decimal_bounds {digits : Nat} (h : 0 < digits) (exponent : Int) :
    (10 : ℚ) ^ (exponent + (Nat.toDigits 10 digits).length - 1) ≤ digits * 10 ^ exponent ∧
      (digits * 10 ^ exponent : ℚ) < 10 ^ (exponent + (Nat.toDigits 10 digits).length) := by
  obtain ⟨hlow, hhigh⟩ := toDigits_bounds h
  have hpos : 0 < (Nat.toDigits 10 digits).length := Nat.length_toDigits_pos
  have hshift (n : ℕ) : (10 : ℚ) ^ (exponent + n) = (10 ^ n : ℕ) * 10 ^ exponent := by
    rw [add_comm, zpow_add₀ (by norm_num), zpow_natCast, Nat.cast_pow, Nat.cast_ofNat]
  rw [add_sub_assoc, ← Nat.cast_pred hpos, hshift, hshift,
    mul_le_mul_iff_left₀ (by positivity), mul_lt_mul_iff_left₀ (by positivity)]
  exact ⟨by exact_mod_cast hlow, by exact_mod_cast hhigh⟩

theorem bound_pos : (0 : ℚ) < 2 ^ 1024 - 2 ^ 970 :=
  sub_pos.2 (pow_lt_pow_right₀ one_lt_two (by decide))

theorem bound_le_pow_ten : (2 ^ 1024 - 2 ^ 970 : ℚ) ≤ 10 ^ (309 : ℤ) := by
  have hpow : 2 ^ 1024 ≤ 10 ^ 309 := by decide +kernel
  rw [zpow_ofNat]
  exact (sub_le_self _ (by positivity)).trans (by exact_mod_cast hpow)

/-- Less than `10 ^ -324` is less than half a unit. -/
theorem pow_ten_mul_scale_lt : (10 : ℚ) ^ (-324 : ℤ) * scale < 1 / 2 := by
  have hpow : 2 ^ 1074 * 2 < 10 ^ 324 := by decide +kernel
  rw [zpow_neg, zpow_ofNat, scale, inv_mul_lt_iff₀ (by positivity), mul_one_div,
    lt_div_iff₀ two_pos]
  exact_mod_cast hpow

theorem nearest_zero : (⟨0⟩ : Binary64).Nearest 0 := by
  have hzero : (⟨0⟩ : Binary64).toRat = 0 := by
    rw [toRat_eq (by decide), show (⟨0⟩ : Binary64).units = 0 by decide, Nat.cast_zero, zero_div]
  refine ⟨by decide, by simp [show (⟨0⟩ : Binary64).isNegative = false by decide], fun y _ => ?_,
    fun _ _ _ _ => by decide⟩
  rw [hzero, sub_zero, abs_zero]
  exact abs_nonneg _

theorem isRounding_zero (hr : 0 < r) (h : r < 10 ^ (-324 : ℤ)) : (⟨0⟩ : Binary64).IsRounding r := by
  have hunits : r * scale < 1 / 2 :=
    (mul_lt_mul_of_pos_right h scale_pos).trans pow_ten_mul_scale_lt
  have hrounded : Rounded (r * scale) 0 0 := by
    refine ⟨?_, fun _ => rfl, ?_, .inl rfl⟩
    · rw [pow_zero, div_one, Nat.cast_zero, sub_zero, abs_of_pos (mul_pos hr scale_pos)]
      exact hunits.le
    · rw [pow_zero, div_one]
      linarith only [hunits]
  have hbound := hrounded.pattern_lt_iff.trans lt_bound_iff
  exact .inl ⟨hbound.1 (by decide), hrounded.nearest hr (by decide) (by decide) (by decide)⟩

/-- A decimal is read as the double nearest to it, unless it is out of range. -/
theorem isRounding_ofDecimal (digits : Nat) (exponent : Int) :
    (ofDecimal digits exponent).IsRounding (digits * 10 ^ exponent) := by
  unfold ofDecimal
  dsimp only
  split
  next hzero =>
    rw [beq_iff_eq.1 hzero, Nat.cast_zero, zero_mul]
    exact .inl ⟨bound_pos, nearest_zero⟩
  next hne =>
  have hpos : 0 < digits := Nat.pos_of_ne_zero (by simpa using hne)
  have hr : (0 : ℚ) < digits * 10 ^ exponent := by positivity
  obtain ⟨hlow, hhigh⟩ := decimal_bounds hpos exponent
  split
  next hlarge =>
    refine .inr ⟨bound_le_pow_ten.trans (le_trans ?_ hlow), by decide⟩
    exact zpow_le_zpow_right₀ (by norm_num) (by omega)
  split
  next hsmall =>
    exact isRounding_zero hr (hhigh.trans_le (zpow_le_zpow_right₀ (by norm_num) hsmall))
  next =>
    have hquotient : ((digits * Nat.pow 10 exponent.toNat : ℕ) : ℚ) /
        (Nat.pow 10 (-exponent).toNat : ℕ) = digits * 10 ^ exponent := by
      rw [Nat.cast_mul, mul_div_assoc, cast_pow_toNat (by norm_num), Nat.cast_ofNat]
    rw [← hquotient]
    exact isRounding_ofQuotient (Nat.mul_pos hpos (Nat.pow_pos (by norm_num)))
      (Nat.pow_pos (by norm_num))

end Binary64

end ArrowLang
