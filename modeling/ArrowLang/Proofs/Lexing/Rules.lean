import Mathlib.Computability.Language
import Mathlib.Data.List.TakeWhile
import ArrowLang.Token.Segment

/-!
# The rules of the lexer

A rule is a language over characters, written with classes of characters as a regular expression is.
`LongestIn L t x` says that `x` is the longest beginning of `t` in the language `L`. Languages that
follow one another are matched greedily, part by part, if no word of the next part starts with a
character of the part before it (`LongestIn.mul`). The three parts of a numeral are of this kind, so
the scan of a numeral, which never goes back, still finds the longest one.
-/

namespace ArrowLang

open scoped Computability

/-! ## Longest prefixes -/

/-- The words of one character of a class. -/
def charIn (p : Char → Bool) : Language Char := {x | ∃ c, p c = true ∧ x = [c]}

/-- `LongestIn L t x`: of the beginnings of `t` that are in `L`, the longest is `x`. -/
structure LongestIn (L : Language Char) (t x : Text) : Prop where
  starts : x <+: t
  mem : x ∈ L
  length_le : ∀ y, y <+: t → y ∈ L → y.length ≤ x.length

theorem mem_charIn_mul {p : Char → Bool} {L : Language Char} {x : Text} :
    x ∈ charIn p * L ↔ ∃ c y, p c = true ∧ y ∈ L ∧ x = c :: y := by
  rw [Language.mem_mul]
  constructor
  · rintro ⟨_, ⟨c, hc, rfl⟩, y, hy, rfl⟩
    exact ⟨c, y, hc, hy, rfl⟩
  · rintro ⟨c, y, hc, hy, rfl⟩
    exact ⟨[c], ⟨c, hc, rfl⟩, y, hy, rfl⟩

theorem mem_charIn_kstar {p : Char → Bool} {x : Text} :
    x ∈ (charIn p)∗ ↔ ∀ c ∈ x, p c = true := by
  rw [Language.mem_kstar]
  constructor
  · rintro ⟨words, rfl, hwords⟩ c hc
    obtain ⟨word, hword, hmem⟩ := List.mem_flatten.1 hc
    obtain ⟨d, hd, rfl⟩ := hwords word hword
    obtain rfl := List.mem_singleton.1 hmem
    exact hd
  · intro h
    refine ⟨x.map fun c => [c], ?_, fun word hword => ?_⟩
    · rw [← List.flatMap_def, List.flatMap_singleton']
    · obtain ⟨c, hc, rfl⟩ := List.mem_map.1 hword
      exact ⟨c, h c hc, rfl⟩

namespace LongestIn

variable {L M : Language Char} {t x y : Text} {p : Char → Bool}

theorem kstar (p : Char → Bool) (t : Text) : LongestIn (charIn p)∗ t (t.takeWhile p) where
  starts := List.takeWhile_prefix p
  mem := mem_charIn_kstar.2 fun c hc => List.mem_takeWhile_imp hc
  length_le := by
    rintro y ⟨z, rfl⟩ hy
    rw [List.takeWhile_append_of_pos (mem_charIn_kstar.1 hy)]
    simp

theorem singleton {c : Char} (hc : p c = true) (t : Text) : LongestIn (charIn p) (c :: t) [c] where
  starts := List.cons_prefix_cons.2 ⟨rfl, List.nil_prefix⟩
  mem := ⟨c, hc, rfl⟩
  length_le := by
    rintro y - ⟨d, -, rfl⟩
    simp

theorem cons {c : Char} (hc : p c = true) (h : LongestIn L t x) :
    LongestIn (charIn p * L) (c :: t) (c :: x) where
  starts := List.cons_prefix_cons.2 ⟨rfl, h.starts⟩
  mem := mem_charIn_mul.2 ⟨c, x, hc, h.mem, rfl⟩
  length_le := by
    intro y hy hmem
    obtain ⟨d, z, -, hz, rfl⟩ := mem_charIn_mul.1 hmem
    have := h.length_le z (List.cons_prefix_cons.1 hy).2 hz
    simpa using this

theorem optional (h : LongestIn L t x) : LongestIn (1 + L) t x where
  starts := h.starts
  mem := .inr h.mem
  length_le := by
    rintro y hy (rfl | hmem)
    · simp
    · exact h.length_le y hy hmem

theorem optional_nil (h : ∀ x, x <+: t → x ∉ L) : LongestIn (1 + L) t [] where
  starts := List.nil_prefix
  mem := .inl rfl
  length_le := by
    rintro y hy (rfl | hmem)
    · rfl
    · exact absurd hmem (h y hy)

/-- Two languages are matched greedily one after the other, if no word of the second starts with a
character that the first has. -/
theorem mul {r : Text} (hL : ∀ x ∈ L, ∀ c ∈ x, p c = true)
    (hM : ∀ c y, c :: y ∈ M → p c = false) (ht : x ++ r = t) (hx : LongestIn L t x)
    (hy : LongestIn M r y) : LongestIn (L * M) t (x ++ y) where
  starts := by
    rw [← ht, List.prefix_append_right_inj]
    exact hy.starts
  mem := Language.append_mem_mul hx.mem hy.mem
  length_le := by
    intro z hz hmem
    subst ht
    obtain ⟨x', hx', y', hy', rfl⟩ := Language.mem_mul.1 hmem
    have hle := hx.length_le x' ((List.prefix_append x' y').trans hz) hx'
    obtain ⟨w, rfl⟩ : x' <+: x :=
      List.prefix_of_prefix_length_le ((List.prefix_append x' y').trans hz)
        (List.prefix_append x r) hle
    rw [List.append_assoc, List.prefix_append_right_inj] at hz
    cases w with
    | nil =>
      have := hy.length_le y' hz hy'
      simpa using this
    | cons c w =>
      -- the second word would start inside the first one
      cases y' with
      | nil => simp only [List.length_append, List.append_nil]; omega
      | cons d y' =>
        obtain rfl : d = c := (List.cons_prefix_cons.1 hz).1
        have hpos := hL _ hx.mem d (by simp)
        rw [hM d y' hy'] at hpos
        contradiction

end LongestIn

/-- Under the same condition a word splits in one way only. -/
theorem append_inj_of_mem {L M : Language Char} {p : Char → Bool} {x x' y y' : Text}
    (hL : ∀ x ∈ L, ∀ c ∈ x, p c = true) (hM : ∀ c y, c :: y ∈ M → p c = false)
    (hx : x ∈ L) (hx' : x' ∈ L) (hy : y ∈ M) (hy' : y' ∈ M) (h : x ++ y = x' ++ y') :
    x = x' ∧ y = y' := by
  have key : ∀ {x x' y y' : Text}, x' ∈ L → y ∈ M → x ++ y = x' ++ y' → x'.length ≤ x.length := by
    intro x x' y y' hx' hy h
    by_contra hlt
    obtain ⟨w, rfl⟩ : x <+: x' := List.prefix_of_prefix_length_le (List.prefix_append x y)
      (h ▸ List.prefix_append x' y') (by omega)
    cases w with
    | nil => simp at hlt
    | cons c w =>
      rw [List.append_assoc, List.append_cancel_left_eq] at h
      subst h
      have hpos := hL _ hx' c (by simp)
      rw [hM _ _ hy] at hpos
      contradiction
  exact List.append_inj h (Nat.le_antisymm (key hx hy' h.symm) (key hx' hy h))

/-! ## Numerals -/

namespace Numeral

def wholes : Language Char := charIn Char.isDigit * (charIn isDigitOrUnderscore)∗

def fractions : Language Char := charIn (· == '.') * wholes

def isSign (c : Char) : Bool := c == '+' || c == '-'

def exponents : Language Char :=
  charIn (fun c => c == 'e' || c == 'E') * ((1 + charIn isSign) *
    (charIn Char.isDigit * (charIn Char.isDigit)∗))

/-- A numeral whose parts are as they should be; the second and the third may be missing. -/
structure WellFormed (n : Numeral) : Prop where
  whole : n.whole ∈ wholes
  fraction : n.fraction ∈ 1 + fractions
  exponent : n.exponent ∈ 1 + exponents

theorem isDigitOrUnderscore_of_mem {x : Text} (h : x ∈ wholes) :
    ∀ c ∈ x, isDigitOrUnderscore c = true := by
  obtain ⟨d, y, hd, hy, rfl⟩ := mem_charIn_mul.1 h
  intro c hc
  rcases List.mem_cons.1 hc with rfl | hc
  · simp [isDigitOrUnderscore, hd]
  · exact mem_charIn_kstar.1 hy c hc

theorem longestIn_wholes {c : Char} (hc : c.isDigit = true) (cs : Text) :
    LongestIn wholes (c :: cs) (c :: cs.takeWhile isDigitOrUnderscore) :=
  .cons hc (.kstar _ cs)

theorem longestIn_fractions (t : Text) : LongestIn (1 + fractions) t (scanFraction t).1 := by
  fun_cases scanFraction t with
  | case1 d cs hd => exact .optional (.cons rfl (longestIn_wholes hd cs))
  | case2 d cs hd =>
    refine .optional_nil fun x hx hmem => hd ?_
    obtain ⟨_, y, -, hy, rfl⟩ := mem_charIn_mul.1 hmem
    obtain ⟨e, z, he, -, rfl⟩ := mem_charIn_mul.1 hy
    obtain ⟨-, rfl, -⟩ := by simpa [List.cons_prefix_cons] using hx
    exact he
  | case3 t hne =>
    refine .optional_nil fun x hx hmem => ?_
    obtain ⟨c, y, hc, hy, rfl⟩ := mem_charIn_mul.1 hmem
    obtain ⟨d, z, -, -, rfl⟩ := mem_charIn_mul.1 hy
    obtain rfl : c = '.' := by simpa using hc
    obtain ⟨w, rfl⟩ := hx
    exact hne d (z ++ w) rfl

theorem isSign_of_isDigit {c : Char} (h : c.isDigit = true) : isSign c = false := by
  by_contra hs
  simp only [isSign, Bool.not_eq_false, Bool.or_eq_true, beq_iff_eq] at hs
  rcases hs with rfl | rfl <;> simp at h

theorem longestIn_sign (t : Text) : LongestIn (1 + charIn isSign) t (scanSign t).1 := by
  fun_cases scanSign t with
  | case1 cs => exact .optional (.singleton rfl cs)
  | case2 cs => exact .optional (.singleton rfl cs)
  | case3 t hplus hminus =>
    refine .optional_nil ?_
    rintro _ ⟨w, rfl⟩ ⟨c, hc, rfl⟩
    simp only [isSign, Bool.or_eq_true, beq_iff_eq] at hc
    rcases hc with rfl | rfl
    · exact hplus w rfl
    · exact hminus w rfl

theorem scanSign_append_digit {s w : Text} {d : Char} (hs : s ∈ 1 + charIn isSign)
    (hd : d.isDigit = true) : scanSign (s ++ d :: w) = (s, d :: w) := by
  rcases hs with rfl | ⟨c, hc, rfl⟩
  · unfold scanSign
    split
    · rename_i h
      obtain ⟨rfl, -⟩ := List.cons.inj h
      simp at hd
    · rename_i h
      obtain ⟨rfl, -⟩ := List.cons.inj h
      simp at hd
    · rfl
  · simp only [isSign, Bool.or_eq_true, beq_iff_eq] at hc
    rcases hc with rfl | rfl <;> rfl

theorem longestIn_exponents (t : Text) : LongestIn (1 + exponents) t (scanExponent t).1 := by
  cases t with
  | nil =>
    refine .optional_nil fun x hx hmem => ?_
    obtain ⟨c, y, -, -, rfl⟩ := mem_charIn_mul.1 hmem
    simp at hx
  | cons e cs =>
    simp only [scanExponent]
    split
    · rename_i h
      obtain ⟨he, hdigits⟩ := Bool.and_eq_true_iff.1 h
      refine .optional (.cons he ?_)
      refine .mul (p := isSign) ?_ ?_ (scanSign_append cs) (longestIn_sign cs) ?_
      · rintro _ (rfl | ⟨c, hc, rfl⟩) <;> simp_all
      · intro c y hmem
        obtain ⟨d, z, hd, -, h⟩ := mem_charIn_mul.1 hmem
        obtain ⟨rfl, rfl⟩ := List.cons.inj h
        exact isSign_of_isDigit hd
      · cases hds : (scanSign cs).2 with
        | nil => simp [hds] at hdigits
        | cons d ds =>
          by_cases hd : d.isDigit = true
          · rw [List.takeWhile_cons_of_pos hd]
            exact .cons hd (.kstar _ ds)
          · simp [hds, hd] at hdigits
    · rename_i h
      refine .optional_nil fun x hx hmem => h ?_
      obtain ⟨c, _, hc, hy, rfl⟩ := mem_charIn_mul.1 hmem
      obtain ⟨s, hs, _, hz, rfl⟩ := Language.mem_mul.1 hy
      obtain ⟨d, z, hd, -, rfl⟩ := mem_charIn_mul.1 hz
      obtain ⟨rfl, w, rfl⟩ := List.cons_prefix_cons.1 hx
      rw [List.append_assoc, List.cons_append, scanSign_append_digit hs hd]
      simp [hc, hd]

/-! No part starts with a character of the parts before it. -/

theorem not_mem_wholes_of_fraction (c : Char) (y : Text) (h : c :: y ∈ 1 + fractions) :
    isDigitOrUnderscore c = false := by
  rcases h with h | h
  · cases h
  · obtain ⟨d, z, hd, -, h⟩ := mem_charIn_mul.1 h
    obtain ⟨rfl, rfl⟩ := List.cons.inj h
    obtain rfl : c = '.' := by simpa using hd
    decide

def isMantissa (c : Char) : Bool := isDigitOrUnderscore c || c == '.'

theorem isMantissa_of_mem {x : Text} (h : x ∈ wholes * (1 + fractions)) :
    ∀ c ∈ x, isMantissa c = true := by
  obtain ⟨w, hw, f, hf, rfl⟩ := Language.mem_mul.1 h
  have hwhole {w : Text} (hw : w ∈ wholes) : ∀ c ∈ w, isMantissa c = true := fun c hc => by
    simp [isMantissa, isDigitOrUnderscore_of_mem hw c hc]
  intro c hc
  rcases List.mem_append.1 hc with hc | hc
  · exact hwhole hw c hc
  · rcases hf with rfl | hf
    · cases hc
    · obtain ⟨d, z, hd, hz, rfl⟩ := mem_charIn_mul.1 hf
      rcases List.mem_cons.1 hc with rfl | hc
      · simp_all [isMantissa]
      · exact hwhole hz c hc

theorem isMantissa_of_exponent (c : Char) (y : Text) (h : c :: y ∈ 1 + exponents) :
    isMantissa c = false := by
  rcases h with h | h
  · cases h
  · obtain ⟨d, z, hd, -, h⟩ := mem_charIn_mul.1 h
    obtain ⟨rfl, rfl⟩ := List.cons.inj h
    obtain rfl | rfl : c = 'e' ∨ c = 'E' := by simpa using hd
    all_goals decide

def numerals : Language Char := wholes * (1 + fractions) * (1 + exponents)

/-- A numeral has its parts from its text. -/
theorem WellFormed.eq_of_text_eq {m n : Numeral} (hm : m.WellFormed) (hn : n.WellFormed)
    (h : m.text = n.text) : m = n := by
  obtain ⟨h, hexponent⟩ := append_inj_of_mem (fun _ => isMantissa_of_mem) isMantissa_of_exponent
    (Language.append_mem_mul hm.whole hm.fraction) (Language.append_mem_mul hn.whole hn.fraction)
    hm.exponent hn.exponent h
  obtain ⟨hwhole, hfraction⟩ := append_inj_of_mem (fun _ => isDigitOrUnderscore_of_mem)
    not_mem_wholes_of_fraction hm.whole hn.whole hm.fraction hn.fraction h
  cases m
  cases n
  simp_all

theorem scan_wellFormed {c : Char} (hc : c.isDigit = true) (cs : Text) :
    (scan c cs).1.WellFormed where
  whole := (longestIn_wholes hc cs).mem
  fraction := (longestIn_fractions _).mem
  exponent := (longestIn_exponents _).mem

/-- The scan of a numeral finds the longest. -/
theorem longestIn_numerals {c : Char} (hc : c.isDigit = true) (cs : Text) :
    LongestIn numerals (c :: cs) (scan c cs).1.text := by
  let r := cs.dropWhile isDigitOrUnderscore
  have hmantissa := LongestIn.mul (fun _ => isDigitOrUnderscore_of_mem) not_mem_wholes_of_fraction
    (by simp [r]) (longestIn_wholes hc cs) (longestIn_fractions r)
  have happend : c :: cs.takeWhile isDigitOrUnderscore ++ (scanFraction r).1 ++ (scanFraction r).2 =
      c :: cs := by
    rw [List.append_assoc, scanFraction_append, List.cons_append, List.takeWhile_append_dropWhile]
  exact .mul (fun _ => isMantissa_of_mem) isMantissa_of_exponent happend hmantissa
    (longestIn_exponents _)

end Numeral

/-! ## Rules -/

/-- The tokens that are always written in the same way. -/
def spellings : List (Token.Kind × Text) :=
  [(.const, "const".toList), (.bool true, "true".toList), (.bool false, "false".toList),
    (.fatArrow, ['=', '>']), (.equals, ['=']), (.plus, ['+']), (.question, ['?']), (.colon, [':']),
    (.leftParen, ['(']), (.rightParen, [')']), (.comma, [',']), (.semicolon, [';'])]

inductive Rule where
  | blank
  | lineComment
  | blockComment
  | number
  | name
  | fixed (kind : Token.Kind)

namespace Rule

open Segment

/-- What a rule matches. The rule for block comments only matches their opening mark. -/
def language : Rule → Language Char
  | blank => charIn isBlank * (charIn isBlank)∗
  | lineComment => charIn (· == '/') * (charIn (· == '/') * (charIn (· != '\n'))∗)
  | blockComment => {['/', '*']}
  | number => Numeral.numerals
  | name => charIn isNameStart * (charIn isNamePart)∗
  | fixed kind => {x | (kind, x) ∈ spellings}

/-- What the first character of a match can be. -/
inductive Initial where
  | blank
  | letter
  | digit
  | slash
  | mark
  | other
deriving DecidableEq

def initialOf (c : Char) : Initial :=
  if isBlank c then .blank
  else if isNameStart c then .letter
  else if c.isDigit then .digit
  else if c == '/' then .slash
  else if c ∈ ['=', '+', '?', ':', '(', ')', ',', ';'] then .mark
  else .other

def initial : Rule → Initial
  | blank => .blank
  | lineComment | blockComment => .slash
  | number => .digit
  | name => .letter
  | fixed kind => if kind ∈ [.const, .bool true, .bool false] then .letter else .mark

/-- The rules for each initial. -/
theorem initial_cases (rule : Rule) :
    match rule.initial with
    | .blank => rule = blank
    | .letter => rule = name ∨ ∃ kind, rule = fixed kind
    | .digit => rule = number
    | .slash => rule = lineComment ∨ rule = blockComment
    | .mark => ∃ kind, rule = fixed kind
    | .other => False := by
  cases rule with
  | fixed kind =>
    by_cases h : kind ∈ [.const, .bool true, .bool false]
    all_goals simp only [initial, h, if_true, if_false]
    · exact .inr ⟨kind, rfl⟩
    · exact ⟨kind, rfl⟩
  | _ => simp [initial]

theorem isNameStart_of_isDigit {c : Char} (h : c.isDigit = true) : isNameStart c = false := by
  by_contra hname
  simp only [isNameStart, Bool.not_eq_false, Bool.or_eq_true, beq_iff_eq] at hname
  rcases hname with (halpha | rfl) | rfl
  · have hdigit : c.val ≤ 57 := of_decide_eq_true (Bool.and_eq_true_iff.1 h).2
    have hletter : 65 ≤ c.val := by
      rcases Bool.or_eq_true_iff.1 (show (c.isUpper || c.isLower) = true from halpha) with hu | hl
      · exact (of_decide_eq_true hu).1
      · exact UInt32.le_trans (by decide) (of_decide_eq_true (Bool.and_eq_true_iff.1 hl).1)
    exact absurd (UInt32.le_trans hletter hdigit) (by decide)
  · simp at h
  · simp at h

theorem not_isBlank {c : Char} (h : isNameStart c = true ∨ c.isDigit = true) :
    isBlank c = false := by
  by_contra hblank
  simp only [isBlank, Bool.not_eq_false, Bool.or_eq_true, beq_iff_eq] at hblank
  rcases hblank with (((rfl | rfl) | rfl) | rfl) | rfl <;> revert h <;> decide

theorem initialOf_blank {c : Char} (h : isBlank c = true) : initialOf c = .blank := by
  simp [initialOf, h]

theorem initialOf_letter {c : Char} (h : isNameStart c = true) : initialOf c = .letter := by
  simp [initialOf, h, not_isBlank (.inl h)]

theorem initialOf_digit {c : Char} (h : c.isDigit = true) : initialOf c = .digit := by
  simp [initialOf, h, not_isBlank (.inr h), isNameStart_of_isDigit h]

theorem exists_cons_of_mem {rule : Rule} {x : Text} (h : x ∈ rule.language) :
    ∃ c y, x = c :: y ∧ initialOf c = rule.initial := by
  cases rule with
  | blank =>
    obtain ⟨c, y, hc, -, rfl⟩ := mem_charIn_mul.1 h
    exact ⟨c, y, rfl, initialOf_blank hc⟩
  | lineComment =>
    obtain ⟨c, y, hc, -, rfl⟩ := mem_charIn_mul.1 h
    obtain rfl : c = '/' := by simpa using hc
    exact ⟨'/', y, rfl, rfl⟩
  | blockComment =>
    obtain rfl : x = ['/', '*'] := h
    exact ⟨'/', ['*'], rfl, rfl⟩
  | number =>
    obtain ⟨_, hm, e, -, rfl⟩ := Language.mem_mul.1 h
    obtain ⟨_, hw, f, -, rfl⟩ := Language.mem_mul.1 hm
    obtain ⟨c, y, hc, -, rfl⟩ := mem_charIn_mul.1 hw
    exact ⟨c, _, rfl, initialOf_digit hc⟩
  | name =>
    obtain ⟨c, y, hc, -, rfl⟩ := mem_charIn_mul.1 h
    exact ⟨c, y, rfl, initialOf_letter hc⟩
  | fixed kind =>
    have hinitial : ∀ p ∈ spellings, p.2.head?.map initialOf = some (fixed p.1).initial := by
      decide
    cases x with
    | nil => cases hinitial _ h
    | cons c y => exact ⟨c, y, rfl, Option.some.inj (hinitial _ h)⟩

end Rule

end ArrowLang
