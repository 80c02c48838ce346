import ArrowLang.Json
import ArrowLang.Proofs.Lexing.Rules

/-!
# The grammar of JSON

`Written v x` says that the text `x` is the JSON value `v`. Blanks may stand before and after every
value, key and comma, characters between quotes may be escaped in any way, and numbers are kept as
they are written. A surrogate is no character, so it may stand in a pair only. What `Json.pretty`
prints is one of the texts of a value (`written_pretty`).
-/

namespace ArrowLang

open scoped Computability

namespace Json

/-! ## Texts of values -/

/-- The values of the format. -/
inductive Value where
  | null
  | bool (value : Bool)
  | number (text : Text)
  | str (value : String)
  | arr (items : List Value)
  | obj (fields : List (String × Value))

def isSpace (c : Char) : Bool := c == ' ' || c == '\t' || c == '\n' || c == '\r'

def Spaces (w : Text) : Prop := ∀ c ∈ w, isSpace c = true

def digits : Language Char := charIn Char.isDigit * (charIn Char.isDigit)∗

/-- Digits without a zero in front, or a single zero. -/
def wholes : Language Char :=
  charIn (· == '0') + charIn (fun c => c.isDigit && c != '0') * (charIn Char.isDigit)∗

def numbers : Language Char :=
  (1 + charIn (· == '-')) * (wholes * ((1 + charIn (· == '.') * digits) * (1 + Numeral.exponents)))

/-- What a character stands for after a backslash. -/
def escapes : List (Char × Char) :=
  [('"', '"'), ('\\', '\\'), ('/', '/'), ('b', '\x08'), ('f', '\x0c'), ('n', '\n'), ('r', '\r'),
    ('t', '\t')]

def hexValue? (c : Char) : Option Nat :=
  if c.isDigit then some (c.toNat - '0'.toNat)
  else if 'a' ≤ c && c ≤ 'f' then some (c.toNat - 'a'.toNat + 10)
  else if 'A' ≤ c && c ≤ 'F' then some (c.toNat - 'A'.toNat + 10)
  else none

/-- The number that hexadecimal digits stand for. -/
def hex? (ds : Text) : Option Nat :=
  ds.foldl (fun n d => n.bind fun n => (hexValue? d).map (16 * n + ·)) (some 0)

/-- The character that two surrogates stand for. -/
def paired? (high low : Nat) : Option Char :=
  if 0xD800 ≤ high ∧ high < 0xDC00 ∧ 0xDC00 ≤ low ∧ low < 0xE000 then
    some (Char.ofNat (0x10000 + 0x400 * (high - 0xD800) + (low - 0xDC00)))
  else none

/-- `Letter c x`: between quotes, the text `x` stands for the character `c`. -/
inductive Letter (c : Char) : Text → Prop where
  | plain : c ≠ '"' → c ≠ '\\' → 32 ≤ c.toNat → Letter c [c]
  | escape {e} : (e, c) ∈ escapes → Letter c ['\\', e]
  | hex {ds} : ds.length = 4 → hex? ds = some c.toNat → Letter c ('\\' :: 'u' :: ds)
  | pair {ds ds' high low} : ds.length = 4 → hex? ds = some high → ds'.length = 4 →
      hex? ds' = some low → paired? high low = some c →
      Letter c ('\\' :: 'u' :: (ds ++ '\\' :: 'u' :: ds'))

inductive Chars : Text → Text → Prop where
  | nil : Chars [] []
  | cons {c cs x y} : Letter c x → Chars cs y → Chars (c :: cs) (x ++ y)

mutual

/-- `Written v x`: the text `x` is the value `v`. -/
inductive Written : Value → Text → Prop where
  | null : Written .null "null".toList
  | bool {b} : Written (.bool b) (if b then "true" else "false").toList
  | number {x} : x ∈ numbers → Written (.number x) x
  | str {s x} : Chars s.toList x → Written (.str s) ('"' :: (x ++ ['"']))
  | arr {vs x} : Items vs x → Written (.arr vs) ('[' :: (x ++ [']']))
  | obj {fs x} : Fields fs x → Written (.obj fs) ('\x7b' :: (x ++ ['\x7d']))

/-- A value with the blanks around it. -/
inductive Item : Value → Text → Prop where
  | mk {v w x w'} : Spaces w → Written v x → Spaces w' → Item v (w ++ x ++ w')

/-- What stands between the brackets of an array. -/
inductive Items : List Value → Text → Prop where
  | nil {w} : Spaces w → Items [] w
  | one {v x} : Item v x → Items [v] x
  | cons {v u us x y} : Item v x → Items (u :: us) y → Items (v :: u :: us) (x ++ ',' :: y)

/-- A key and its value. -/
inductive Field : String × Value → Text → Prop where
  | mk {key v w k w' x} : Spaces w → Chars key.toList k → Spaces w' → Item v x →
      Field (key, v) (w ++ '"' :: (k ++ '"' :: (w' ++ ':' :: x)))

/-- What stands between the braces of an object. -/
inductive Fields : List (String × Value) → Text → Prop where
  | nil {w} : Spaces w → Fields [] w
  | one {f x} : Field f x → Fields [f] x
  | cons {f g gs x y} : Field f x → Fields (g :: gs) y → Fields (f :: g :: gs) (x ++ ',' :: y)

end

/-! ## The values of reports -/

mutual

def value : Json → Value
  | bool b => .bool b
  | nat n => .number (Nat.toDigits 10 n)
  | str s => .str s
  | arr js => .arr (values js)
  | obj fields => .obj (fieldValues fields)

def values : List Json → List Value
  | [] => []
  | j :: js => j.value :: values js

def fieldValues : List (String × Json) → List (String × Value)
  | [] => []
  | (key, j) :: fields => (key, j.value) :: fieldValues fields

end

/-! ## The layout of reports -/

/-- Only zero is printed with a zero in front. -/
theorem exists_toDigits_cons {n : Nat} (h : 0 < n) :
    ∃ d ds, Nat.toDigits 10 n = d :: ds ∧ d ≠ '0' := by
  induction n using Nat.strongRecOn with
  | ind n ih =>
    rcases Nat.lt_or_ge n 10 with hn | hn
    · have hdigit : ∀ n < 10, 0 < n → Nat.digitChar n ≠ '0' := by decide
      exact ⟨_, [], Nat.toDigits_of_lt_base hn, hdigit n hn h⟩
    · obtain ⟨d, ds, hds, hd⟩ := ih (n / 10) (by omega) (by omega)
      exact ⟨d, _, by rw [Nat.toDigits_of_base_le (by decide) hn, hds, List.cons_append], hd⟩

theorem toDigits_mem_wholes (n : Nat) : Nat.toDigits 10 n ∈ wholes := by
  rcases Nat.eq_zero_or_pos n with rfl | hn
  · exact .inl ⟨'0', rfl, rfl⟩
  · obtain ⟨d, ds, hds, hd⟩ := exists_toDigits_cons hn
    have hdigit : ∀ c ∈ d :: ds, c.isDigit = true := by
      intro c hc
      exact Nat.isDigit_of_mem_toDigits (b := 10) (by decide) (by decide) (hds ▸ hc)
    obtain ⟨hfirst, hrest⟩ := List.forall_mem_cons.1 hdigit
    rw [hds]
    exact .inr (mem_charIn_mul.2 ⟨d, ds, by simp [hfirst, hd], mem_charIn_kstar.2 hrest, rfl⟩)

theorem toDigits_mem_numbers (n : Nat) : Nat.toDigits 10 n ∈ numbers := by
  have hempty (L : Language Char) : [] ∈ 1 + L := .inl rfl
  have hmem := Language.append_mem_mul (hempty (charIn (· == '-'))) (Language.append_mem_mul
    (toDigits_mem_wholes n) (Language.append_mem_mul (hempty (charIn (· == '.') * digits))
      (hempty Numeral.exponents)))
  simpa [numbers] using hmem

theorem letter_escape (c : Char) : Letter c (escape c) := by
  unfold escape
  split
  case h_8 hquote hslash _ _ _ _ _ =>
    split
    · rename_i hcontrol
      have hhex : ∀ n < 32, hex? ['0', '0', Nat.digitChar (n / 16), Nat.digitChar (n % 16)] =
          some n := by decide
      exact .hex rfl (hhex _ hcontrol)
    · rename_i hcontrol
      exact .plain hquote hslash (by omega)
  all_goals exact .escape (by decide)

theorem chars_flatMap_escape (cs : Text) : Chars cs (cs.flatMap escape) := by
  induction cs with
  | nil => exact .nil
  | cons c cs ih => exact .cons (letter_escape c) ih

theorem spaces_newline (depth : Nat) : Spaces (newline depth) := by
  intro c hc
  rcases List.mem_cons.1 hc with rfl | hc
  · rfl
  · rw [List.eq_of_mem_replicate hc]
    rfl

theorem spaces_nil : Spaces [] := by simp [Spaces]

mutual

/-- A printed value is a text of this value. -/
theorem written_pretty (depth : Nat) : ∀ j : Json, Written j.value (j.pretty depth)
  | bool b => .bool
  | nat n => .number (toDigits_mem_numbers n)
  | str s => .str (chars_flatMap_escape s.toList)
  | arr [] => .arr (x := []) (.nil spaces_nil)
  | arr (j :: js) => by
    have hitems := items_pretty (depth + 1) (spaces_newline depth) (written_pretty (depth + 1) j) js
    simpa [pretty, value, values] using Written.arr hitems
  | obj [] => .obj (x := []) (.nil spaces_nil)
  | obj ((key, j) :: fields) => by
    have hfields := fields_pretty (depth + 1) (spaces_newline depth) key
      (written_pretty (depth + 1) j) fields
    simpa [pretty, value, fieldValues] using Written.obj hfields

theorem items_pretty (depth : Nat) {v : Value} {x w : Text} (hw : Spaces w) (hx : Written v x) :
    ∀ js : List Json, Items (v :: values js) (newline depth ++ x ++ prettyItems depth js ++ w)
  | [] => by
    rw [prettyItems, List.append_nil]
    exact .one (.mk (spaces_newline depth) hx hw)
  | j :: js => by
    have hitem := Item.mk (spaces_newline depth) hx spaces_nil
    have hitems := items_pretty depth hw (written_pretty depth j) js
    simpa [prettyItems, values] using Items.cons hitem hitems

theorem fields_pretty (depth : Nat) {v : Value} {x w : Text} (hw : Spaces w) (key : String)
    (hx : Written v x) : ∀ fields : List (String × Json), Fields ((key, v) :: fieldValues fields)
      (newline depth ++ quote key ++ [':', ' '] ++ x ++ prettyFields depth fields ++ w)
  | [] => by
    have hspace : Spaces [' '] := by simp [Spaces, isSpace]
    have hfield := Field.mk (spaces_newline depth) (chars_flatMap_escape key.toList) spaces_nil
      (.mk hspace hx hw)
    simpa [prettyFields, fieldValues, quote] using Fields.one hfield
  | (key', j) :: fields => by
    have hspace : Spaces [' '] := by simp [Spaces, isSpace]
    have hfield := Field.mk (spaces_newline depth) (chars_flatMap_escape key.toList) spaces_nil
      (.mk hspace hx spaces_nil)
    have hfields := fields_pretty depth hw key' (written_pretty depth j) fields
    simpa [prettyFields, fieldValues, quote] using Fields.cons hfield hfields

end

end Json

end ArrowLang
