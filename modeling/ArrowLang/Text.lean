import ArrowLang.Span

/-!
# Text measured in bytes

A text is a list of characters. Offsets into it count the bytes of its UTF-8 encoding, so an offset
may lie inside a character or past the end. `Text.cut?` finds the two parts at an offset exactly
when no character straddles it, and nothing is lost by a cut.
-/

namespace ArrowLang

abbrev Text := List Char

namespace Text

/-- Number of bytes in the UTF-8 encoding. -/
def size : Text → Nat
  | [] => 0
  | c :: cs => c.utf8Size + size cs

@[simp] theorem size_nil : size [] = 0 := rfl

@[simp] theorem size_cons (c : Char) (cs : Text) : size (c :: cs) = c.utf8Size + size cs := rfl

@[simp] theorem size_append (a b : Text) : size (a ++ b) = size a + size b := by
  induction a with
  | nil => simp
  | cons c a ih => simp [ih, Nat.add_assoc]

/-- The parts before and after a byte offset, if it lies where two characters meet or at an end. -/
def cut? : Text → Nat → Option (Text × Text)
  | t, 0 => some ([], t)
  | [], _ + 1 => none
  | c :: cs, n + 1 =>
    if c.utf8Size ≤ n + 1 then
      (cut? cs (n + 1 - c.utf8Size)).map fun parts => (c :: parts.1, parts.2)
    else none

/-- The text between two byte offsets, if both are cuts and in order. -/
def slice? (t : Text) (start stop : Nat) : Option Text :=
  if start ≤ stop then do
    let (_, rest) ← t.cut? start
    let (part, _) ← rest.cut? (stop - start)
    return part
  else none

/-- The first cut at an offset or after it, found byte by byte. -/
def nextCut? (t : Text) (n : Nat) : Option Nat :=
  search (t.size - n) n
where
  /-- There are `left` bytes to go. -/
  search : Nat → Nat → Option Nat
    | 0, n => if (t.cut? n).isSome then some n else none
    | left + 1, n =>
      if (t.cut? n).isSome then some n else (Offset.add? n 1).bind (search left)

/-- A cut loses nothing, and its first part has as many bytes as the offset says. -/
theorem cut?_eq_some_iff {t a b : Text} {n : Nat} :
    t.cut? n = some (a, b) ↔ a ++ b = t ∧ a.size = n := by
  fun_induction cut? t n generalizing a b with
  | case1 t =>
    cases a with
    | nil => simp [eq_comm]
    | cons c a => simpa using fun _ => fun h => absurd h (Nat.ne_of_gt c.utf8Size_pos)
  | case2 n =>
    constructor
    · simp
    · rintro ⟨h, hn⟩
      obtain ⟨rfl, rfl⟩ := List.append_eq_nil_iff.1 h
      simp at hn
  | case3 c cs n h ih =>
    cases a with
    | nil => simp
    | cons d a =>
      constructor
      · simp only [Option.map_eq_some_iff, Prod.exists, Prod.mk.injEq, List.cons.injEq]
        rintro ⟨a', b', hc, ⟨rfl, rfl⟩, rfl⟩
        obtain ⟨rfl, hn⟩ := ih.1 hc
        simp only [List.cons_append, size_cons, true_and]
        omega
      · simp only [List.cons_append, List.cons.injEq, size_cons]
        rintro ⟨⟨rfl, rfl⟩, hn⟩
        have : cut? (a ++ b) (n + 1 - d.utf8Size) = some (a, b) := ih.2 ⟨rfl, by omega⟩
        simp [this]
  | case4 c cs n h =>
    cases a with
    | nil => simp
    | cons d a =>
      constructor
      · simp
      · simp only [List.cons_append, List.cons.injEq, size_cons]
        rintro ⟨⟨rfl, rfl⟩, hn⟩
        omega

theorem slice?_eq_some_iff {t m : Text} {start stop : Nat} :
    t.slice? start stop = some m ↔
      ∃ a b, t = a ++ m ++ b ∧ a.size = start ∧ stop = start + m.size := by
  unfold slice?
  split
  · rename_i h
    simp only [Option.bind_eq_bind, Option.bind_eq_some_iff, Prod.exists, cut?_eq_some_iff]
    constructor
    · rintro ⟨a, r, ⟨rfl, rfl⟩, m', b, ⟨rfl, hm⟩, hr⟩
      obtain rfl : m' = m := by simpa using hr
      exact ⟨a, b, by simp, rfl, by omega⟩
    · rintro ⟨a, b, rfl, rfl, rfl⟩
      exact ⟨a, m ++ b, ⟨by simp, rfl⟩, m, b, ⟨rfl, by omega⟩, rfl⟩
  · rename_i h
    constructor
    · simp
    · rintro ⟨a, b, -, rfl, rfl⟩
      omega

/-- All trailing occurrences of `c` removed. -/
def trimEnd (c : Char) (t : Text) : Text :=
  (t.reverse.dropWhile (· == c)).reverse

end Text

end ArrowLang
