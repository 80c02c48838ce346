/-!
# Misspelt names

The edit distance of two texts is the least number of characters to insert, delete or replace to
make one into the other. `Spelling.closest?` looks for the name that was meant.
-/

namespace ArrowLang.Spelling

/-- The entries of a row after `left`, for the characters `bs`. The row above starts with the entry
over `left`. -/
def rowAfter (c : Char) (left : Nat) : List Char → List Nat → List Nat
  | b :: bs, diagonal :: above :: row =>
    let replaced := if c = b then diagonal else diagonal + 1
    let here := min (min (above + 1) (left + 1)) replaced
    here :: rowAfter c here bs (above :: row)
  | _, _ => []

/-- From the distances of a text to all beginnings of `bs` those of the text with `c` at its end. -/
def nextRow (bs : List Char) (row : List Nat) (c : Char) : List Nat :=
  match row with
  | [] => []
  | first :: _ => (first + 1) :: rowAfter c (first + 1) bs row

def editDistance (a b : List Char) : Nat :=
  let distances := a.foldl (nextRow b) (List.range (b.length + 1))
  distances.getLast?.getD 0

/-- The greatest distance at which a name counts as a misspelling of one with `n` characters. -/
def limit (n : Nat) : Nat := if n ≤ 2 then 1 else if n ≤ 5 then 2 else 3

/-- Keeps the better one of the best candidate so far, with its distance, and another. -/
def better (name : String) (best : Option (String × Nat)) (candidate : String) :
    Option (String × Nat) :=
  let n := name.length
  let m := candidate.length
  if candidate = name || (n - m) + (m - n) > limit n then best
  else
    let distance := editDistance name.toList candidate.toList
    let isBetter := match best with
      | some (_, least) => distance < least
      | none => true
    if distance ≤ limit n && isBetter then some (candidate, distance) else best

/-- The candidate other than the name itself that is nearest to it, the first of several, if one is
near enough. -/
def closest? (name : String) (candidates : List String) : Option String :=
  (candidates.foldl (better name) none).map Prod.fst

end ArrowLang.Spelling
