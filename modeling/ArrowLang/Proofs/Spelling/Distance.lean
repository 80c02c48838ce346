import ArrowLang.Spelling
import Mathlib.Data.List.Basic
import Mathlib.Data.List.Induction
import Mathlib.Order.Bounds.Defs

/-!
# Edit distance

`Spelling.editDistance` is the length of a shortest script of single-character edits that makes one
text into another. Hence it is a metric on texts (`distance_is_shortest_script`).

All that is used of the program is a recurrence on the ends of the two texts
(`editDistance_concat_concat`). It holds since the row of a text against `b` is a beginning of its
row against a longer text (`row_concat_right`). The same recurrence is the invariant of a program
that keeps only two rows and writes each over the last but one (`TwoRows`).
-/

namespace ArrowLang.Spelling

variable {a b : List Char}

/-! ## Edits -/

/-- An edit of one character, with the number of characters before it. -/
inductive Edit where
  | insert (i : Nat) (c : Char)
  | delete (i : Nat)
  | replace (i : Nat) (c : Char)
  deriving DecidableEq, Repr

/-- The text after an edit, if it has the place of the edit. -/
def Edit.step? (a : List Char) : Edit → Option (List Char)
  | insert i c => if i ≤ a.length then some (a.take i ++ c :: a.drop i) else none
  | delete i => if i < a.length then some (a.take i ++ a.drop (i + 1)) else none
  | replace i c => if i < a.length then some (a.take i ++ c :: a.drop (i + 1)) else none

/-- The text after all edits of a script, one after another. -/
def run? : List Edit → List Char → Option (List Char)
  | [], a => some a
  | e :: script, a => (e.step? a).bind (run? script)

/-- The lengths of the scripts that make `a` into `b`. -/
def scriptLengths (a b : List Char) : Set Nat :=
  {n | ∃ script, run? script a = some b ∧ script.length = n}

/-- An edit leaves all of a text but one place, where at most one character makes room for at most
one other. -/
theorem Edit.exists_split {e : Edit} (h : e.step? a = some b) :
    ∃ u p q v, a = u ++ p ++ v ∧ b = u ++ q ++ v ∧ p.length ≤ 1 ∧ q.length ≤ 1 := by
  have hcut (i : Nat) : a = a.take i ++ (a.drop i).take 1 ++ a.drop (i + 1) := by
    rw [List.append_assoc, ← List.drop_drop, List.take_append_drop, List.take_append_drop]
  have hone (i : Nat) : ((a.drop i).take 1).length ≤ 1 := List.length_take_le ..
  cases e with
  | insert i c =>
    obtain ⟨-, rfl⟩ : i ≤ a.length ∧ _ = b := by simpa [step?] using h
    exact ⟨a.take i, [], [c], a.drop i, by simp, by simp, by simp, by simp⟩
  | delete i =>
    obtain ⟨-, rfl⟩ : i < a.length ∧ _ = b := by simpa [step?] using h
    exact ⟨a.take i, (a.drop i).take 1, [], a.drop (i + 1), hcut i, by simp, hone i, by simp⟩
  | replace i c =>
    obtain ⟨-, rfl⟩ : i < a.length ∧ _ = b := by simpa [step?] using h
    exact ⟨a.take i, (a.drop i).take 1, [c], a.drop (i + 1), hcut i, by simp, hone i, by simp⟩

theorem Edit.step?_append {e : Edit} (h : e.step? a = some b) (w : List Char) :
    e.step? (a ++ w) = some (b ++ w) := by
  cases e with
  | insert i c =>
    obtain ⟨hi, rfl⟩ : i ≤ a.length ∧ _ = b := by simpa [step?] using h
    simp [step?, List.take_append_of_le_length hi, List.drop_append_of_le_length hi,
      Nat.le_add_right_of_le hi]
  | delete i =>
    obtain ⟨hi, rfl⟩ : i < a.length ∧ _ = b := by simpa [step?] using h
    simp [step?, List.take_append_of_le_length (Nat.le_of_lt hi), List.drop_append_of_le_length hi,
      Nat.lt_add_right _ hi]
  | replace i c =>
    obtain ⟨hi, rfl⟩ : i < a.length ∧ _ = b := by simpa [step?] using h
    simp [step?, List.take_append_of_le_length (Nat.le_of_lt hi), List.drop_append_of_le_length hi,
      Nat.lt_add_right _ hi]

theorem run?_append (s t : List Edit) (a : List Char) :
    run? (s ++ t) a = (run? s a).bind (run? t) := by
  induction s generalizing a with
  | nil => rfl
  | cons e s ih =>
    rw [List.cons_append, run?, run?, Option.bind_assoc]
    exact congrArg _ (funext ih)

/-- A script does not see what follows a text that it edits. -/
theorem run?_text_append {s : List Edit} (h : run? s a = some b) (w : List Char) :
    run? s (a ++ w) = some (b ++ w) := by
  induction s generalizing a with
  | nil =>
    obtain rfl := Option.some.inj h
    rfl
  | cons e s ih =>
    obtain ⟨c, hc, hs⟩ := Option.bind_eq_some_iff.1 h
    rw [run?, Edit.step?_append hc w]
    exact ih hs

/-! ## Scripts for longer texts -/

section scriptLengths

variable {n : Nat}

theorem zero_mem_scriptLengths (a : List Char) : 0 ∈ scriptLengths a a := ⟨[], rfl, rfl⟩

theorem scriptLengths_insert (h : n ∈ scriptLengths a b) (y : Char) :
    n + 1 ∈ scriptLengths a (b ++ [y]) := by
  obtain ⟨s, hs, rfl⟩ := h
  refine ⟨s ++ [.insert b.length y], ?_, List.length_append⟩
  simp [run?_append, hs, run?, Edit.step?]

theorem scriptLengths_delete (h : n ∈ scriptLengths a b) (x : Char) :
    n + 1 ∈ scriptLengths (a ++ [x]) b := by
  obtain ⟨s, hs, rfl⟩ := h
  refine ⟨.delete a.length :: s, ?_, rfl⟩
  simp [run?, hs, Edit.step?]

theorem scriptLengths_keep (h : n ∈ scriptLengths a b) (x : Char) :
    n ∈ scriptLengths (a ++ [x]) (b ++ [x]) := by
  obtain ⟨s, hs, rfl⟩ := h
  exact ⟨s, run?_text_append hs [x], rfl⟩

theorem scriptLengths_replace (h : n ∈ scriptLengths a b) (x y : Char) :
    n + 1 ∈ scriptLengths (a ++ [x]) (b ++ [y]) := by
  obtain ⟨s, hs, rfl⟩ := h
  refine ⟨s ++ [.replace b.length y], ?_, List.length_append⟩
  simp [run?_append, run?_text_append hs [x], run?, Edit.step?]

end scriptLengths

/-! ## Rows -/

/-- The entry of a row from the three entries next to it. -/
def entry (c b : Char) (diagonal above left : Nat) : Nat :=
  min (min (above + 1) (left + 1)) (if c = b then diagonal else diagonal + 1)

theorem entry_cases (c b : Char) (diagonal above left : Nat) :
    entry c b diagonal above left = above + 1 ∨ entry c b diagonal above left = left + 1 ∨
    c = b ∧ entry c b diagonal above left = diagonal ∨
    c ≠ b ∧ entry c b diagonal above left = diagonal + 1 := by
  unfold entry
  grind

theorem entry_comm (c b : Char) (diagonal above left : Nat) :
    entry c b diagonal above left = entry b c diagonal left above := by
  rw [entry, entry, Nat.min_comm (above + 1)]
  grind

/-- The row of `a`, which has an entry for each beginning of `b`. -/
def row (a b : List Char) : List Nat := a.foldl (nextRow b) (List.range (b.length + 1))

theorem editDistance_eq (a b : List Char) : editDistance a b = (row a b).getLastD 0 :=
  List.getLastD_eq_getLast?.symm

theorem row_concat (a b : List Char) (x : Char) : row (a ++ [x]) b = nextRow b (row a b) x := by
  simp [row]

/-- One more character adds one entry, from the last entries of the two rows. -/
theorem rowAfter_concat {bs : List Char} {above : List Nat} (h : above.length = bs.length + 1)
    (c y : Char) (left n : Nat) :
    rowAfter c left (bs ++ [y]) (above ++ [n]) = rowAfter c left bs above ++
      [entry c y (above.getLastD 0) n ((rowAfter c left bs above).getLastD left)] := by
  induction bs generalizing left above with
  | nil =>
    obtain ⟨d, rfl⟩ := List.length_eq_one_iff.1 h
    rfl
  | cons b bs ih =>
    obtain ⟨d, m, above, rfl⟩ : ∃ d m rest, above = d :: m :: rest := by
      match above, h with
      | d :: m :: rest, _ => exact ⟨d, m, rest, rfl⟩
    have hrest : (m :: above).length = bs.length + 1 := Nat.succ.inj h
    simp only [List.cons_append, rowAfter, List.getLastD_cons]
    rw [← List.cons_append, ih hrest, List.getLastD_cons]

theorem length_rowAfter {bs : List Char} {above : List Nat} (h : above.length = bs.length + 1)
    (c : Char) (left : Nat) : (rowAfter c left bs above).length = bs.length := by
  induction bs using List.reverseRecOn generalizing above with
  | nil => simp [rowAfter]
  | append_singleton bs y ih =>
    obtain rfl | ⟨above, n, rfl⟩ := above.eq_nil_or_concat'
    · simp at h
    · have hinit : above.length = bs.length + 1 := by simpa using h
      simp [rowAfter_concat hinit, ih hinit]

theorem nextRow_concat {bs : List Char} {above : List Nat} (h : above.length = bs.length + 1)
    (c y : Char) (n : Nat) :
    nextRow (bs ++ [y]) (above ++ [n]) c = nextRow bs above c ++
      [entry c y (above.getLastD 0) n ((nextRow bs above c).getLastD 0)] := by
  obtain ⟨first, above, rfl⟩ := List.exists_cons_of_length_eq_add_one h
  simp only [nextRow, List.cons_append, List.getLastD_cons]
  rw [← List.cons_append, rowAfter_concat h, List.getLastD_cons]

theorem length_row (a b : List Char) : (row a b).length = b.length + 1 := by
  induction a using List.reverseRecOn with
  | nil => simp [row]
  | append_singleton a x ih =>
    obtain ⟨first, rest, hrow⟩ := List.exists_cons_of_length_eq_add_one ih
    rw [row_concat, hrow, nextRow, List.length_cons, length_rowAfter (hrow ▸ ih)]

/-- The row against `b` is a beginning of the row against a longer text. -/
theorem row_concat_right (a b : List Char) (y : Char) :
    row a (b ++ [y]) = row a b ++ [editDistance a (b ++ [y])] := by
  obtain ⟨n, hn⟩ : ∃ n, row a (b ++ [y]) = row a b ++ [n] := by
    induction a using List.reverseRecOn with
    | nil => exact ⟨b.length + 1, by simp [row, List.range_succ]⟩
    | append_singleton a x ih =>
      obtain ⟨n, hn⟩ := ih
      exact ⟨_, by rw [row_concat, hn, nextRow_concat (length_row a b), row_concat]⟩
  rw [editDistance_eq a, hn, List.getLastD_concat]

/-! ## The recurrence -/

theorem editDistance_nil_left (b : List Char) : editDistance [] b = b.length := by
  rw [editDistance_eq]
  simp [row, List.range_succ]

theorem editDistance_nil_right (a : List Char) : editDistance a [] = a.length := by
  have hrow : row a [] = [a.length] := by
    induction a using List.reverseRecOn with
    | nil => rfl
    | append_singleton a x ih => rw [row_concat, ih]; simp [nextRow, rowAfter]
  rw [editDistance_eq, hrow]
  rfl

theorem editDistance_concat_concat (a b : List Char) (x y : Char) :
    editDistance (a ++ [x]) (b ++ [y]) =
      entry x y (editDistance a b) (editDistance a (b ++ [y])) (editDistance (a ++ [x]) b) := by
  rw [editDistance_eq (a ++ [x]) (b ++ [y]), row_concat, row_concat_right,
    nextRow_concat (length_row a b), List.getLastD_concat, ← row_concat, ← editDistance_eq,
    ← editDistance_eq]

/-- Induction on the ends of two texts, as the recurrence goes. -/
theorem concat_induction {motive : List Char → List Char → Prop}
    (nil_left : ∀ b, motive [] b) (nil_right : ∀ a, motive a [])
    (concat : ∀ a b x y, motive a b → motive a (b ++ [y]) → motive (a ++ [x]) b →
      motive (a ++ [x]) (b ++ [y])) (a b : List Char) : motive a b := by
  induction a using List.reverseRecOn generalizing b with
  | nil => exact nil_left b
  | append_singleton a x iha =>
    induction b using List.reverseRecOn with
    | nil => exact nil_right _
    | append_singleton b y ihb => exact concat a b x y (iha b) (iha _) ihb

theorem editDistance_concat_cases (a b : List Char) (x y : Char) :
    editDistance (a ++ [x]) (b ++ [y]) = editDistance a (b ++ [y]) + 1 ∨
    editDistance (a ++ [x]) (b ++ [y]) = editDistance (a ++ [x]) b + 1 ∨
    x = y ∧ editDistance (a ++ [x]) (b ++ [y]) = editDistance a b ∨
    x ≠ y ∧ editDistance (a ++ [x]) (b ++ [y]) = editDistance a b + 1 :=
  editDistance_concat_concat a b x y ▸ entry_cases ..

theorem editDistance_comm (a b : List Char) : editDistance a b = editDistance b a := by
  induction a, b using concat_induction with
  | nil_left b => rw [editDistance_nil_left, editDistance_nil_right]
  | nil_right a => rw [editDistance_nil_left, editDistance_nil_right]
  | concat a b x y hboth hright hleft =>
    rw [editDistance_concat_concat, editDistance_concat_concat b a, hboth, hright, hleft,
      entry_comm]

theorem editDistance_delete_le (a b : List Char) (x : Char) :
    editDistance (a ++ [x]) b ≤ editDistance a b + 1 := by
  obtain rfl | ⟨b, y, rfl⟩ := b.eq_nil_or_concat'
  · simp [editDistance_nil_right]
  · rw [editDistance_concat_concat, entry]
    omega

theorem editDistance_insert_le (a b : List Char) (y : Char) :
    editDistance a (b ++ [y]) ≤ editDistance a b + 1 := by
  rw [editDistance_comm, editDistance_comm a]
  exact editDistance_delete_le b a y

theorem editDistance_replace_le (a b : List Char) (x y : Char) :
    editDistance (a ++ [x]) (b ++ [y]) ≤ editDistance a b + 1 := by
  rw [editDistance_concat_concat, entry]
  split <;> omega

theorem editDistance_keep_le (a b : List Char) (x : Char) :
    editDistance (a ++ [x]) (b ++ [x]) ≤ editDistance a b := by
  rw [editDistance_concat_concat, entry, if_pos rfl]
  exact Nat.min_le_right ..

theorem editDistance_self (a : List Char) : editDistance a a = 0 := by
  induction a using List.reverseRecOn with
  | nil => rfl
  | append_singleton a x ih => exact Nat.le_zero.1 (ih ▸ editDistance_keep_le a a x)

theorem editDistance_append_le (a b v : List Char) :
    editDistance (a ++ v) (b ++ v) ≤ editDistance a b := by
  induction v using List.reverseRecOn with
  | nil => simp
  | append_singleton v x ih =>
    rw [← List.append_assoc, ← List.append_assoc]
    exact Nat.le_trans (editDistance_keep_le ..) ih

/-- The lengths of two texts differ by at most their distance. -/
theorem length_le_add_editDistance (a b : List Char) :
    b.length ≤ a.length + editDistance a b := by
  induction a, b using concat_induction with
  | nil_left b => simp [editDistance_nil_left]
  | nil_right a => simp
  | concat a b x y hboth hright hleft =>
    simp only [List.length_append, List.length_singleton] at *
    have := editDistance_concat_cases a b x y
    omega

/-! ## Shortest scripts -/

theorem editDistance_triangle (a b c : List Char) :
    editDistance a c ≤ editDistance a b + editDistance b c := by
  induction a, b using concat_induction generalizing c with
  | nil_left b =>
    rw [editDistance_nil_left, editDistance_nil_left]
    exact length_le_add_editDistance b c
  | nil_right a =>
    rw [editDistance_nil_right]
    induction a using List.reverseRecOn with
    | nil => simp
    | append_singleton a x ih =>
      have := editDistance_delete_le a c x
      simp only [List.length_append, List.length_singleton]
      omega
  | concat a b x y hboth hright hleft =>
    induction c using List.reverseRecOn with
    | nil =>
      rw [editDistance_nil_right, editDistance_nil_right, editDistance_comm, Nat.add_comm]
      exact length_le_add_editDistance ..
    | append_singleton c z ih =>
      -- from what happens last on the way from `a` to `b` and on the way from `b` to `c` follows
      -- what may happen last on the way from `a` to `c`
      rcases editDistance_concat_cases a b x y with hab | hab | hab
      · have := editDistance_delete_le a (c ++ [z]) x
        have := hright (c ++ [z])
        omega
      all_goals rcases editDistance_concat_cases b c y z with hbc | hbc | hbc
      · -- `y` is inserted to be deleted
        have := hleft (c ++ [z])
        omega
      · have := editDistance_insert_le (a ++ [x]) c z
        omega
      · have := editDistance_insert_le (a ++ [x]) c z
        have := hleft c
        omega
      · have := editDistance_delete_le a (c ++ [z]) x
        have := hboth (c ++ [z])
        omega
      · have := editDistance_insert_le (a ++ [x]) c z
        omega
      · have := hboth c
        have := editDistance_replace_le a c x z
        rcases hab with ⟨rfl, hab⟩ | ⟨-, hab⟩
        · rcases hbc with ⟨rfl, hbc⟩ | ⟨-, hbc⟩
          · have := editDistance_keep_le a c x
            omega
          · omega
        · omega

/-- One edit takes a text no further than one. -/
theorem editDistance_le_one_of_step? {e : Edit} (h : e.step? a = some b) :
    editDistance a b ≤ 1 := by
  obtain ⟨u, p, q, v, rfl, rfl, hp, hq⟩ := e.exists_split h
  refine Nat.le_trans (editDistance_append_le (u ++ p) (u ++ q) v) ?_
  have hu := editDistance_self u
  match p, q with
  | [], [] => simp [hu]
  | [], [y] => simpa [hu] using editDistance_insert_le u u y
  | [x], [] => simpa [hu] using editDistance_delete_le u u x
  | [x], [y] => simpa [hu] using editDistance_replace_le u u x y

/-- No script is shorter than the distance. -/
theorem editDistance_le_length {script : List Edit} (h : run? script a = some b) :
    editDistance a b ≤ script.length := by
  induction script generalizing a with
  | nil =>
    obtain rfl := Option.some.inj h
    exact Nat.le_of_eq (editDistance_self a)
  | cons e script ih =>
    obtain ⟨c, hc, hscript⟩ := Option.bind_eq_some_iff.1 h
    calc editDistance a b
        ≤ editDistance a c + editDistance c b := editDistance_triangle a c b
      _ ≤ 1 + script.length := Nat.add_le_add (editDistance_le_one_of_step? hc) (ih hscript)
      _ = (e :: script).length := Nat.add_comm ..

/-- Some script is as long as the distance. -/
theorem editDistance_mem_scriptLengths (a b : List Char) :
    editDistance a b ∈ scriptLengths a b := by
  induction a, b using concat_induction with
  | nil_left b =>
    rw [editDistance_nil_left]
    induction b using List.reverseRecOn with
    | nil => exact zero_mem_scriptLengths []
    | append_singleton b y ih => simpa using scriptLengths_insert ih y
  | nil_right a =>
    rw [editDistance_nil_right]
    induction a using List.reverseRecOn with
    | nil => exact zero_mem_scriptLengths []
    | append_singleton a x ih => simpa using scriptLengths_delete ih x
  | concat a b x y hboth hright hleft =>
    obtain h | h | ⟨rfl, h⟩ | ⟨-, h⟩ := editDistance_concat_cases a b x y
    all_goals rw [h]
    · exact scriptLengths_delete hright x
    · exact scriptLengths_insert hleft y
    · exact scriptLengths_keep hboth x
    · exact scriptLengths_replace hboth x y

theorem editDistance_isLeast (a b : List Char) :
    IsLeast (scriptLengths a b) (editDistance a b) := by
  refine ⟨editDistance_mem_scriptLengths a b, ?_⟩
  rintro n ⟨script, hscript, rfl⟩
  exact editDistance_le_length hscript

theorem editDistance_eq_zero_iff (a b : List Char) : editDistance a b = 0 ↔ a = b := by
  constructor
  · intro h
    obtain ⟨script, hscript, hlength⟩ := editDistance_mem_scriptLengths a b
    obtain rfl := List.eq_nil_of_length_eq_zero (hlength.trans h)
    exact Option.some.inj hscript
  · rintro rfl
    exact editDistance_self a

/-! ## Two rows -/

/-- The row of the text read so far, and another row that the next one is written over. -/
structure TwoRows (b : List Char) where
  current : Vector Nat (b.length + 1)
  spare : Vector Nat (b.length + 1)

namespace TwoRows

/-- Writes the row of a text with `i` characters before its last one, `c`. What the spare row held
stays in it until it is written over. -/
def next {b : List Char} (rows : TwoRows b) (c : Char) (i : Nat) : TwoRows b where
  current := Fin.foldl b.length
    (fun written j => written.set j.succ
      (entry c (b.get j) rows.current[j.castSucc] rows.current[j.succ] written[j.castSucc])
      j.succ.isLt)
    (rows.spare.set 0 (i + 1))
  spare := rows.current

/-- The rows after all characters of `a`. The first spare row may hold anything. -/
def run (a b : List Char) (spare : Vector Nat (b.length + 1)) : TwoRows b :=
  a.zipIdx.foldl (fun rows p => rows.next p.1 p.2) ⟨Vector.range (b.length + 1), spare⟩

def distance (a b : List Char) (spare : Vector Nat (b.length + 1)) : Nat :=
  if a = [] then b.length
  else if b = [] then a.length
  else (run a b spare).current[b.length]

/-- The entries of a row are those of `a` up to the one for `k` characters of `b`. The others may be
anything. -/
def WrittenTo (a b : List Char) (k : Nat) (row : Vector Nat (b.length + 1)) : Prop :=
  ∀ j : Fin (b.length + 1), j.val ≤ k → row[j] = editDistance a (b.take j)

/-- What holds before a loop and is kept by each round holds after it. -/
theorem foldl_invariant {α : Type} {n : Nat} {f : α → Fin n → α} {P : Nat → α → Prop} {init : α}
    (hinit : P 0 init) (hstep : ∀ (j : Fin n) s, P j s → P (j + 1) (f s j)) :
    P n (Fin.foldl n f init) := by
  induction n with
  | zero => exact hinit
  | succ n ih =>
    rw [Fin.foldl_succ_last]
    exact hstep (Fin.last n) _ (ih fun j s hs => hstep j.castSucc s hs)

/-- One round of the outer loop. -/
theorem writtenTo_next {rows : TwoRows b} (h : WrittenTo a b b.length rows.current) (c : Char) :
    WrittenTo (a ++ [c]) b b.length (rows.next c a.length).current := by
  -- an entry is read from the row that is written over only after it was written
  refine foldl_invariant (P := WrittenTo (a ++ [c]) b) ?_ ?_
  · intro j hj
    obtain rfl : j = 0 := Fin.ext (Nat.le_zero.1 hj)
    simp [editDistance_nil_right]
  · intro j written hwritten i hi
    obtain hlt | heq := Nat.lt_or_eq_of_le hi
    · have hne : j.succ.val ≠ i.val := (Nat.ne_of_lt hlt).symm
      rw [← hwritten i (Nat.le_of_lt_succ hlt)]
      exact Vector.getElem_set_ne j.succ.isLt i.isLt hne
    · obtain rfl : i = j.succ := Fin.ext heq
      have htake : b.take j.succ = b.take j ++ [b.get j] := List.take_succ_eq_append_getElem j.isLt
      have habove := h j.succ (Nat.le_of_lt_succ j.succ.isLt)
      have hdiagonal := h j.castSucc (Nat.le_of_lt_succ j.castSucc.isLt)
      have hleft := hwritten j.castSucc (Nat.le_refl _)
      calc _ = entry c (b.get j) rows.current[j.castSucc] rows.current[j.succ]
              written[j.castSucc] := Vector.getElem_set_self j.succ.isLt
        _ = editDistance (a ++ [c]) (b.take j.succ) := by
          rw [hdiagonal, habove, hleft, htake, editDistance_concat_concat]
          rfl

theorem writtenTo_run (a b : List Char) (spare : Vector Nat (b.length + 1)) :
    WrittenTo a b b.length (run a b spare).current := by
  induction a using List.reverseRecOn with
  | nil =>
    intro j hj
    simp [run, editDistance_nil_left, hj]
  | append_singleton a c ih =>
    have hnext : run (a ++ [c]) b spare = (run a b spare).next c a.length := by
      simp [run, List.zipIdx_append]
    rw [hnext]
    exact writtenTo_next ih c

theorem distance_eq (a b : List Char) (spare : Vector Nat (b.length + 1)) :
    distance a b spare = editDistance a b := by
  unfold distance
  split
  · subst a
    rw [editDistance_nil_left]
  · split
    · subst b
      rw [editDistance_nil_right]
    · have hlast := writtenTo_run a b spare (Fin.last _) (Nat.le_refl _)
      rw [Fin.val_last, List.take_length] at hlast
      exact hlast

end TwoRows

/-- The edit distance is the number of edits in a shortest script. So it is symmetric, it is zero
for equal texts and no others, and the way by a third text is no shorter. The program that keeps
two rows finds it, whatever the row that it writes over held at the start. -/
theorem distance_is_shortest_script :
    (∀ a b, IsLeast (scriptLengths a b) (editDistance a b)) ∧
    (∀ a b, editDistance a b = editDistance b a) ∧
    (∀ a b, editDistance a b = 0 ↔ a = b) ∧
    (∀ a b c, editDistance a c ≤ editDistance a b + editDistance b c) ∧
    ∀ a b spare, TwoRows.distance a b spare = editDistance a b :=
  ⟨editDistance_isLeast, editDistance_comm, editDistance_eq_zero_iff, editDistance_triangle,
    TwoRows.distance_eq⟩

end ArrowLang.Spelling
