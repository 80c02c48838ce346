import Mathlib.Data.List.TakeWhile
import ArrowLang.LineMap

/-!
# Lines of a text

An offset that cuts a text in two is at a line and a column that only depend on the part before it:
the line counts its newlines, and the column counts its characters after the last one. The line that
the offset is on begins there and goes on to the first newline of the part after.

Any other offset is on a line, too. Only its column may be no word, and that happens far past the
end of the text (`isSome_position?_iff`).
-/

namespace ArrowLang

open Offset

namespace Text

theorem length_le_size (t : Text) : t.length ≤ t.size := by
  induction t with
  | nil => simp
  | cons c t ih =>
    have := c.utf8Size_pos
    simp only [List.length_cons, size_cons]
    omega

theorem length_le_of_slice? {t u : Text} {start stop : Nat} (h : t.slice? start stop = some u) :
    u.length ≤ t.size ∧ stop ≤ t.size := by
  obtain ⟨a, b, rfl, rfl, rfl⟩ := slice?_eq_some_iff.1 h
  have := length_le_size u
  simp only [size_append]
  omega

theorem size_mono {u v : Text} (h : u <+: v) : u.size ≤ v.size := by
  obtain ⟨w, rfl⟩ := h
  rw [size_append]
  exact Nat.le_add_right _ _

theorem trimEnd_prefix_self (c : Char) (t : Text) : t.trimEnd c <+: t := by
  rw [← List.reverse_suffix, trimEnd, List.reverse_reverse]
  exact List.dropWhile_suffix _

/-- What follows the last newline. -/
def lastLine (t : Text) : Text := (t.reverse.takeWhile (· != '\n')).reverse

/-- What precedes the first newline. -/
def firstLine (t : Text) : Text := t.takeWhile (· != '\n')

theorem newline_not_mem_lastLine (t : Text) : '\n' ∉ t.lastLine := by
  intro h
  have := List.mem_takeWhile_imp (List.mem_reverse.1 h)
  simp at this

theorem newline_not_mem_firstLine (t : Text) : '\n' ∉ t.firstLine := by
  intro h
  have := List.mem_takeWhile_imp h
  simp at this

/-- The last line begins where the text does or just after a newline. -/
theorem exists_append_lastLine (t : Text) :
    ∃ l, t = l ++ t.lastLine ∧ (l = [] ∨ ∃ l', l = l' ++ ['\n']) := by
  refine ⟨(t.reverse.dropWhile (· != '\n')).reverse, ?_, ?_⟩
  · rw [lastLine, ← List.reverse_append, List.takeWhile_append_dropWhile, List.reverse_reverse]
  · cases hdrop : t.reverse.dropWhile (· != '\n') with
    | nil => exact .inl rfl
    | cons c cs =>
      have hc : c = '\n' := by
        have := List.head?_dropWhile_not (· != '\n') t.reverse
        simpa [hdrop] using this
      exact .inr ⟨cs.reverse, by simp [hc]⟩

theorem size_lastLine_le (t : Text) : t.lastLine.size ≤ t.size := by
  obtain ⟨l, hl, -⟩ := exists_append_lastLine t
  have hsize := congrArg size hl
  rw [size_append] at hsize
  omega

/-- The offset at which the last line starts. -/
def lastStart (t : Text) : Nat := t.size - t.lastLine.size

/-- The first line ends where the text does or just before a newline. -/
theorem firstLine_append (t : Text) : t = t.firstLine ∨ ∃ r, t = t.firstLine ++ '\n' :: r := by
  have happend := List.takeWhile_append_dropWhile (p := (· != '\n')) (l := t)
  cases hdrop : t.dropWhile (· != '\n') with
  | nil =>
    rw [hdrop, List.append_nil] at happend
    exact .inl happend.symm
  | cons c cs =>
    have hc : c = '\n' := by
      have := List.head?_dropWhile_not (· != '\n') t
      simpa [hdrop] using this
    rw [hdrop, hc] at happend
    exact .inr ⟨cs, happend.symm⟩

end Text

namespace LineMap

open Text

/-! ## Newlines -/

theorem newlineEnds_append (offset : Nat) (a b : Text) :
    newlineEnds offset (a ++ b) = newlineEnds offset a ++ newlineEnds (offset + a.size) b := by
  induction a generalizing offset with
  | nil => rfl
  | cons c a ih =>
    rw [List.cons_append, newlineEnds, newlineEnds, ih, size_cons, Nat.add_assoc]
    split <;> rfl

theorem newlineEnds_of_not_mem {a : Text} (h : '\n' ∉ a) (offset : Nat) :
    newlineEnds offset a = [] := by
  induction a generalizing offset with
  | nil => rfl
  | cons c a ih =>
    rw [List.mem_cons, not_or] at h
    rw [newlineEnds, if_neg (Ne.symm h.1), ih h.2]

theorem length_newlineEnds (offset : Nat) (a : Text) :
    (newlineEnds offset a).length = a.count '\n' := by
  induction a generalizing offset with
  | nil => rfl
  | cons c a ih =>
    rw [newlineEnds]
    by_cases hc : c = '\n'
    · rw [if_pos hc, List.length_cons, ih, hc, List.count_cons_self]
    · rw [if_neg hc, ih, List.count_cons_of_ne hc]

theorem lt_of_mem_newlineEnds {offset n : Nat} {a : Text} (h : n ∈ newlineEnds offset a) :
    offset < n ∧ n ≤ offset + a.size := by
  induction a generalizing offset with
  | nil => cases h
  | cons c a ih =>
    have hpos := c.utf8Size_pos
    rw [newlineEnds] at h
    rw [size_cons]
    split at h
    case isTrue hc =>
      rcases List.mem_cons.1 h with rfl | h
      · omega
      · have := ih h
        omega
    case isFalse hc =>
      have := ih h
      omega

/-- The start of the last line is the last of all starts. -/
theorem getLast?_starts {l r : Text} (hl : l = [] ∨ ∃ l', l = l' ++ ['\n']) (hr : '\n' ∉ r) :
    (0 :: newlineEnds 0 (l ++ r)).getLast? = some l.size := by
  rw [newlineEnds_append, newlineEnds_of_not_mem hr, List.append_nil]
  rcases hl with rfl | ⟨l', rfl⟩
  · rfl
  · rw [newlineEnds_append, ← List.cons_append, List.getLast?_append]
    simp [newlineEnds]

/-! ## Starts of lines -/

theorem le_size_of_mem_starts {t : Text} {n : Nat} (h : n ∈ (ofText t).starts) : n ≤ t.size := by
  rcases List.mem_cons.1 h with rfl | h
  · exact Nat.zero_le _
  · have := lt_of_mem_newlineEnds h
    omega

theorem lineCount_ofText (t : Text) : (ofText t).lineCount = 1 + t.count '\n' := by
  rw [lineCount, ofText, List.length_cons, length_newlineEnds, Nat.add_comm]

theorem lineCount_le_size (t : Text) : (ofText t).lineCount ≤ t.size + 1 := by
  have hcount := List.count_le_length (a := '\n') (l := t)
  have hlength := length_le_size t
  rw [lineCount_ofText]
  omega

/-- Some line starts at or before any offset, and the last such line is found at the index before
their number. -/
theorem exists_reached (t : Text) (offset : Nat) :
    ∃ index start, ((ofText t).starts.takeWhile (· ≤ offset)).length = index + 1 ∧
      ((ofText t).starts.takeWhile (· ≤ offset)).getLast? = some start ∧
      (ofText t).starts[index]? = some start ∧ start ≤ offset ∧
      index + 1 ≤ (ofText t).lineCount := by
  have hprefix := List.takeWhile_prefix (l := (ofText t).starts) (· ≤ offset)
  generalize hreached : (ofText t).starts.takeWhile (· ≤ offset) = reached at hprefix ⊢
  have hne : reached ≠ [] := by
    rw [← hreached, ofText, List.takeWhile_cons_of_pos (by simp)]
    exact List.cons_ne_nil _ _
  obtain ⟨index, hindex⟩ := Nat.exists_eq_add_one_of_ne_zero (mt List.length_eq_zero_iff.1 hne)
  have hlast := List.getLast?_eq_some_getLast hne
  refine ⟨index, reached.getLast hne, hindex, hlast, ?_, ?_, ?_⟩
  · rw [List.getLast?_eq_getElem?, hindex, Nat.add_sub_cancel] at hlast
    obtain ⟨rest, hrest⟩ := hprefix
    rw [← hrest, List.getElem?_append_left (by omega), hlast]
  · have hmem : reached.getLast hne ∈ (ofText t).starts.takeWhile (· ≤ offset) :=
      hreached ▸ List.getLast_mem hne
    simpa using List.mem_takeWhile_imp hmem
  · have := hprefix.length_le
    rw [lineCount]
    omega

/-! ## Places -/

/-- The place of an offset: the line that it is on, and how much of the line is before it,
characters or else bytes. -/
theorem exists_position?_eq (t : Text) (offset : Nat) :
    ∃ index start, ((ofText t).starts.takeWhile (· ≤ offset)).length = index + 1 ∧
      ((ofText t).starts.takeWhile (· ≤ offset)).getLast? = some start ∧ start ≤ offset ∧
      index + 1 ≤ (ofText t).lineCount ∧
      (ofText t).position? offset = (add? index 1).bind fun line =>
        (add? (((t.slice? start offset).map (·.length)).getD (offset - start)) 1).map
          (Position.mk line) := by
  obtain ⟨index, start, hlength, hlast, hstart, hle, hcount⟩ := exists_reached t offset
  refine ⟨index, start, hlength, hlast, hle, hcount, ?_⟩
  simp only [position?, hlength, Nat.add_sub_cancel, hstart, sub?_of_le hle, Option.bind_eq_bind,
    Option.bind_some, Option.map_eq_bind]
  rfl

theorem bounds_of_position? {t : Text} {offset : Nat} {p : Position}
    (h : (ofText t).position? offset = some p) :
    1 ≤ p.line ∧ p.line ≤ (ofText t).lineCount ∧ 1 ≤ p.column := by
  obtain ⟨index, start, -, -, -, hcount, hposition⟩ := exists_position?_eq t offset
  simp only [hposition, Option.bind_eq_some_iff, Option.map_eq_some_iff, add?_eq_some_iff] at h
  obtain ⟨line, ⟨-, rfl⟩, column, ⟨-, rfl⟩, rfl⟩ := h
  dsimp only
  omega

/-- Past the end, the last line is the one that is found. -/
theorem getLast?_reached {t : Text} {offset : Nat} (h : t.size < offset) :
    ((ofText t).starts.takeWhile (· ≤ offset)).getLast? = some t.lastStart := by
  have hall : (ofText t).starts.takeWhile (· ≤ offset) = (ofText t).starts := by
    refine List.takeWhile_eq_self_iff.2 fun n hn => ?_
    have := le_size_of_mem_starts hn
    rw [decide_eq_true_eq]
    omega
  obtain ⟨l, hl, hend⟩ := exists_append_lastLine t
  have hstart : t.lastStart = l.size := by
    have hsize := congrArg size hl
    rw [size_append] at hsize
    rw [lastStart]
    omega
  have hstarts := getLast?_starts hend (newline_not_mem_lastLine t)
  rw [← hl] at hstarts
  rw [hall, hstart, ← hstarts, ofText]

/-- In a text in memory only the column of an offset may be no word. Past the end it counts the
bytes from where the last line starts. -/
theorem exists_column?_eq {t : Text} (ht : t.size + 1 < words) (offset : Nat) :
    ∃ line before, (ofText t).position? offset = (add? before 1).map (Position.mk line) ∧
      (offset ≤ t.size ∧ before ≤ t.size ∨ t.size < offset ∧ before + t.lastStart = offset) := by
  obtain ⟨index, start, -, hlast, hle, hcount, hposition⟩ := exists_position?_eq t offset
  have hline : add? index 1 = some (index + 1) := by
    have := lineCount_le_size t
    exact add?_of_lt (by omega)
  rw [hline, Option.bind_some] at hposition
  refine ⟨_, _, hposition, ?_⟩
  cases hslice : t.slice? start offset with
  | some before =>
    have := length_le_of_slice? hslice
    exact .inl ⟨this.2, this.1⟩
  | none =>
    rw [Option.map_none, Option.getD_none]
    rcases Nat.lt_or_ge t.size offset with hpast | hin
    · obtain rfl : start = t.lastStart :=
        Option.some.inj (hlast.symm.trans (getLast?_reached hpast))
      exact .inr ⟨hpast, by omega⟩
    · exact .inl ⟨hin, by omega⟩

theorem isSome_position?_iff {t : Text} (ht : t.size + 1 < words) {offset : Nat} :
    ((ofText t).position? offset).isSome ↔ offset + 1 < words + t.lastStart := by
  obtain ⟨line, before, hposition, hbefore⟩ := exists_column?_eq ht offset
  rw [hposition, Option.isSome_map, Option.isSome_iff_exists]
  simp only [add?_eq_some_iff, exists_and_left, exists_eq', and_true]
  omega

/-! ## Offsets that cut the text -/

theorem takeWhile_starts (a b : Text) :
    (ofText (a ++ b)).starts.takeWhile (· ≤ a.size) = 0 :: newlineEnds 0 a := by
  have hall : ∀ n ∈ 0 :: newlineEnds 0 a, decide (n ≤ a.size) = true := by
    intro n hn
    rcases List.mem_cons.1 hn with rfl | hn
    · simp
    · have := lt_of_mem_newlineEnds hn
      rw [decide_eq_true_eq]
      omega
  have hnone : (newlineEnds a.size b).takeWhile (· ≤ a.size) = [] := by
    cases hb : newlineEnds a.size b with
    | nil => rfl
    | cons n ns =>
      have := lt_of_mem_newlineEnds (hb ▸ List.mem_cons_self : n ∈ newlineEnds a.size b)
      rw [List.takeWhile_cons_of_neg]
      simpa using this.1
  rw [ofText, newlineEnds_append, Nat.zero_add, ← List.cons_append,
    List.takeWhile_append_of_pos hall, hnone, List.append_nil]

/-- The line that a cut is on begins before it. -/
theorem exists_line_start (a b : Text) : ∃ l, a = l ++ a.lastLine ∧
    ((ofText (a ++ b)).starts.takeWhile (· ≤ a.size)).getLast? = some l.size ∧
    (a ++ b).slice? l.size a.size = some a.lastLine := by
  obtain ⟨l, hl, hend⟩ := exists_append_lastLine a
  refine ⟨l, hl, ?_, Text.slice?_eq_some_iff.2 ⟨l, b, by rw [← hl], rfl, ?_⟩⟩
  · rw [takeWhile_starts, hl, getLast?_starts hend (newline_not_mem_lastLine a)]
  · rw [← Text.size_append, ← hl]

/-- A cut is on the line that counts the newlines before it, at the column that counts the
characters after the last of them. -/
theorem position?_append {a : Text} (ha : a.size + 1 < words) (b : Text) :
    (ofText (a ++ b)).position? a.size = some ⟨1 + a.count '\n', 1 + a.lastLine.length⟩ := by
  obtain ⟨l, -, hline, hslice⟩ := exists_line_start a b
  obtain ⟨index, start, hlength, hlast, -, -, hposition⟩ := exists_position?_eq (a ++ b) a.size
  obtain rfl : start = l.size := Option.some.inj (hlast.symm.trans hline)
  obtain rfl : index = a.count '\n' := by
    rw [takeWhile_starts, List.length_cons, length_newlineEnds] at hlength
    omega
  have hcount := List.count_le_length (a := '\n') (l := a)
  have hcolumn := Nat.le_trans (length_le_size a.lastLine) (size_lastLine_le a)
  have hsize := length_le_size a
  rw [hposition, hslice, Option.map_some, Option.getD_some, add?_of_lt (by omega),
    add?_of_lt (by omega), Nat.add_comm 1, Nat.add_comm 1]
  rfl

/-- The next line starts after the first newline that follows a cut, if there is one. -/
theorem head?_newlineEnds (offset : Nat) (b : Text) :
    b = b.firstLine ∧ (newlineEnds offset b).head? = none ∨
      (newlineEnds offset b).head? = some (offset + b.firstLine.size + 1) := by
  have hnone := newlineEnds_of_not_mem (newline_not_mem_firstLine b) offset
  rcases firstLine_append b with hb | ⟨r, hb⟩
  · rw [← hb] at hnone
    exact .inl ⟨hb, by rw [hnone, List.head?_nil]⟩
  · right
    rw [hb, newlineEnds_append, hnone, ← hb]
    rfl

/-- The line that a cut is on. -/
theorem lineText?_append (a b : Text) :
    (ofText (a ++ b)).lineText? (1 + a.count '\n') =
      some ((a.lastLine ++ b.firstLine).trimEnd '\r') := by
  obtain ⟨l, hl, hstart, -⟩ := exists_line_start a b
  rw [takeWhile_starts, List.getLast?_eq_getElem?, List.length_cons, length_newlineEnds] at hstart
  have hstarts : (ofText (a ++ b)).starts = (0 :: newlineEnds 0 a) ++ newlineEnds a.size b := by
    rw [ofText, newlineEnds_append, Nat.zero_add, List.cons_append]
  have hlength : (0 :: newlineEnds 0 a).length = a.count '\n' + 1 := by
    rw [List.length_cons, length_newlineEnds]
  have hfirst : (ofText (a ++ b)).starts[a.count '\n']? = some l.size := by
    rw [hstarts, List.getElem?_append_left (by omega)]
    exact hstart
  have hnext : (ofText (a ++ b)).starts[a.count '\n' + 1]? = (newlineEnds a.size b).head? := by
    rw [hstarts, List.getElem?_append_right (by omega), hlength, Nat.sub_self,
      List.head?_eq_getElem?]
  have hsize : l.size + (a.lastLine ++ b.firstLine).size = a.size + b.firstLine.size := by
    rw [Text.size_append, ← Nat.add_assoc, ← Text.size_append, ← hl]
  have hslice : (a ++ b).slice? l.size (a.size + b.firstLine.size) =
      some (a.lastLine ++ b.firstLine) := by
    obtain ⟨r, hr⟩ := List.takeWhile_prefix (l := b) (· != '\n')
    refine Text.slice?_eq_some_iff.2 ⟨l, r, ?_, rfl, hsize.symm⟩
    rw [← List.append_assoc, ← hl, List.append_assoc, Text.firstLine, hr]
  have htext : (ofText (a ++ b)).text = a ++ b := rfl
  rw [Nat.add_comm, lineText?, hfirst, hnext]
  rcases head?_newlineEnds a.size b with ⟨hb, hnone⟩ | hsome
  · have hend : (a ++ b).size = a.size + b.firstLine.size := by rw [Text.size_append, ← hb]
    simp [hnone, htext, hend, hslice]
  · simp [hsome, htext, hslice]

end LineMap

end ArrowLang
