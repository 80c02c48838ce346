import Mathlib.Data.List.DropRight
import ArrowLang.Proofs.Lines

/-!
# Looking up lines

A `LineMap` answers two questions: where an offset is, and what a line says. Places come in the
order of the offsets, lines are the pieces between newlines, and the two answers fit together: the
column of a character is its place in the text of its line. Not every offset has a place, as a
column far past the end of the text is no word.
-/

namespace ArrowLang

open Offset

namespace Text

/-! ## The ends of a text -/

theorem lastLine_append_of_not_mem (a : Text) {b : Text} (h : '\n' ∉ b) :
    (a ++ b).lastLine = a.lastLine ++ b := by
  have hall : ∀ c ∈ b.reverse, (c != '\n') = true := by
    intro c hc
    rw [bne_iff_ne]
    rintro rfl
    exact h (List.mem_reverse.1 hc)
  rw [lastLine, List.reverse_append, List.takeWhile_append_of_pos hall, List.reverse_append,
    List.reverse_reverse, lastLine]

theorem lastLine_append_newline_cons (a b : Text) : (a ++ '\n' :: b).lastLine = b.lastLine := by
  obtain ⟨l, hl, hend⟩ := exists_append_lastLine b
  have hsplit : a ++ '\n' :: b = (a ++ '\n' :: l) ++ b.lastLine := by
    rw [List.append_assoc, List.cons_append, ← hl]
  have hnil : (a ++ '\n' :: l).lastLine = [] := by
    rcases hend with rfl | ⟨l', rfl⟩ <;> simp [lastLine]
  rw [hsplit, lastLine_append_of_not_mem _ (newline_not_mem_lastLine b), hnil, List.nil_append]

theorem firstLine_cons_of_ne {c : Char} (h : c ≠ '\n') (t : Text) :
    firstLine (c :: t) = c :: t.firstLine :=
  List.takeWhile_cons_of_pos (bne_iff_ne.2 h)

theorem trimEnd_eq_rdropWhile (r : Char) (t : Text) : t.trimEnd r = t.rdropWhile (· == r) := rfl

theorem trimEnd_concat (r : Char) (t : Text) (c : Char) :
    trimEnd r (t ++ [c]) = if c = r then t.trimEnd r else t ++ [c] := by
  simpa [trimEnd_eq_rdropWhile] using List.rdropWhile_concat (· == r) t c

/-- All that is trimmed comes after a character that is not. -/
theorem trimEnd_append_cons {r c : Char} {b : Text} (h : ¬ (c = r ∧ ∀ d ∈ b, d = r)) (a : Text) :
    (a ++ c :: b).trimEnd r = a ++ c :: b.trimEnd r := by
  induction b using List.reverseRecOn with
  | nil =>
    have hc : c ≠ r := fun hc => h ⟨hc, by simp⟩
    rw [trimEnd_concat, if_neg hc]
    rfl
  | append_singleton b d ih =>
    have hconcat : a ++ c :: (b ++ [d]) = (a ++ c :: b) ++ [d] := by simp
    rw [hconcat, trimEnd_concat, trimEnd_concat]
    by_cases hd : d = r
    · rw [if_pos hd, if_pos hd]
      refine ih fun hall => h ⟨hall.1, ?_⟩
      simpa [or_imp, forall_and, hd] using hall.2
    · rw [if_neg hd, if_neg hd, hconcat]

/-! ## Pieces between newlines -/

theorem splitOn_newline (t : Text) :
    t = t.firstLine ∧ t.splitOn '\n' = [t] ∨
      ∃ r, t = t.firstLine ++ '\n' :: r ∧ t.splitOn '\n' = t.firstLine :: r.splitOn '\n' := by
  have hfirst := newline_not_mem_firstLine t
  rcases firstLine_append t with ht | ⟨r, ht⟩
  · rw [← ht] at hfirst
    exact .inl ⟨ht, List.splitOn_eq_singleton hfirst⟩
  · refine .inr ⟨r, ht, ?_⟩
    conv_lhs => rw [ht]
    exact List.splitOn_append_cons_self_of_not_mem hfirst r

theorem length_splitOn_newline (t : Text) : (t.splitOn '\n').length = 1 + t.count '\n' := by
  have hfirst := List.count_eq_zero_of_not_mem (newline_not_mem_firstLine t)
  rcases splitOn_newline t with ⟨ht, hsplit⟩ | ⟨r, ht, hsplit⟩
  · rw [hsplit, ht, hfirst]
    rfl
  · have hlt : r.length < t.length := by
      rw [ht, List.length_append, List.length_cons]
      omega
    have hcount : t.count '\n' = 1 + r.count '\n' := by
      conv_lhs => rw [ht]
      rw [List.count_append, hfirst, List.count_cons_self]
      omega
    rw [hsplit, List.length_cons, length_splitOn_newline r, hcount, Nat.add_comm]
termination_by t.length

/-- A piece begins at a cut after as many newlines as there are pieces before it. -/
theorem exists_cut_of_piece {t piece : Text} {i : Nat} (h : (t.splitOn '\n')[i]? = some piece) :
    ∃ a b, t = a ++ b ∧ a.count '\n' = i ∧ a.lastLine = [] ∧ b.firstLine = piece := by
  induction i generalizing t with
  | zero =>
    refine ⟨[], t, rfl, rfl, rfl, ?_⟩
    rcases splitOn_newline t with ⟨ht, hsplit⟩ | ⟨r, -, hsplit⟩
    · rw [hsplit] at h
      rw [← ht]
      exact Option.some.inj h
    · rw [hsplit] at h
      exact Option.some.inj h
  | succ i ih =>
    rcases splitOn_newline t with ⟨-, hsplit⟩ | ⟨r, ht, hsplit⟩
    · rw [hsplit] at h
      cases h
    · rw [hsplit, List.getElem?_cons_succ] at h
      obtain ⟨a, b, rfl, hcount, hlast, hfirst⟩ := ih h
      refine ⟨t.firstLine ++ '\n' :: a, b, by rw [List.append_assoc]; exact ht, ?_, ?_, hfirst⟩
      · rw [List.count_append, List.count_cons_self, hcount,
          List.count_eq_zero_of_not_mem (newline_not_mem_firstLine t), Nat.zero_add]
      · rw [lastLine_append_newline_cons, hlast]

end Text

/-! ## Places in order -/

/-- On an earlier line, or on the same line at an earlier column. -/
def Position.Before (p q : Position) : Prop :=
  Prod.Lex (· < ·) (· < ·) (p.line, p.column) (q.line, q.column)

namespace LineMap

open Text

variable {t : Text}

theorem position?_of_cut (ht : t.size + 1 < words) {n : Nat} {before after : Text}
    (h : t.cut? n = some (before, after)) :
    (ofText t).position? n = some ⟨1 + before.count '\n', 1 + before.lastLine.length⟩ := by
  obtain ⟨rfl, rfl⟩ := cut?_eq_some_iff.1 h
  rw [size_append] at ht
  exact position?_append (by omega) after

/-- More text before a cut means a later place. -/
theorem before_append (a : Text) {b : Text} (h : b ≠ []) :
    Position.Before ⟨1 + a.count '\n', 1 + a.lastLine.length⟩
      ⟨1 + (a ++ b).count '\n', 1 + (a ++ b).lastLine.length⟩ := by
  rw [List.count_append]
  by_cases hnewline : '\n' ∈ b
  · have hcount := List.count_pos_iff.2 hnewline
    exact .left _ _ (by dsimp only; omega)
  · have hlength := List.length_pos_iff.2 h
    rw [List.count_eq_zero_of_not_mem hnewline, lastLine_append_of_not_mem a hnewline,
      List.length_append]
    exact .right _ (by dsimp only; omega)

theorem position?_before (ht : t.size + 1 < words) {m n : Nat} (hm : (t.cut? m).isSome)
    (hn : (t.cut? n).isSome) (h : m < n) :
    ∃ p q, (ofText t).position? m = some p ∧ (ofText t).position? n = some q ∧ p.Before q := by
  obtain ⟨⟨a, b⟩, hm⟩ := Option.isSome_iff_exists.1 hm
  obtain ⟨⟨a', b'⟩, hn⟩ := Option.isSome_iff_exists.1 hn
  refine ⟨_, _, position?_of_cut ht hm, position?_of_cut ht hn, ?_⟩
  obtain ⟨hab, rfl⟩ := cut?_eq_some_iff.1 hm
  obtain ⟨hab', rfl⟩ := cut?_eq_some_iff.1 hn
  -- one cut is further on by some characters
  rcases List.append_eq_append_iff.1 (hab.trans hab'.symm) with ⟨c, rfl, -⟩ | ⟨c, rfl, -⟩
  · refine before_append a ?_
    rintro rfl
    simp at h
  · rw [size_append] at h
    omega

/-- An offset between two characters is on the line that counts the newlines before it, at the
column that counts the characters after the last of them. So places are in the order of such
offsets, and no offset is on a line that is not there. -/
theorem position_counts_in_order (t : Text) (ht : t.size + 1 < words) :
    (∀ n before after, t.cut? n = some (before, after) →
      (ofText t).position? n = some ⟨1 + before.count '\n', 1 + before.lastLine.length⟩) ∧
    (∀ m n, (t.cut? m).isSome → (t.cut? n).isSome → m < n →
      ∃ p q, (ofText t).position? m = some p ∧ (ofText t).position? n = some q ∧ p.Before q) ∧
    ∀ n p, (ofText t).position? n = some p → p.line ≤ (ofText t).lineCount :=
  ⟨fun _ _ _ h => position?_of_cut ht h, fun _ _ hm hn h => position?_before ht hm hn h,
    fun _ _ h => (bounds_of_position? h).2.1⟩

/-- After `é` and a line end of two characters, both of them before the second line. -/
theorem position_counts_in_order_accent :
    let t : Text := "é\r\nb".toList
    t.size + 1 < words ∧ t.cut? 4 = some ("é\r\n".toList, "b".toList) ∧
      (ofText t).position? 4 = some ⟨2, 1⟩ ∧ (t.cut? 2).isSome ∧
      ∃ p q, (ofText t).position? 2 = some p ∧ (ofText t).position? 4 = some q ∧ p.Before q := by
  intro t
  have ht : t.size + 1 < words := by decide
  have hcut : t.cut? 4 = some ("é\r\n".toList, "b".toList) := by decide
  have hcut' : (t.cut? 2).isSome := by decide
  obtain ⟨hposition, hbefore, -⟩ := position_counts_in_order t ht
  exact ⟨ht, hcut, hposition 4 _ _ hcut, hcut',
    hbefore 2 4 hcut' (by rw [hcut]; rfl) (by decide)⟩

/-! ## Texts of lines -/

/-- A line is a piece between newlines without the carriage returns at its end. -/
theorem lineText?_of_piece {i : Nat} {piece : Text} (h : (t.splitOn '\n')[i]? = some piece) :
    (ofText t).lineText? (1 + i) = some (piece.trimEnd '\r') := by
  obtain ⟨a, b, rfl, rfl, hlast, rfl⟩ := exists_cut_of_piece h
  rw [lineText?_append, hlast, List.nil_append]

theorem length_splitOn_eq_lineCount (t : Text) :
    (t.splitOn '\n').length = (ofText t).lineCount := by
  rw [length_splitOn_newline, lineCount_ofText]

theorem lineText?_range (t : Text) :
    (List.range' 1 (ofText t).lineCount).map (ofText t).lineText? =
      (t.splitOn '\n').map fun piece => some (Text.trimEnd '\r' piece) := by
  rw [← length_splitOn_eq_lineCount]
  refine List.ext_getElem? fun i => ?_
  rw [List.getElem?_map, List.getElem?_map]
  cases hpiece : (t.splitOn '\n')[i]? with
  | none =>
    have hle := List.getElem?_eq_none_iff.1 hpiece
    rw [List.getElem?_eq_none (by simpa using hle)]
    rfl
  | some piece =>
    have hlt := (List.getElem?_eq_some_iff.1 hpiece).1
    rw [List.getElem?_range' hlt, Nat.one_mul]
    exact congrArg some (lineText?_of_piece hpiece)

theorem lineText?_eq_none {line : Nat} (h : line = 0 ∨ (ofText t).lineCount < line) :
    (ofText t).lineText? line = none := by
  cases line with
  | zero => rfl
  | succ i =>
    have hle : (ofText t).starts.length ≤ i := by
      have : (ofText t).lineCount = (ofText t).starts.length := rfl
      omega
    rw [lineText?, List.getElem?_eq_none hle]
    rfl

theorem isSome_lineText? {line : Nat} (hpos : 0 < line) (hle : line ≤ (ofText t).lineCount) :
    ((ofText t).lineText? line).isSome := by
  obtain ⟨i, rfl⟩ := Nat.exists_eq_add_of_le hpos
  have hlt : i < (t.splitOn '\n').length := by
    rw [length_splitOn_eq_lineCount]
    omega
  rw [lineText?_of_piece (List.getElem?_eq_getElem hlt)]
  rfl

theorem isSome_lineText?_of_position? {n : Nat} {p : Position}
    (h : (ofText t).position? n = some p) : ((ofText t).lineText? p.line).isSome := by
  have hbounds := bounds_of_position? h
  exact isSome_lineText? hbounds.1 hbounds.2.1

/-- A character that is shown at all is shown at its column. -/
theorem getElem?_lineText (ht : t.size + 1 < words) {n : Nat} {before after : Text} {c : Char}
    (h : t.cut? n = some (before, c :: after)) (hnewline : c ≠ '\n')
    (hkept : ¬ (c = '\r' ∧ ∀ d ∈ after.firstLine, d = '\r')) :
    ∃ line text i, (ofText t).position? n = some ⟨line, i + 1⟩ ∧
      (ofText t).lineText? line = some text ∧ text[i]? = some c := by
  have hposition := position?_of_cut ht h
  obtain ⟨rfl, rfl⟩ := cut?_eq_some_iff.1 h
  rw [Nat.add_comm 1 before.lastLine.length] at hposition
  refine ⟨_, _, _, hposition, lineText?_append before (c :: after), ?_⟩
  rw [firstLine_cons_of_ne hnewline, trimEnd_append_cons hkept,
    List.getElem?_append_right (Nat.le_refl _), Nat.sub_self]
  rfl

/-- The lines are the pieces of the text between newlines, each without the carriage returns at its
end, and there are no others. An offset is on one of them exactly if it is less than the number of
words past the place where the last line starts. Every character but the newlines and the carriage
returns left out is in the text of its line at its column. -/
theorem lines_split_at_newlines (t : Text) :
    (List.range' 1 (ofText t).lineCount).map (ofText t).lineText? =
      (t.splitOn '\n').map (fun piece => some (piece.rdropWhile (· == '\r'))) ∧
    (∀ line, line = 0 ∨ (ofText t).lineCount < line → (ofText t).lineText? line = none) ∧
    (t.size + 1 < words → ∀ n,
      (∃ p, (ofText t).position? n = some p ∧ ((ofText t).lineText? p.line).isSome) ↔
        n + 1 < words + t.lastStart) ∧
    (t.size + 1 < words → ∀ n before c after, t.cut? n = some (before, c :: after) → c ≠ '\n' →
      ¬ (c = '\r' ∧ ∀ d ∈ firstLine after, d = '\r') →
      ∃ line text i, (ofText t).position? n = some ⟨line, i + 1⟩ ∧
        (ofText t).lineText? line = some text ∧ text[i]? = some c) := by
  refine ⟨lineText?_range t, fun _ h => lineText?_eq_none h, fun ht n => ?_,
    fun ht _ _ _ _ h hnewline hkept => getElem?_lineText ht h hnewline hkept⟩
  rw [← isSome_position?_iff ht, Option.isSome_iff_exists]
  exact ⟨fun ⟨p, hp, _⟩ => ⟨p, hp⟩, fun ⟨p, hp⟩ => ⟨p, hp, isSome_lineText?_of_position? hp⟩⟩

/-- A carriage return inside a line is a character of it, and the last word that has a place is
counted from the second line. -/
theorem lines_split_at_newlines_returns :
    let t : Text := "a\r\r\nx\ry\r".toList
    t.size + 1 < words ∧
    (List.range' 1 (ofText t).lineCount).map (ofText t).lineText? =
      [some "a".toList, some "x\ry".toList] ∧
    (∃ p, (ofText t).position? 0xffffffffffffffff = some p ∧
      ((ofText t).lineText? p.line).isSome) ∧
    t.cut? 5 = some ("a\r\r\nx".toList, "\ry\r".toList) ∧
    ∃ line text i, (ofText t).position? 5 = some ⟨line, i + 1⟩ ∧
      (ofText t).lineText? line = some text ∧ text[i]? = some '\r' := by
  intro t
  have ht : t.size + 1 < words := by decide
  have hcut : t.cut? 5 = some ("a\r\r\nx".toList, "\ry\r".toList) := by decide
  have hkept : ¬ ('\r' = '\r' ∧ ∀ d ∈ firstLine "y\r".toList, d = '\r') :=
    fun h => absurd (h.2 'y' (by decide)) (by decide)
  obtain ⟨hlines, -, hoffset, hchar⟩ := lines_split_at_newlines t
  exact ⟨ht, hlines.trans (by decide), (hoffset ht _).2 (by decide +kernel), hcut,
    hchar ht 5 _ '\r' _ hcut (by decide) hkept⟩

/-- The last word has no place in a text of one line. -/
theorem last_word_on_no_line :
    (ofText []).position? 0xffffffffffffffff = none ∧
    ¬ ∀ (t : Text), t.size + 1 < words → ∀ n < words,
      ∃ p, (ofText t).position? n = some p ∧ ((ofText t).lineText? p.line).isSome := by
  have hnone : (ofText []).position? 0xffffffffffffffff = none := by decide +kernel
  refine ⟨hnone, fun h => ?_⟩
  obtain ⟨p, hp, -⟩ := h [] (by decide) 0xffffffffffffffff (by decide)
  rw [hnone] at hp
  cases hp

end LineMap

end ArrowLang
