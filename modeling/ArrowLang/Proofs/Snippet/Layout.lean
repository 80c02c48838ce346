import ArrowLang.Proofs.OffsetArithmetic

/-!
# The text of a diagnostic without colours

With colours off, a row is the text of its pieces, and all rows below the headline start with a
margin: the number of a line or blanks, and a bar. The rows of a diagnostic are its head, the lines
that its labels start on, and its foot.
-/

namespace ArrowLang

/-! ## Rows -/

namespace Piece

@[simp] theorem text_plain (text : String) : (plain text).text = text.toList := rfl

@[simp] theorem text_bold (text : String) : (bold text).text = text.toList := rfl

@[simp] theorem text_colored (color : Color) (text : String) :
    (colored color text).text = text.toList := rfl

@[simp] theorem text_boldColored (color : Color) (text : String) :
    (boldColored color text).text = text.toList := rfl

@[simp] theorem render_false (p : Piece) : p.render false = p.text := by
  unfold render
  split <;> rfl

end Piece

theorem Row.render_false (r : Row) : Row.render false r = r.flatMap (·.text) ++ ['\n'] := by
  simp [render]

namespace Snippet

/-- A row below no number, with the text after its bar. -/
def marginText (gutter : Nat) (text : Text) : Text :=
  (spaces (gutter + 1)).toList ++ " | ".toList ++ text ++ ['\n']

/-- The row of a line, with the text after its bar. -/
def numberedText (gutter line : Nat) (text : Text) : Text :=
  (padLeft (gutter + 1) (toString line)).toList ++ " | ".toList ++ text ++ ['\n']

@[simp] theorem toList_spaces (n : Nat) : (spaces n).toList = List.replicate n ' ' := by
  simp [spaces]

/-- The text of the pieces after a bar starts with a blank. -/
theorem render_margin {gutter : Nat} {r : Row} {text : Text}
    (h : r.flatMap (·.text) = ' ' :: text) :
    Row.render false (margin gutter ++ r) = marginText gutter text := by
  simp [Row.render_false, margin, bar, marginText, h]

theorem render_numbered {gutter line : Nat} {r : Row} {text : Text}
    (h : r.flatMap (·.text) = ' ' :: text) :
    Row.render false (numbered gutter line ++ r) = numberedText gutter line text := by
  simp [Row.render_false, numbered, bar, numberedText, h]

end Snippet

/-! ## Head and foot -/

/-- The line on which a label starts. -/
def Label.line? (map : LineMap) (l : Label) : Option Nat :=
  (map.position? l.span.start).map (·.line)

namespace Snippet

variable {map : LineMap} {file : String} {d : Diagnostic} {span : Span} {marks : List Mark}

/-- The lines of the source that a diagnostic shows. -/
def shown (map : LineMap) (d : Diagnostic) : List Nat :=
  ((List.range map.lineCount).map (· + 1)).filter fun n => d.labels.any (·.line? map == some n)

/-- The width of the line numbers of a diagnostic. -/
def gutter (map : LineMap) (d : Diagnostic) : Nat :=
  if d.labels = [] then 2 else gutterWidth (shown map d)

/-- The rows before the lines of the source. -/
def head (map : LineMap) (file : String) (d : Diagnostic) (position : Position) : List Row :=
  [headline d, place file position, margin (gutter map d)]

/-- The rows after the lines of the source. -/
def foot? (map : LineMap) (d : Diagnostic) : Option (List Row) := do
  let footer ← footer? map (gutter map d) d
  return (if d.notes.isEmpty && d.help.isNone then [] else [margin (gutter map d)]) ++ footer

theorem isSome_foot?_iff : (foot? map d).isSome ↔
    ∀ s, d.help.bind (·.suggestion) = some s → (replaced? map s).isSome := by
  rw [← @isSome_footer?_iff _ _ (gutter map d)]
  simp [foot?, Option.isSome_bind]

theorem primarySpan?_eq_none_iff : d.primarySpan? = none ↔ d.labels = [] := by
  cases hlabels : d.labels with
  | nil => simp [Diagnostic.primarySpan?, hlabels]
  | cons l ls => simp [Diagnostic.primarySpan?, hlabels]

theorem line?_of_ofLabel? {l : Label} {m : Mark} (h : Mark.ofLabel? map l = some m) :
    l.line? map = some m.line := by
  obtain ⟨first, -, -, hfirst, -, -, -, rfl⟩ := Mark.ofLabel?_eq_some_iff.1 h
  rw [Label.line?, hfirst]
  rfl

/-- The lines on which marks start are those on which their labels do. -/
theorem lines_of_mapM (h : d.labels.mapM (Mark.ofLabel? map) = some marks) :
    lines map marks = shown map d := by
  refine List.filter_congr fun n _ => ?_
  rw [Bool.eq_iff_iff, List.any_eq_true, List.any_eq_true]
  constructor
  · rintro ⟨m, hm, hn⟩
    obtain ⟨l, hl, hmark⟩ := (mem_iff_of_mapM h).1 hm
    exact ⟨l, hl, by rw [line?_of_ofLabel? hmark, beq_iff_eq, beq_iff_eq.1 hn]⟩
  · rintro ⟨l, hl, hn⟩
    obtain ⟨m, hm, hmark⟩ := exists_mem_of_mapM h hl
    rw [line?_of_ofLabel? hmark, beq_iff_eq, Option.some.injEq] at hn
    exact ⟨m, hm, beq_iff_eq.2 hn⟩

theorem rows?_of_primarySpan? (hspan : d.primarySpan? = some span)
    (hmarks : d.labels.mapM (Mark.ofLabel? map) = some marks) (file : String) :
    rows? map file d = (map.position? span.start).bind fun position =>
      (lineRows? map (gutter map d) marks (shown map d)).bind fun source =>
        (foot? map d).map (head map file d position ++ source ++ ·) := by
  have hlabels : d.labels ≠ [] := by
    intro hnil
    simp [primarySpan?_eq_none_iff.2 hnil] at hspan
  simp [rows?, hspan, hmarks, head, foot?, gutter, lines_of_mapM hmarks, hlabels,
    Option.map_eq_bind, Option.bind_assoc]

/-- A diagnostic without labels has no source to show. -/
theorem rows?_of_primarySpan?_eq_none (hspan : d.primarySpan? = none) (file : String) :
    rows? map file d = (footer? map 2 d).map (headline d :: ·) := by
  simp [rows?, hspan, primarySpan?_eq_none_iff.1 hspan, Option.map_eq_bind]

theorem exists_marks_of_rows? {rows : List Row} (h : rows? map file d = some rows) :
    ∃ marks, d.labels.mapM (Mark.ofLabel? map) = some marks := by
  refine Option.ne_none_iff_exists'.1 fun hnone => ?_
  simp [rows?, hnone] at h

/-- The rows of notes and help come last. -/
theorem exists_rows?_eq_append_footer {rows : List Row} (h : rows? map file d = some rows) :
    ∃ front footer, footer? map (gutter map d) d = some footer ∧ rows = front ++ footer := by
  cases hspan : d.primarySpan? with
  | none =>
    rw [rows?_of_primarySpan?_eq_none hspan] at h
    obtain ⟨footer, hfooter, rfl⟩ := Option.map_eq_some_iff.1 h
    refine ⟨[headline d], footer, ?_, rfl⟩
    simpa [gutter, primarySpan?_eq_none_iff.1 hspan] using hfooter
  | some span =>
    obtain ⟨marks, hmarks⟩ := exists_marks_of_rows? h
    rw [rows?_of_primarySpan? hspan hmarks] at h
    simp only [Option.bind_eq_some_iff, Option.map_eq_some_iff, foot?, Option.bind_eq_bind] at h
    obtain ⟨position, -, source, -, foot, ⟨footer, hfooter, hfoot⟩, rfl⟩ := h
    obtain rfl := Option.some.inj hfoot
    rw [← List.append_assoc]
    exact ⟨_, footer, hfooter, rfl⟩

end Snippet

end ArrowLang
