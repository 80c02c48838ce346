import ArrowLang.Proofs.DiagnosticSpans
import ArrowLang.Proofs.DidYouMean
import ArrowLang.Proofs.TriviaInsertion

/-!
# The line that a suggestion shows

A suggestion is shown as its line with the replacement in the place of the span. The line is put
together from a column, a number of bytes and the text of one line. For a span within the text of a
line it is the line of the edited text (`suggestion_shows_edited_line`). The span of a variable may
go over several lines, as its parentheses are part of it; then what follows the span on its last
line is missing from the line that is shown (`checker_fix_is_edited_line_iff`).
-/

namespace ArrowLang

open Offset

/-! ## Lines of an edited text -/

namespace Text

variable {r : Char} {x y a m b : Text}

/-- If nothing is trimmed from the first part, all that is trimmed is in the second one. -/
theorem trimEnd_append (h : x.trimEnd r = x) (y : Text) :
    (x ++ y).trimEnd r = x ++ y.trimEnd r := by
  induction y using List.reverseRecOn with
  | nil => simpa [trimEnd] using h
  | append_singleton y c ih =>
    rw [← List.append_assoc, trimEnd_concat, trimEnd_concat, ih]
    split <;> simp

theorem trimEnd_append_of_getLast? {c : Char} (h : y.getLast? = some c) (hc : c ≠ r) (x : Text) :
    (x ++ y).trimEnd r = x ++ y := by
  obtain ⟨z, rfl⟩ := List.getLast?_eq_some_iff.1 h
  rw [← List.append_assoc, trimEnd_concat, if_neg hc]

theorem trimEnd_eq_nil_iff : x.trimEnd r = [] ↔ ∀ c ∈ x, c = r := by
  simp [trimEnd]

theorem trimEnd_append_of_forall (h : ∀ c ∈ y, c = r) (x : Text) :
    (x ++ y).trimEnd r = x.trimEnd r := by
  induction y using List.reverseRecOn with
  | nil => rw [List.append_nil]
  | append_singleton y c ih =>
    rw [← List.append_assoc, trimEnd_concat, if_pos (h c (by simp))]
    exact ih fun d hd => h d (by simp [hd])

/-- What is left of the second part, if all of the first one is left. -/
theorem trimEnd_append_of_prefix (h : x <+: (x ++ y).trimEnd r) :
    (x ++ y).trimEnd r = x ++ y.trimEnd r := by
  by_cases hy : ∀ c ∈ y, c = r
  · rw [trimEnd_append_of_forall hy] at h ⊢
    rw [trimEnd_eq_nil_iff.2 hy, List.append_nil]
    exact h.eq_of_length_le (trimEnd_prefix_self r x).length_le |>.symm
  · obtain ⟨c, hc⟩ := not_forall.1 hy
    obtain ⟨hmem, hne⟩ := Classical.not_imp.1 hc
    obtain ⟨u, v, rfl⟩ := List.append_of_mem hmem
    have hkept : ¬ (c = r ∧ ∀ d ∈ v, d = r) := fun h => hne h.1
    rw [← List.append_assoc, trimEnd_append_cons hkept, trimEnd_append_cons hkept,
      List.append_assoc]

theorem firstLine_append_of_not_mem (h : '\n' ∉ m) (b : Text) :
    (m ++ b).firstLine = m ++ b.firstLine := by
  refine List.takeWhile_append_of_pos fun c hc => ?_
  rw [bne_iff_ne]
  rintro rfl
  exact h hc

theorem firstLine_append_of_mem (h : '\n' ∈ m) (b : Text) : (m ++ b).firstLine = m.firstLine := by
  rcases firstLine_append m with hm | ⟨m', hm⟩
  · exact absurd (hm ▸ h) (newline_not_mem_firstLine m)
  · have hb : m ++ b = m.firstLine ++ '\n' :: (m' ++ b) := by
      conv_lhs => rw [hm]
      simp
    rw [hb, firstLine_append_of_not_mem (newline_not_mem_firstLine m)]
    simp [firstLine]

end Text

open Text

namespace LineMap

variable {a m b : Text}

theorem lineText_append (a b : Text) :
    (ofText (a ++ b)).lineText (1 + a.count '\n') = (a.lastLine ++ b.firstLine).trimEnd '\r' := by
  rw [lineText, lineText?_append, Option.getD_some]

/-- A line in which a word without line ends is put keeps what is before it, and what is after it
less the carriage returns at the end. -/
theorem lineText?_insert {x : Text} (hne : x ≠ []) (hnewline : '\n' ∉ x) (hreturn : '\r' ∉ x)
    (a b : Text) : (ofText (a ++ x ++ b)).lineText? (1 + a.count '\n') =
      some (a.lastLine ++ x ++ b.firstLine.trimEnd '\r') := by
  have hkept : (a.lastLine ++ x).trimEnd '\r' = a.lastLine ++ x := by
    obtain ⟨c, hc⟩ := Option.isSome_iff_exists.1 (List.getLast?_isSome.2 hne)
    refine trimEnd_append_of_getLast? hc ?_ a.lastLine
    rintro rfl
    exact hreturn (List.mem_of_getLast? hc)
  rw [List.append_assoc, lineText?_append, firstLine_append_of_not_mem hnewline,
    ← List.append_assoc, trimEnd_append hkept]

/-- Every start of a line is a cut after as many newlines as there are lines before. -/
theorem exists_cut_of_start {t : Text} {i start : Nat} (h : (ofText t).starts[i]? = some start) :
    ∃ a b, t = a ++ b ∧ a.size = start ∧ a.count '\n' = i ∧ a.lastLine = [] := by
  obtain ⟨piece, hpiece⟩ : ∃ piece, (t.splitOn '\n')[i]? = some piece := by
    have hlt := (List.getElem?_eq_some_iff.1 h).1
    have hlength : (t.splitOn '\n').length = (ofText t).starts.length :=
      length_splitOn_eq_lineCount t
    exact ⟨_, List.getElem?_eq_getElem (hlength ▸ hlt)⟩
  obtain ⟨a, b, rfl, rfl, hlast, -⟩ := exists_cut_of_piece hpiece
  refine ⟨a, b, rfl, ?_, rfl, hlast⟩
  -- the start is the last one up to the cut
  obtain ⟨l, hl, hreached, -⟩ := exists_line_start a b
  obtain ⟨rest, hrest⟩ := List.takeWhile_prefix (l := (ofText (a ++ b)).starts) (· ≤ a.size)
  have hlength : ((ofText (a ++ b)).starts.takeWhile (· ≤ a.size)).length = a.count '\n' + 1 := by
    rw [takeWhile_starts, List.length_cons, length_newlineEnds]
  rw [List.getLast?_eq_getElem?, hlength, Nat.add_sub_cancel] at hreached
  rw [← hrest, List.getElem?_append_left (by omega), hreached] at h
  rw [hlast, List.append_nil] at hl
  rw [hl, Option.some.inj h]

end LineMap

open LineMap

/-! ## Spans within a line -/

/-- The span starts and stops where two characters meet, and it lies within the text of a line: it
has none of the newlines around that text and none of the carriage returns after it. -/
structure Span.OnLine (span : Span) (t : Text) (line : Nat) : Prop where
  fits : span.FitsIn t
  within : ∃ i start, line = i + 1 ∧ (ofText t).starts[i]? = some start ∧ start ≤ span.start ∧
    span.stop ≤ start + ((ofText t).lineText line).size

theorem prefix_of_size_le {u v w z : Text} (h : u ++ v = w ++ z) (hle : u.size ≤ w.size) :
    u <+: w := by
  rcases List.append_eq_append_iff.1 h with ⟨c, rfl, -⟩ | ⟨c, rfl, -⟩
  · exact List.prefix_append u c
  · cases c with
    | nil => simp
    | cons d c =>
      have := d.utf8Size_pos
      simp only [size_append, size_cons] at hle
      omega

theorem Span.FitsIn.exists_append {span : Span} {t : Text} (h : span.FitsIn t) :
    ∃ a m b, t = a ++ m ++ b ∧ span = ⟨a.size, a.size + m.size⟩ := by
  obtain ⟨⟨a, rest⟩, hstart⟩ := Option.isSome_iff_exists.1 h.start
  obtain ⟨⟨front, b⟩, hstop⟩ := Option.isSome_iff_exists.1 h.stop
  obtain ⟨rfl, hasize⟩ := cut?_eq_some_iff.1 hstart
  obtain ⟨hfront, hfsize⟩ := cut?_eq_some_iff.1 hstop
  obtain ⟨m, rfl⟩ : a <+: front := prefix_of_size_le hfront.symm (hasize ▸ hfsize ▸ h.le)
  rw [size_append, hasize] at hfsize
  exact ⟨a, m, b, hfront.symm, by rw [hasize, hfsize]⟩

/-- The parts of a text around a span within a line. -/
theorem Span.OnLine.exists_append {span : Span} {t : Text} {line : Nat} (h : span.OnLine t line) :
    ∃ a m b, t = a ++ m ++ b ∧ span = ⟨a.size, a.size + m.size⟩ ∧ line = 1 + a.count '\n' ∧
      '\n' ∉ m ∧ a.lastLine ++ m <+: (a.lastLine ++ (m ++ b).firstLine).trimEnd '\r' := by
  obtain ⟨a, m, b, rfl, rfl⟩ := h.fits.exists_append
  obtain ⟨i, start, rfl, hstart, hle, hstop⟩ := h.within
  obtain ⟨front, rest, hsplit, rfl, rfl, hlast⟩ := exists_cut_of_start hstart
  have hline : (ofText (a ++ m ++ b)).lineText (front.count '\n' + 1) =
      rest.firstLine.trimEnd '\r' := by
    rw [hsplit, Nat.add_comm, lineText_append, hlast, List.nil_append]
  rw [hline] at hstop
  obtain ⟨back, hback⟩ : rest.firstLine.trimEnd '\r' <+: rest :=
    (trimEnd_prefix_self '\r' _).trans (List.takeWhile_prefix _)
  -- the front of the line is part of what is before the span
  obtain ⟨u, rfl⟩ : front <+: a := by
    refine prefix_of_size_le (v := rest) (z := m ++ b) ?_ hle
    rw [← hsplit, List.append_assoc]
  have hrest : u ++ m ++ b = rest.firstLine.trimEnd '\r' ++ back := by
    simpa [hback] using hsplit
  have hstarts : u ++ m <+: rest.firstLine.trimEnd '\r' := by
    refine prefix_of_size_le hrest ?_
    simp only [size_append] at hstop ⊢
    omega
  have hnewline : '\n' ∉ u ++ m := fun hmem => newline_not_mem_firstLine rest
    ((hstarts.trans (trimEnd_prefix_self '\r' _)).subset hmem)
  have hu : '\n' ∉ u := fun hmem => hnewline (List.mem_append_left m hmem)
  have hrest' : rest = u ++ (m ++ b) := by rw [← hback, ← hrest, List.append_assoc]
  refine ⟨front ++ u, m, b, rfl, rfl, ?_, fun hmem => hnewline (List.mem_append_right u hmem), ?_⟩
  · have hcount := List.count_eq_zero_of_not_mem hu
    rw [List.count_append]
    omega
  · rwa [lastLine_append_of_not_mem front hu, hlast, List.nil_append,
      ← firstLine_append_of_not_mem hu, ← hrest']

/-! ## What is shown -/

namespace Snippet

variable {a m b : Text} {s : Suggestion}

theorem position?_of_span (hspan : s.span = ⟨a.size, a.size + m.size⟩)
    (hwords : s.span.stop + 1 < words) :
    (ofText (a ++ m ++ b)).position? s.span.start =
      some ⟨1 + a.count '\n', 1 + a.lastLine.length⟩ := by
  rw [hspan] at hwords ⊢
  rw [List.append_assoc]
  exact position?_append (by dsimp only at hwords; omega) (m ++ b)

/-- The line that a suggestion is on, if all before the span is left of it when it is trimmed: what
is before the span stays, and after it all but as many bytes as the span has. -/
theorem replaced?_of_cut? (hspan : s.span = ⟨a.size, a.size + m.size⟩)
    (hwords : s.span.stop + 1 < words) {rest inside after : Text}
    (hline : (ofText (a ++ m ++ b)).lineText (1 + a.count '\n') = a.lastLine ++ rest)
    (hcut : (a.lastLine ++ rest).cut? (min (a.lastLine ++ m).size (a.lastLine ++ rest).size) =
      some (inside, after)) : replaced? (.ofText (a ++ m ++ b)) s =
      some (⟨1 + a.count '\n', 1 + a.lastLine.length⟩, a.lastLine, after) := by
  have hlength : s.span.length = m.size := by simp [hspan, Span.length]
  have hsize : a.lastLine.size + m.size < words := by
    have hle := size_lastLine_le a
    rw [hspan] at hwords
    dsimp only at hwords
    omega
  have hnext : (a.lastLine ++ rest).nextCut? (min (a.lastLine ++ m).size
      (a.lastLine ++ rest).size) = some (min (a.lastLine ++ m).size (a.lastLine ++ rest).size) :=
    nextCut?_of_isSome (by rw [hcut, Option.isSome_some])
  refine replaced?_eq_some_iff.2 ⟨position?_of_span hspan hwords, ?_⟩
  rw [hline, hlength]
  refine around?_eq_some_iff.2 ⟨?_, hsize, _, inside, size_append a.lastLine m ▸ hnext, hcut⟩
  rw [Nat.add_sub_cancel_left, List.take_left]

/-- A span within a line leaves what is before it and after it. -/
theorem replaced?_of_prefix (hspan : s.span = ⟨a.size, a.size + m.size⟩)
    (hwords : s.span.stop + 1 < words) (hm : '\n' ∉ m)
    (h : a.lastLine ++ m <+: (a.lastLine ++ (m ++ b).firstLine).trimEnd '\r') :
    replaced? (.ofText (a ++ m ++ b)) s =
      some (⟨1 + a.count '\n', 1 + a.lastLine.length⟩, a.lastLine, b.firstLine.trimEnd '\r') := by
  rw [firstLine_append_of_not_mem hm, ← List.append_assoc] at h
  have hline : (ofText (a ++ m ++ b)).lineText (1 + a.count '\n') =
      a.lastLine ++ (m ++ b.firstLine.trimEnd '\r') := by
    rw [List.append_assoc, lineText_append, firstLine_append_of_not_mem hm, ← List.append_assoc,
      trimEnd_append_of_prefix h, List.append_assoc]
  refine replaced?_of_cut? hspan hwords hline (cut?_eq_some_iff.2 ⟨List.append_assoc _ m _, ?_⟩)
  rw [← List.append_assoc, size_append (a.lastLine ++ m), Nat.min_eq_left (Nat.le_add_right _ _)]

/-- Of a span that goes on to another line and does not start with the end of its first line, what
is before it is left and nothing else. -/
theorem replaced?_of_newline (hspan : s.span = ⟨a.size, a.size + m.size⟩)
    (hwords : s.span.stop + 1 < words) (hm : '\n' ∈ m) {c : Char} (hc : m.head? = some c)
    (hnewline : c ≠ '\n') (hreturn : c ≠ '\r') :
    replaced? (.ofText (a ++ m ++ b)) s =
      some (⟨1 + a.count '\n', 1 + a.lastLine.length⟩, a.lastLine, []) := by
  obtain ⟨m', rfl⟩ := List.head?_eq_some_iff.1 hc
  have hkept : ¬ (c = '\r' ∧ ∀ d ∈ firstLine m', d = '\r') := fun h => hreturn h.1
  have hline : (ofText (a ++ (c :: m') ++ b)).lineText (1 + a.count '\n') =
      a.lastLine ++ c :: (firstLine m').trimEnd '\r' := by
    rw [List.append_assoc, lineText_append, firstLine_append_of_mem hm,
      firstLine_cons_of_ne hnewline, trimEnd_append_cons hkept]
  have hsize : ((firstLine m').trimEnd '\r').size ≤ size m' :=
    size_mono ((trimEnd_prefix_self '\r' _).trans (List.takeWhile_prefix _))
  refine replaced?_of_cut? hspan hwords hline (cut?_eq_some_iff.2 ⟨List.append_nil _, ?_⟩)
  rw [Nat.min_eq_right (by simp; omega)]

/-- A span that starts and ends with characters of a word leaves what is before it, and what is
after it if it is on one line. -/
theorem replaced?_of_ends (hspan : s.span = ⟨a.size, a.size + m.size⟩)
    (hwords : s.span.stop + 1 < words) {c d : Char} (hc : m.head? = some c)
    (hcblank : Segment.isBlank c = false) (hd : m.getLast? = some d)
    (hdblank : Segment.isBlank d = false) :
    replaced? (.ofText (a ++ m ++ b)) s = some (⟨1 + a.count '\n', 1 + a.lastLine.length⟩,
      a.lastLine, if '\n' ∈ m then [] else b.firstLine.trimEnd '\r') := by
  split
  case isTrue hm =>
    refine replaced?_of_newline hspan hwords hm hc ?_ ?_ <;> rintro rfl <;> cases hcblank
  case isFalse hm =>
    have hkept : (a.lastLine ++ m).trimEnd '\r' = a.lastLine ++ m := by
      refine trimEnd_append_of_getLast? hd ?_ a.lastLine
      rintro rfl
      cases hdblank
    refine replaced?_of_prefix hspan hwords hm ?_
    rw [firstLine_append_of_not_mem hm, ← List.append_assoc, trimEnd_append hkept]
    exact List.prefix_append _ _

/-- The rows of a suggestion. The tildes stand below the replacement. -/
theorem render_suggestionRows? {map : LineMap} {line gutter : Nat} {before after : Text}
    {rows : List Row} (hrows : suggestionRows? map gutter s = some rows)
    (h : replaced? map s = some (⟨line, 1 + before.length⟩, before, after)) :
    rows.flatMap (Row.render false) =
      Row.render false (margin gutter) ++
        numberedText gutter line (before ++ s.replacement.toList ++ after) ++
        marginText gutter (List.replicate before.length ' ' ++
          List.replicate s.replacement.length '~') := by
  have hfixed : Row.render false (numbered gutter line ++ [.plain (" " ++ String.ofList before),
      .colored .green s.replacement, .plain (String.ofList after)]) =
      numberedText gutter line (before ++ s.replacement.toList ++ after) :=
    render_numbered (by simp)
  have htildes : Row.render false (margin gutter ++ [.plain (" " ++ spaces before.length),
      .colored .green (String.ofList (List.replicate s.replacement.length '~'))]) =
      marginText gutter (List.replicate before.length ' ' ++
        List.replicate s.replacement.length '~') :=
    render_margin (by simp)
  rw [suggestionRows?, h, Option.bind_eq_bind, Option.bind_some] at hrows
  obtain rfl := Option.some.inj hrows
  simp only [Nat.add_sub_cancel_left, List.flatMap_cons, List.flatMap_nil, List.append_nil, hfixed,
    htildes, List.append_assoc]

/-- The rows of a suggestion are the last ones. -/
theorem exists_render?_eq {d : Diagnostic} (hd : d.suggestion? = some s) {map : LineMap}
    {file : String} {out : Text} (h : d.render? false map file = some out) :
    ∃ front fix, suggestionRows? map (gutter map d) s = some fix ∧
      out = front ++ fix.flatMap (Row.render false) := by
  obtain ⟨help, hhelp, hs⟩ := Option.bind_eq_some_iff.1 hd
  simp only [Diagnostic.render?, Option.bind_eq_bind, Option.bind_eq_some_iff] at h
  obtain ⟨rows, hrows, hout⟩ := h
  obtain rfl := Option.some.inj hout
  obtain ⟨front, footer, hfooter, rfl⟩ := exists_rows?_eq_append_footer hrows
  obtain ⟨fix, hfix⟩ : ∃ fix, suggestionRows? map (gutter map d) s = some fix := by
    refine Option.isSome_iff_exists.1 (isSome_suggestionRows?_iff.2 ?_)
    exact isSome_footer?_iff.1 (Option.isSome_of_eq_some hfooter) s hd
  refine ⟨(front ++ d.notes.map (footnote (gutter map d) "note") ++
    [footnote (gutter map d) "help" help.message]).flatMap (Row.render false), fix, hfix, ?_⟩
  simp only [footer?, helpRows?, hhelp, hs, Option.mapM_some, hfix, Option.map_eq_map,
    Option.map_some, Option.bind_eq_bind, Option.bind_some, Option.pure_def,
    Option.some.injEq, Option.getD_some] at hfooter
  simp [← hfooter]

end Snippet

open Snippet

/-- The fixed line of a diagnostic in a report. -/
def Report.Entry.resultLine? (e : Report.Entry) : Option String := e.fix.map (·.resultLine)

theorem Report.resultLine?_of_ofDiagnostic? {d : Diagnostic} {s : Suggestion} {map : LineMap}
    {e : Entry} {position : Position} {before after : Text}
    (he : Entry.ofDiagnostic? map d = some e) (hd : d.suggestion? = some s)
    (h : replaced? map s = some (position, before, after)) :
    e.resultLine? = some (String.ofList (before ++ s.replacement.toList ++ after)) := by
  have hfix := (Entry.parts_of_ofDiagnostic? he).2.2
  rw [show d.help.bind (·.suggestion) = some s from hd, option_mapM_eq_some_iff, Option.map_some,
    Fix.ofSuggestion?, h] at hfix
  obtain ⟨fix, hentry, hfix⟩ := Option.map_eq_some_iff.1 hfix.symm
  obtain rfl := Option.some.inj hfix
  rw [Entry.resultLine?, hentry, Option.map_some]

/-- A suggestion within the text of a line shows the line of the edited text, in a report and with
colours off. In the row below it, as many tildes as the replacement has characters start in the
column where the replacement does. All of it is shown if the labels can be marked. -/
theorem suggestion_shows_edited_line {t : Text} {s : Suggestion} {line : Nat}
    (hspan : s.span.OnLine t line) (hwords : s.span.stop + 1 < words) (hne : s.replacement ≠ "")
    (hnewline : '\n' ∉ s.replacement.toList) (hreturn : '\r' ∉ s.replacement.toList) :
    ∃ t' text column, s.edit? t = some t' ∧ (ofText t').lineText? line = some text ∧
      (ofText t').position? s.span.start = some ⟨line, column⟩ ∧
      (text.drop (column - 1)).take s.replacement.length = s.replacement.toList ∧
      ∀ d : Diagnostic, d.suggestion? = some s →
        (∀ file phase ds type report (i : Nat),
          Report.ofDiagnostics? (.ofText t) file phase ds type = some report → ds[i]? = some d →
            report.diagnostics[i]?.bind Report.Entry.resultLine? = some (String.ofList text)) ∧
        (∀ file out, d.render? false (.ofText t) file = some out → ∃ front, out = front ++
          numberedText (gutter (.ofText t) d) line text ++
          marginText (gutter (.ofText t) d) (List.replicate (column - 1) ' ' ++
            List.replicate s.replacement.length '~')) ∧
        ((∀ l ∈ d.labels, (Mark.ofLabel? (.ofText t) l).isSome) →
          (∀ file phase type, (Report.ofDiagnostics? (.ofText t) file phase [d] type).isSome) ∧
            ∀ file, (d.render? false (.ofText t) file).isSome) := by
  obtain ⟨a, m, b, rfl, hsize, rfl, hm, hstarts⟩ := hspan.exists_append
  have hedit := Suggestion.edit?_append a m b s.replacement
  rw [← hsize] at hedit
  have hreplaced := replaced?_of_prefix hsize hwords hm hstarts
  have hne' : s.replacement.toList ≠ [] := by simpa using hne
  have hposition : (ofText (a ++ s.replacement.toList ++ b)).position? s.span.start =
      some ⟨1 + a.count '\n', 1 + a.lastLine.length⟩ := by
    rw [hsize] at hwords ⊢
    rw [List.append_assoc]
    exact position?_append (by dsimp only at hwords; omega) _
  refine ⟨_, _, _, hedit, lineText?_insert hne' hnewline hreturn a b, hposition, ?_,
    fun d hd => ⟨fun file phase ds type report i hreport hi => ?_, fun file out hout => ?_,
      fun hmarks => ?_⟩⟩
  · rw [Nat.add_sub_cancel_left, List.append_assoc, List.drop_left, ← String.length_toList,
      List.take_left]
  · have hentries := Report.mapM_of_ofDiagnostics? hreport
    obtain ⟨e, -, he⟩ := exists_mem_of_mapM hentries (List.mem_of_getElem? hi)
    rw [getElem?_of_mapM hentries, hi, Option.bind_some, he, Option.bind_some]
    exact Report.resultLine?_of_ofDiagnostic? he hd hreplaced
  · obtain ⟨front, fix, hfix, rfl⟩ := exists_render?_eq hd hout
    rw [render_suggestionRows? hfix hreplaced, Nat.add_sub_cancel_left]
    simp only [← List.append_assoc]
    exact ⟨_, rfl⟩
  · have hfix : ∀ s', d.suggestion? = some s' → (replaced? (.ofText (a ++ m ++ b)) s').isSome := by
      intro s' hs'
      obtain rfl := Option.some.inj (hd.symm.trans hs')
      rw [hreplaced, Option.isSome_some]
    have hrows (file : String) : (rows? (.ofText (a ++ m ++ b)) file d).isSome :=
      Diagnostic.isSome_rows?_iff.2 ⟨hmarks, hfix⟩
    refine ⟨fun file phase type => ?_, fun file => Diagnostic.isSome_render?_iff.2 (hrows file)⟩
    rw [Report.isSome_ofDiagnostics?_iff, List.forall_mem_singleton]
    exact Diagnostic.isSome_ofDiagnostic?_of_rows? (hrows "")

/-- A line that ends in a carriage return, with characters of two bytes before the span and in
it. -/
theorem suggestion_shows_edited_line_accent :
    let t : Text := "x\n/* é */ tótl + 1\r\n".toList
    let s : Suggestion := ⟨⟨11, 16⟩, "totàl"⟩
    let d := (((Diagnostic.error "").withPrimary s.span "").withHelp "").withSuggestion s.span
      "totàl"
    s.span.OnLine t 2 ∧ s.edit? t = some "x\n/* é */ totàl + 1\r\n".toList ∧
      (∃ report, Report.ofDiagnostics? (.ofText t) "" "" [d] none = some report ∧
        report.diagnostics[0]?.bind Report.Entry.resultLine? = some "/* é */ totàl + 1") ∧
      ∃ front, d.render? false (.ofText t) "" =
        some (front ++ "  2 | /* é */ totàl + 1\n    |         ~~~~~\n".toList) := by
  intro t s d
  have hspan : s.span.OnLine t 2 :=
    ⟨⟨by decide, by decide +kernel, by decide +kernel, by decide +kernel⟩,
      1, 2, rfl, by decide +kernel, by decide, by decide +kernel⟩
  have hedit : s.edit? t = some "x\n/* é */ totàl + 1\r\n".toList := by decide +kernel
  obtain ⟨t', text, column, hedit', hline, hposition, -, hshown⟩ :=
    suggestion_shows_edited_line hspan (by decide +kernel) (by decide) (by decide) (by decide)
  obtain rfl := Option.some.inj (hedit.symm.trans hedit')
  have hline' : (ofText "x\n/* é */ totàl + 1\r\n".toList).lineText? 2 =
      some "/* é */ totàl + 1".toList := by decide +kernel
  have hposition' : (ofText "x\n/* é */ totàl + 1\r\n".toList).position? s.span.start =
      some ⟨2, 9⟩ := by decide +kernel
  obtain rfl := Option.some.inj (hline'.symm.trans hline)
  obtain rfl : 9 = column :=
    congrArg Position.column (Option.some.inj (hposition'.symm.trans hposition))
  obtain ⟨hreport, hrender, hsome⟩ := hshown d rfl
  obtain ⟨hsomeReport, hsomeText⟩ := hsome (by decide +kernel)
  obtain ⟨report, hreport'⟩ := Option.isSome_iff_exists.1 (hsomeReport "" "" none)
  obtain ⟨out, hout⟩ := Option.isSome_iff_exists.1 (hsomeText "")
  obtain ⟨front, rfl⟩ := hrender "" out hout
  refine ⟨hspan, hedit, ⟨report, hreport', hreport "" "" [d] none report 0 hreport' rfl⟩, front,
    hout.trans (congrArg some ?_)⟩
  rw [List.append_assoc]
  exact congrArg (front ++ ·) (by decide +kernel)

/-! ## Suggestions of the checker -/

open Segment hiding size size_append

/-- No token has a blank in it. -/
theorem Lexeme.not_isBlank_of_token {s : Segment} {y : Text} {kind : Token.Kind} (h : Lexeme s y)
    (hkind : s.kind = .token kind) : ∀ c ∈ s.text, isBlank c = false := by
  cases h with
  | matched hwins hmade =>
    cases hmade with
    | blank | lineComment | blockComment | overRange => cases hkind
    | name =>
      intro c hc
      have hpart : isNamePart c = true :=
        forall_of_mem_mul_kstar (by simp +contextual [isNamePart]) hwins.matched c hc
      exact Rule.not_isBlank (by simpa [isNamePart] using hpart)
    | fixed =>
      have hspelled : (spellings.all fun p => p.2.all fun c => !isBlank c) = true := by decide
      simp only [List.all_eq_true, Bool.not_eq_true'] at hspelled
      exact hspelled _ hwins.matched
    | @number n _ _ hn =>
      intro c hc
      obtain ⟨x, z, hxz⟩ := List.append_of_mem (show c ∈ n.text from hc)
      have hmem : x ++ c :: z ∈ Numeral.numerals := hxz ▸ hwins.matched
      have hpart := (Numeral.cases_of_mem hmem).imp_right (·.imp_right (·.imp_right And.left))
      by_contra hblank
      simp only [isBlank, Bool.not_eq_false, Bool.or_eq_true, beq_iff_eq] at hblank
      rcases hblank with (((rfl | rfl) | rfl) | rfl) | rfl <;> revert hpart <;> decide
  | unexpected => cases hkind

/-- The text of a token. -/
theorem exists_text_of_mem_tokens {t : Text} {token : Token} (h : token ∈ tokens 0 (split t)) :
    ∃ a x b, t = a ++ x ++ b ∧ token.span = ⟨a.size, a.size + x.size⟩ ∧ x ≠ [] ∧
      ∀ c ∈ x, isBlank c = false := by
  obtain ⟨us, vs, htokens⟩ := List.append_of_mem h
  obtain ⟨before, s, after, hsplit, -, htoken⟩ := exists_of_tokens_eq htokens
  have hlexeme := ((isPartition_split t).lexeme before s after hsplit).2
  obtain ⟨kind, hkind⟩ := exists_kind_of_token? htoken
  obtain ⟨c, cs, hcons, -⟩ := hlexeme.exists_cons_of_token hkind
  refine ⟨before.flatMap (·.text), s.text, after.flatMap (·.text), ?_, ?_, by simp [hcons],
    hlexeme.not_isBlank_of_token hkind⟩
  · conv_lhs => rw [← (isPartition_split t).covers, hsplit]
    simp
  · simpa [Segment.size] using span_of_token? htoken

/-- The text of a node of a term starts and ends with characters of tokens. -/
theorem exists_text_of_within {t : Text} {T n : Term} (hT : Term.read t = .ok T)
    (hn : n.Within T) : ∃ a m b c d, t = a ++ m ++ b ∧ n.span = ⟨a.size, a.size + m.size⟩ ∧
      m.head? = some c ∧ isBlank c = false ∧ m.getLast? = some d ∧ isBlank d = false := by
  obtain ⟨ts, i, j, hts, hwritten⟩ := (part_of_read hT).within hn
  have horder := (inOrder_tokens 0 (split t)).mono hts
  have hspan := hwritten.span_eq horder
  obtain ⟨u, hu, hstart⟩ := Written.exists_start_eq hwritten.ne_nil
  obtain ⟨v, hv, hstop⟩ := Written.exists_stop_eq hwritten.ne_nil
  obtain ⟨a, m, b, rfl, hsize⟩ := (fitsIn_of_within hT hn).exists_append
  rw [hsize, Written.extent, Span.mk.injEq] at hspan
  obtain ⟨a', x, rest, hsplit, hx, hxne, hxblank⟩ := exists_text_of_mem_tokens (hts.subset hu)
  obtain ⟨front, z, b', hsplit', hz, hzne, hzblank⟩ := exists_text_of_mem_tokens (hts.subset hv)
  -- the first token starts where the node does and stops in it
  have hle : u.span.stop ≤ Written.stop ts := by
    obtain ⟨us, vs, hcons⟩ := List.append_of_mem hu
    rw [hcons, List.append_cons] at horder ⊢
    exact horder.le_stop (v := [u]) (by simp)
  simp only [hstart, hstop, hx, hz] at hspan hle
  rw [List.append_assoc, List.append_assoc] at hsplit
  obtain ⟨rfl, hrest⟩ := append_inj_of_size hsplit hspan.1
  obtain ⟨y, rfl⟩ : x <+: m := prefix_of_size_le hrest.symm (by omega)
  -- the last one stops where the node does
  obtain ⟨hfront, rfl⟩ := append_inj_of_size hsplit' (by
    simp only [size_append] at hspan ⊢
    omega)
  obtain ⟨c, x, rfl⟩ := List.exists_cons_of_ne_nil hxne
  obtain ⟨d, hd⟩ := Option.isSome_iff_exists.1 (List.getLast?_isSome.2 hzne)
  have hne : c :: x ++ y ≠ [] := List.cons_ne_nil c _
  refine ⟨a, c :: x ++ y, b, c, d, rfl, hsize, rfl, hxblank c (List.mem_cons_self ..), ?_,
    hzblank d (List.mem_of_getLast? hd)⟩
  have hlast := congrArg List.getLast? hfront
  rwa [List.getLast?_append_of_ne_nil _ hne, List.getLast?_append_of_ne_nil _ hzne, hd] at hlast

theorem not_mem_of_isName {x : String} (h : isName x = true) {c : Char} (hc : isBlank c = true) :
    c ∉ x.toList := by
  intro hmem
  simp only [isName, Bool.and_eq_true, List.all_eq_true] at h
  have hpart := h.1.2 c hmem
  simp only [isNamePart, Bool.or_eq_true] at hpart
  simp [Rule.not_isBlank hpart] at hc

theorem ne_nil_of_isName {x : String} (h : isName x = true) : x.toList ≠ [] := by
  intro hnil
  simp [isName, hnil] at h

theorem Verdict.ofText_eq_illTyped_iff {t : Text} {e : TypeError} :
    ofText t = .illTyped e ↔ ∃ T, Term.read t = .ok T ∧ (T.infer .empty).result = .error e := by
  unfold ofText
  grind

/-- What is suggested in the place of an unknown name is a name. -/
theorem TypeError.isName_of_suggestion {t : Text} {T : Term} {e : TypeError} {x : String}
    {inScope : List String} {s : Suggestion} (hT : Term.read t = .ok T)
    (herror : (T.infer .empty).result = .error e) (he : e.cause = .unknownVariable x inScope)
    (hs : e.diagnostic.suggestion? = some s) : isName s.replacement = true := by
  have hmem := (suggestion_of_unknown he hs).2
  obtain hempty | ⟨n, k, hn, hbinds⟩ := Term.exists_binds_of_unknown herror he hmem
  · simp [Env.names, Env.empty] at hempty
  · exact isName_of_binds hT hn hbinds

/-- The line that a report shows for an unknown name is the line of the edited text exactly if the
span is on one line, or else nothing but carriage returns follows it on its last line. -/
theorem checker_fix_is_edited_line_iff {t : Text} (ht : t.size + 1 < words) {e : TypeError}
    {x : String} {inScope : List String} {s : Suggestion}
    (hverdict : Verdict.ofText t = .illTyped e) (he : e.cause = .unknownVariable x inScope)
    (hs : e.diagnostic.suggestion? = some s) :
    ∃ a m b t' shown p, t = a ++ m ++ b ∧ s.span = ⟨a.size, a.size + m.size⟩ ∧
      s.edit? t = some t' ∧ (ofText t).position? s.span.start = some p ∧
      (∀ file phase type, ∃ report, Report.ofDiagnostics? (.ofText t) file phase
        (Verdict.ofText t).diagnostics type = some report ∧
          report.diagnostics.map Report.Entry.resultLine? = [some (String.ofList shown)]) ∧
      ((ofText t').lineText? p.line = some shown ↔ '\n' ∉ m ∨ ∀ c ∈ b.firstLine, c = '\r') := by
  obtain ⟨T, hT, herror⟩ := Verdict.ofText_eq_illTyped_iff.1 hverdict
  have hwithin := (Term.within_of_unknown herror he).1
  have hname := TypeError.isName_of_suggestion hT herror he hs
  have hpoints : e.diagnostic.PointsInto t := pointsInto_of_mem_diagnostics (by
    rw [hverdict]
    exact List.mem_singleton_self _)
  obtain ⟨a, m, b, c, d, rfl, hspan, hc, hcblank, hd, hdblank⟩ := exists_text_of_within hT hwithin
  have hs' : s.span = e.term.span :=
    congrArg Suggestion.span (TypeError.suggestion_of_unknown he hs).1
  rw [← hs'] at hspan
  have hwords : s.span.stop + 1 < words := by
    simp only [hspan, size_append] at ht ⊢
    omega
  have hreplaced := replaced?_of_ends (b := b) hspan hwords hc hcblank hd hdblank
  have hedit := Suggestion.edit?_append a m b s.replacement
  rw [← hspan] at hedit
  -- all places of the report are in the text
  have hentry : (Report.Entry.ofDiagnostic? (.ofText (a ++ m ++ b)) e.diagnostic).isSome := by
    refine Diagnostic.isSome_ofDiagnostic?_iff.2 ⟨fun l hl => ?_, fun s' hs' => ?_⟩
    · have hfits := hpoints.label l hl
      have := hfits.le
      have := hfits.le_size
      rw [isSome_position?_iff ht, isSome_position?_iff ht]
      omega
    · obtain rfl := Option.some.inj (hs.symm.trans hs')
      exact Option.isSome_of_eq_some hreplaced
  let after := if '\n' ∈ m then [] else b.firstLine.trimEnd '\r'
  refine ⟨a, m, b, _, a.lastLine ++ s.replacement.toList ++ after, _, rfl, hspan, hedit,
    position?_of_span hspan hwords, fun file phase type => ?_, ?_⟩
  · rw [hverdict, show (Verdict.illTyped e).diagnostics = [e.diagnostic] from rfl]
    obtain ⟨report, hreport⟩ : ∃ report, Report.ofDiagnostics? (.ofText (a ++ m ++ b)) file phase
        [e.diagnostic] type = some report := by
      rw [← Option.isSome_iff_exists, Report.isSome_ofDiagnostics?_iff, List.forall_mem_singleton]
      exact hentry
    have hentries := mapM_eq_some_iff.1 (Report.mapM_of_ofDiagnostics? hreport)
    obtain ⟨entry, hone, hentry⟩ := List.map_eq_singleton_iff.1 hentries.symm
    refine ⟨report, hreport, ?_⟩
    rw [hone, List.map_singleton, Report.resultLine?_of_ofDiagnostic? hentry.symm hs hreplaced]
  · rw [lineText?_insert (ne_nil_of_isName hname) (not_mem_of_isName hname rfl)
      (not_mem_of_isName hname rfl), Option.some.injEq, List.append_cancel_left_eq]
    by_cases hm : '\n' ∈ m
    · simp [after, hm, trimEnd_eq_nil_iff]
    · simp [after, hm]

/-- The span goes over two lines, and only a line end follows it. -/
theorem checker_fix_is_edited_line_iff_newline :
    let t : Text := "const sum = true; (\nsun)\r\n".toList
    ∃ e s t' report, t.size + 1 < words ∧ Verdict.ofText t = .illTyped e ∧
      e.cause = .unknownVariable "sun" ["sum"] ∧ e.diagnostic.suggestion? = some s ∧
      s.edit? t = some t' ∧ (ofText t').lineText? 1 = some "const sum = true; sum".toList ∧
      Report.ofDiagnostics? (.ofText t) "" "" (Verdict.ofText t).diagnostics none = some report ∧
      report.diagnostics.map Report.Entry.resultLine? = [some "const sum = true; sum"] := by
  intro t
  let sun : Term := .var ⟨1, ⟨18, 24⟩⟩ "sun"
  let e : TypeError := ⟨.unknownVariable "sun" ["sum"], sun⟩
  let s : Suggestion := ⟨⟨18, 24⟩, "sum"⟩
  have ht : t.size + 1 < words := by decide +kernel
  let T : Term := .const ⟨2, ⟨0, 24⟩⟩ "sum" (.bool ⟨0, ⟨12, 16⟩⟩ true) sun
  have hread : Term.read "const sum = true; (\nsun)\r\n".toList = .ok T := by
    with_unfolding_all rfl
  have herror : (T.infer .empty).result = .error e := by with_unfolding_all rfl
  have hverdict := Verdict.ofText_eq_illTyped_iff.2 ⟨T, hread, herror⟩
  have hs : e.diagnostic.suggestion? = some s := by decide +kernel
  obtain ⟨a, m, b, t', shown, p, hsplit, hspan, hedit, hp, hreport, hiff⟩ :=
    checker_fix_is_edited_line_iff ht hverdict rfl hs
  have hedit' : s.edit? t = some "const sum = true; sum\r\n".toList := by decide +kernel
  obtain rfl := Option.some.inj (hedit'.symm.trans hedit)
  have hline : (ofText "const sum = true; sum\r\n".toList).lineText? 1 =
      some "const sum = true; sum".toList := by decide +kernel
  have hposition : (ofText t).position? s.span.start = some ⟨1, 19⟩ := by decide +kernel
  obtain rfl := Option.some.inj (hposition.symm.trans hp)
  -- what follows the span is the end of the text
  have hb : b = "\r\n".toList := by
    have hcut : t.cut? 24 = some ("const sum = true; (\nsun)".toList, "\r\n".toList) := by
      decide +kernel
    refine (append_inj_of_size (hsplit.symm.trans (cut?_eq_some_iff.1 hcut).1.symm) ?_).2
    rw [size_append, (cut?_eq_some_iff.1 hcut).2]
    exact (congrArg Span.stop hspan).symm
  have hfirst : b.firstLine = ['\r'] := by rw [hb]; decide
  have hshown := hiff.2 (.inr (by simp [hfirst]))
  rw [hline] at hshown
  obtain rfl := Option.some.inj hshown
  obtain ⟨report, hreport, hlines⟩ := hreport "" "" none
  exact ⟨e, s, _, report, ht, hverdict, rfl, hs, hedit, hline, hreport, hlines⟩

/-- What follows the span on its last line is not in the line that is shown. -/
theorem checker_fix_misses_rest_of_line :
    let t : Text := "const sum = true; (\nsun) + sum".toList
    ∃ e s t' p, Verdict.ofText t = .illTyped e ∧ e.cause = .unknownVariable "sun" ["sum"] ∧
      e.diagnostic.suggestion? = some s ∧ s.edit? t = some t' ∧
      (ofText t).position? s.span.start = some p ∧
      (ofText t').lineText? p.line = some "const sum = true; sum + sum".toList ∧
      ((Report.ofDiagnostics? (.ofText t) "" "" (Verdict.ofText t).diagnostics none).map
        (·.diagnostics.map Report.Entry.resultLine?)) = some [some "const sum = true; sum"] := by
  intro t
  let sun : Term := .var ⟨1, ⟨18, 24⟩⟩ "sun"
  let e : TypeError := ⟨.unknownVariable "sun" ["sum"], sun⟩
  let T : Term := .const ⟨4, ⟨0, 30⟩⟩ "sum" (.bool ⟨0, ⟨12, 16⟩⟩ true)
    (.add ⟨3, ⟨18, 30⟩⟩ sun (.var ⟨2, ⟨27, 30⟩⟩ "sum"))
  have hread : Term.read "const sum = true; (\nsun) + sum".toList = .ok T := by
    with_unfolding_all rfl
  have herror : (T.infer .empty).result = .error e := by with_unfolding_all rfl
  have hverdict := Verdict.ofText_eq_illTyped_iff.2 ⟨T, hread, herror⟩
  refine ⟨e, ⟨⟨18, 24⟩, "sum"⟩, "const sum = true; sum + sum".toList, ⟨1, 19⟩, hverdict, rfl,
    by decide +kernel, by decide +kernel, by decide +kernel, by decide +kernel, ?_⟩
  rw [hverdict]
  decide +kernel

end ArrowLang
