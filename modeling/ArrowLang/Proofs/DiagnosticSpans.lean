import ArrowLang.Proofs.FirstError
import ArrowLang.Proofs.Grammar.Earliest
import ArrowLang.Proofs.LineLookup
import ArrowLang.Proofs.Snippet.Layout
import ArrowLang.Proofs.SourceText

/-!
# Diagnostics and the source

Every span of a diagnostic about a text is the span of segments that follow one another, or it is
empty at the end of the text. So it cuts the text, and the place that is shown for it is the line
and column where it starts. Nothing that shows a diagnostic cuts a text anywhere else, and all of
the diagnostic can be shown.
-/

namespace ArrowLang

open Segment Grammar Cursor Parse Offset

/-! ## Spans that fit a text -/

/-- The offsets are in order, they are in the text, and no character straddles them. -/
structure Span.FitsIn (s : Span) (t : Text) : Prop where
  le : s.start ≤ s.stop
  le_size : s.stop ≤ t.size
  start : (t.cut? s.start).isSome
  stop : (t.cut? s.stop).isSome

theorem Text.isSome_cut?_append (a b : Text) : ((a ++ b).cut? a.size).isSome := by
  rw [Text.cut?_eq_some_iff.2 ⟨rfl, rfl⟩]
  rfl

theorem Text.exists_append_of_cut? {t : Text} {n : Nat} (h : (t.cut? n).isSome) :
    ∃ a b, t = a ++ b ∧ a.size = n := by
  obtain ⟨⟨a, b⟩, hcut⟩ := Option.isSome_iff_exists.1 h
  obtain ⟨hab, hn⟩ := Text.cut?_eq_some_iff.1 hcut
  exact ⟨a, b, hab.symm, hn⟩

theorem Span.fitsIn_append (a m b : Text) :
    Span.FitsIn ⟨a.size, a.size + m.size⟩ (a ++ m ++ b) where
  le := Nat.le_add_right _ _
  le_size := by simp
  start := by
    rw [List.append_assoc]
    exact Text.isSome_cut?_append a (m ++ b)
  stop := by
    have h := Text.isSome_cut?_append (a ++ m) b
    rwa [Text.size_append] at h

theorem fitsIn_of_split {t : Text} {before inside after : List Segment}
    (h : split t = before ++ inside ++ after) :
    Span.FitsIn ⟨size before, size before + size inside⟩ t := by
  have hfits := Span.fitsIn_append (before.flatMap (·.text)) (inside.flatMap (·.text))
    (after.flatMap (·.text))
  rwa [← List.flatMap_append, ← List.flatMap_append, ← h, (isPartition_split t).covers] at hfits

theorem fitsIn_of_mem_located {t : Text} {p : Segment × Span} (h : p ∈ located 0 (split t)) :
    p.2.FitsIn t := by
  obtain ⟨ls, ms, hlocated⟩ := List.append_of_mem h
  obtain ⟨before, s, after, hsplit, -, rfl⟩ := exists_of_located_eq hlocated
  have hinside : split t = before ++ [s] ++ after := by rw [hsplit, List.append_assoc]; rfl
  simpa [size] using fitsIn_of_split hinside

/-! ## Errors of the lexer -/

theorem span_of_error? {p : Segment × Span} {e : LexError} (h : error? p = some e) :
    e.span = p.2 := by
  unfold error? at h
  split at h
  · cases h
    rfl
  · cases h
    rfl
  · cases h

theorem lex_errors_prefix_faults (t : Text) :
    (Token.lex t).errors <+: (located 0 (split t)).filterMap error? := by
  rw [← Token.faults_ofSegments, Token.lex_eq, Token.faults_upToErrors]
  exact List.take_prefix _ _

/-- The segments start one after the other. -/
theorem located_pairwise {t : Text} {segments : List Segment} (h : IsPartition segments t)
    (offset : Nat) :
    (located offset segments).Pairwise fun p q => p.2.start < q.2.start := by
  induction segments generalizing offset t with
  | nil => exact .nil
  | cons s ss ih =>
    obtain ⟨rest, -, hne, -, hrest⟩ := isPartition_cons.1 h
    refine List.pairwise_cons.2 ⟨fun q hq => ?_, ih hrest _⟩
    obtain ⟨ls, ms, hlocated⟩ := List.append_of_mem hq
    obtain ⟨before, s', after, -, -, rfl⟩ := exists_of_located_eq hlocated
    obtain ⟨c, cs, htext⟩ := List.exists_cons_of_ne_nil hne
    have hpos := c.utf8Size_pos
    simp only [htext, Text.size_cons]
    omega

theorem lex_errors_pairwise (t : Text) :
    (Token.lex t).errors.Pairwise fun e e' => e.span.start < e'.span.start := by
  refine List.Pairwise.sublist (lex_errors_prefix_faults t).sublist ?_
  refine (located_pairwise (isPartition_split t) 0).filterMap error? ?_
  intro p q hlt e he e' he'
  rw [span_of_error? he, span_of_error? he']
  exact hlt

theorem fitsIn_of_lex_error {t : Text} {e : LexError} (h : e ∈ (Token.lex t).errors) :
    e.span.FitsIn t := by
  obtain ⟨p, hp, he⟩ := List.mem_filterMap.1 ((lex_errors_prefix_faults t).subset h)
  rw [span_of_error? he]
  exact fitsIn_of_mem_located hp

/-! ## Errors of the parser -/

theorem fitsIn_of_parse_error {t : Text} {e : ParseError}
    (h : Term.parse ((located 0 (split t)).filterMap token? ++ [⟨.eof, ⟨t.size, t.size⟩⟩]) =
      .error e) : e.span.FitsIn t := by
  have heof := eof_not_mem_located 0 t
  rw [Term.parse, ofTokens_append_eof heof] at h
  let s : Cursor := ⟨tokens 0 (split t), ⟨t.size, t.size⟩, 0⟩
  have hreading : (program s).reading = ⟨.error e, (program s).rest⟩ :=
    congrArg (Reading.mk · (program s).rest) h
  obtain ⟨u, f, n, hstuck⟩ := program_stuck (s := s) heof hreading
  obtain ⟨a, rest, hrest, hspan, -, -⟩ := exists_at_cursor f
  rw [hstuck.span, hspan]
  -- the error is at a token or at the end
  have hmem : a ∈ tokens 0 (split t) ++ [⟨.eof, ⟨t.size, t.size⟩⟩] := by
    have hahead : tokens 0 (split t) = u ++ f.ahead := hstuck.passes.ahead
    have hend : f.eof = ⟨t.size, t.size⟩ := hstuck.passes.eof
    rw [hend] at hrest
    rw [hahead, List.append_assoc, hrest]
    simp
  rcases List.mem_append.1 hmem with ha | ha
  · obtain ⟨p, hp, hp'⟩ := List.mem_filterMap.1 ha
    rw [span_of_token? hp']
    exact fitsIn_of_mem_located hp
  · obtain rfl := List.mem_singleton.1 ha
    have hfits := Span.fitsIn_append t [] []
    simpa using hfits

/-! ## Errors of the checker -/

/-- The span of a term that a text is read as, or of a term below it. -/
theorem fitsIn_of_within {t : Text} {T n : Term} (h : Term.read t = .ok T) (hn : n.Within T) :
    n.span.FitsIn t := by
  obtain ⟨ts, i, j, hts, hwritten⟩ := (part_of_read h).within hn
  rw [hwritten.span_eq ((inOrder_tokens 0 (split t)).mono hts)]
  obtain ⟨before, inside, after, hsplit, -, hextent⟩ := exists_inside hts hwritten.ne_nil
  rw [hextent]
  exact fitsIn_of_split hsplit

theorem Term.Within.trans {n m t : Term} (h : n.Within m) (h' : m.Within t) : n.Within t := by
  induction h' with
  | refl => exact h
  | child hc _ ih => exact .child hc ih

theorem Located.within {env L : Env} {t s : Term} {path : List Nat} (h : Located env t path L s) :
    s.Within t := by
  induction h with
  | here => exact .refl
  | child hc _ _ ih => exact .child (List.mem_of_getElem? hc) ih

/-- An error is reported at the term that fails a test or at a child of it. -/
theorem Violation.within {L : Env} {s : Term} {k : Nat} {e : TypeError} (h : Violation L s k e) :
    e.term.Within s := by
  have hchild {c : Term} (hc : c ∈ s.children) : c.Within s := .child hc .refl
  cases h with
  | unknownVariable | branches | arity => exact .refl
  | leftOperand | rightOperand | condition | callee => exact hchild (by simp [Term.children])
  | argument _ _ ha => exact hchild (List.mem_cons_of_mem _ (List.mem_of_getElem? ha))

theorem Term.within_of_check {env : Env} {t : Term} {e : TypeError} (h : t.check env = .error e) :
    e.term.Within t := by
  obtain ⟨path, k, hfirst⟩ := exists_firstViolation h
  obtain ⟨L, s, hloc, hviolation⟩ := hfirst.violated
  exact hviolation.within.trans hloc.within

/-! ## Diagnostics -/

/-- The diagnostic has a primary label, and all its spans fit the text. -/
structure Diagnostic.PointsInto (d : Diagnostic) (t : Text) : Prop where
  primary : ∃ l ∈ d.labels, l.role = .primary ∧ d.primarySpan? = some l.span
  label : ∀ l ∈ d.labels, l.span.FitsIn t
  suggestion : ∀ s, d.help.bind (·.suggestion) = some s → s.span.FitsIn t

namespace Diagnostic

/-- No primary label and no help yet, and the labels fit the text. -/
structure Unmarked (d : Diagnostic) (t : Text) : Prop where
  label : ∀ l ∈ d.labels, l.role = .secondary ∧ l.span.FitsIn t
  help : d.help = none

variable {d : Diagnostic} {t : Text} {span : Span}

theorem unmarked_error (message code : String) (t : Text) :
    ((error message).withCode code).Unmarked t where
  label := by simp [withCode, error]
  help := rfl

theorem Unmarked.withSecondary (h : d.Unmarked t) (hspan : span.FitsIn t) (message : String) :
    (d.withSecondary span message).Unmarked t where
  label := by
    intro l hl
    rcases List.mem_append.1 hl with hl | hl
    · exact h.label l hl
    · obtain rfl := List.mem_singleton.1 hl
      exact ⟨rfl, hspan⟩
  help := h.help

theorem Unmarked.withPrimary (h : d.Unmarked t) (hspan : span.FitsIn t) (message : String) :
    (d.withPrimary span message).PointsInto t where
  primary := by
    refine ⟨⟨span, .primary, some message⟩, List.mem_append_right _ (.head _), rfl, ?_⟩
    have hnone : d.labels.find? (·.role == .primary) = none := by
      refine List.find?_eq_none.2 fun l hl => ?_
      rw [(h.label l hl).1]
      decide
    simp only [primarySpan?, Diagnostic.withPrimary, withLabel, List.find?_append, hnone]
    rfl
  label := by
    intro l hl
    rcases List.mem_append.1 hl with hl | hl
    · exact (h.label l hl).2
    · obtain rfl := List.mem_singleton.1 hl
      exact hspan
  suggestion := by
    intro s hs
    have hhelp : (d.withPrimary span message).help = none := h.help
    rw [hhelp] at hs
    cases hs

namespace PointsInto

theorem withNote (h : d.PointsInto t) (note : String) : (d.withNote note).PointsInto t :=
  ⟨h.primary, h.label, h.suggestion⟩

theorem withHelp (h : d.PointsInto t) (message : String) : (d.withHelp message).PointsInto t :=
  ⟨h.primary, h.label, by rintro s ⟨⟩⟩

theorem withHint (h : d.PointsInto t) (hint : Option String) : (d.withHint hint).PointsInto t := by
  cases hint with
  | none => exact h
  | some text => exact h.withHelp text

theorem withSpelling (h : d.PointsInto t) (hspan : span.FitsIn t) (name : String)
    (inScope : List String) : (TypeError.withSpelling span name inScope d).PointsInto t := by
  unfold TypeError.withSpelling
  split
  · refine ⟨h.primary, h.label, ?_⟩
    intro s hs
    obtain rfl := Option.some.inj hs
    exact hspan
  · split
    · exact h.withNote _
    · exact h

end PointsInto

end Diagnostic

open Diagnostic

theorem LexError.pointsInto {e : LexError} {t : Text} (h : e.span.FitsIn t) :
    e.diagnostic.PointsInto t := by
  unfold LexError.diagnostic
  exact ((unmarked_error _ _ t).withPrimary h _).withHint _

theorem ParseError.pointsInto {e : ParseError} {t : Text} (h : e.span.FitsIn t) :
    e.diagnostic.PointsInto t := by
  unfold ParseError.diagnostic
  exact ((unmarked_error _ _ t).withPrimary h _).withHint _

theorem TypeError.unmarked_withBranches {d : Diagnostic} {s : Term} {t : Text}
    (h : d.Unmarked t) (hs : ∀ n : Term, n.Within s → n.span.FitsIn t) (yes no : Ty) :
    (withBranches s yes no d).Unmarked t := by
  unfold withBranches
  split
  · next n c y e =>
    have hy : y.span.FitsIn t := hs y (.child (by simp [Term.children]) .refl)
    have he : e.span.FitsIn t := hs e (.child (by simp [Term.children]) .refl)
    exact (h.withSecondary hy _).withSecondary he _
  · exact h

theorem TypeError.pointsInto {e : TypeError} {t : Text}
    (h : ∀ n : Term, n.Within e.term → n.span.FitsIn t) : e.diagnostic.PointsInto t := by
  have hspan : e.span.FitsIn t := h e.term .refl
  obtain ⟨cause, term⟩ := e
  cases cause with
  | unknownVariable name inScope =>
    exact ((unmarked_error _ _ t).withPrimary hspan _).withSpelling hspan name inScope
  | booleanExpected | notAFunction => exact (unmarked_error _ _ t).withPrimary hspan _
  | numberExpected | arityMismatch | paramMismatch =>
    exact ((unmarked_error _ _ t).withPrimary hspan _).withNote _
  | branchMismatch yes no =>
    exact ((unmarked_withBranches (unmarked_error _ _ t) h yes no).withPrimary hspan _).withNote _

theorem lex_errors_of_read {t : Text} {first : LexError} {rest : List LexError}
    (h : Term.read t = .error (.lex first rest)) : (Token.lex t).errors = first :: rest := by
  unfold Term.read at h
  grind

theorem parse_error_of_read {t : Text} {e : ParseError} (h : Term.read t = .error (.parse e)) :
    Term.parse ((located 0 (split t)).filterMap token? ++ [⟨.eof, ⟨t.size, t.size⟩⟩]) =
      .error e := by
  have hread : (Token.lex t).errors = [] ∧ Term.parse (Token.lex t).tokens = .error e := by
    unfold Term.read at h
    grind
  have hlexed := lex_of_clean (clean_of_lex hread.1)
  rw [hlexed] at hread
  exact hread.2

/-- Every diagnostic about a text points into the text. -/
theorem pointsInto_of_mem_diagnostics {t : Text} {d : Diagnostic}
    (h : d ∈ (Verdict.ofText t).diagnostics) : d.PointsInto t := by
  unfold Verdict.ofText at h
  split at h
  next e hread =>
    cases e with
    | lex first rest =>
      obtain ⟨e, he, rfl⟩ := List.mem_map.1 h
      exact LexError.pointsInto (fitsIn_of_lex_error (lex_errors_of_read hread ▸ he))
    | parse e =>
      obtain rfl := List.mem_singleton.1 h
      exact ParseError.pointsInto (fitsIn_of_parse_error (parse_error_of_read hread))
  next T hread =>
    split at h
    next e herror =>
      obtain rfl := List.mem_singleton.1 h
      refine TypeError.pointsInto fun n hn => fitsIn_of_within hread ?_
      exact hn.trans (Term.within_of_check herror)
    next => cases h

theorem LexError.primarySpan?_diagnostic (e : LexError) :
    e.diagnostic.primarySpan? = some e.span := by
  unfold LexError.diagnostic
  cases e.hint? <;> rfl

/-- Errors of the lexer are reported from left to right. -/
theorem diagnostics_pairwise_of_lex {t : Text} (h : (Verdict.ofText t).phase = .lex) :
    ((Verdict.ofText t).diagnostics.filterMap (·.primarySpan?)).Pairwise (·.start < ·.start) := by
  obtain ⟨first, rest, hread⟩ : ∃ first rest, Term.read t = .error (.lex first rest) := by
    unfold Verdict.ofText at h
    cases hread : Term.read t with
    | error e =>
      cases e with
      | lex first rest => exact ⟨first, rest, rfl⟩
      | parse e =>
        rw [hread] at h
        cases h
    | ok T =>
      rw [hread] at h
      dsimp only at h
      split at h <;> cases h
  have hspans : (·.primarySpan?) ∘ LexError.diagnostic = some ∘ LexError.span :=
    funext LexError.primarySpan?_diagnostic
  have hpairwise := lex_errors_pairwise t
  rw [lex_errors_of_read hread] at hpairwise
  simp only [Verdict.ofText, hread, Verdict.diagnostics, ReadError.diagnostics]
  rw [List.filterMap_map, hspans, List.filterMap_eq_map, List.pairwise_map]
  exact hpairwise

/-! ## Showing a diagnostic -/

namespace LineMap

/-- The offset is on a line that starts at or before it, the text has a slice from there to the
offset, and it has the line. -/
structure Shows (m : LineMap) (offset : Nat) : Prop where
  before : ∃ start, (m.starts.takeWhile (· ≤ offset)).getLast? = some start ∧ start ≤ offset ∧
    (m.text.slice? start offset).isSome
  line : ∃ p, m.position? offset = some p ∧ 0 < p.column ∧ (m.lineText? p.line).isSome

theorem shows_of_cut? {t : Text} (ht : t.size + 2 < words) {offset : Nat}
    (h : (t.cut? offset).isSome) : (ofText t).Shows offset := by
  obtain ⟨a, b, rfl, rfl⟩ := Text.exists_append_of_cut? h
  obtain ⟨l, hl, hstart, hslice⟩ := exists_line_start a b
  refine ⟨⟨l.size, hstart, ?_, by rw [show (ofText (a ++ b)).text = a ++ b from rfl, hslice]; rfl⟩,
    ?_⟩
  · have hsize := congrArg Text.size hl
    rw [Text.size_append] at hsize
    omega
  · rw [Text.size_append] at ht
    have hposition := position?_append (a := a) (by omega) b
    exact ⟨_, hposition, (bounds_of_position? hposition).2.2,
      isSome_lineText?_of_position? hposition⟩

end LineMap

/-- What the replacement of a suggestion leaves of its line is cut from both ends of the line, and
the bytes that are left out end in the text. -/
def Suggestion.Splices (s : Suggestion) (m : LineMap) : Prop :=
  ∃ position before after, Snippet.replaced? m s = some (position, before, after) ∧
    before <+: m.lineText position.line ∧ after <:+ m.lineText position.line ∧
    before.size + s.span.length ≤ m.text.size

/-- What stays before a span is no more than the text before it. -/
theorem Suggestion.kept_le {s : Suggestion} {t : Text} (ht : t.size + 2 < words)
    (h : s.span.FitsIn t) : s.kept (.ofText t) ≤ s.span.start := by
  obtain ⟨a, b, rfl, ha⟩ := Text.exists_append_of_cut? h.start
  rw [Text.size_append] at ht
  have hposition := LineMap.position?_append (a := a) (by omega) b
  rw [ha] at hposition
  have hprefix :=
    (Text.trimEnd_prefix_self '\r' (a.lastLine ++ b.firstLine)).take a.lastLine.length
  rw [List.take_left] at hprefix
  have hsize := Nat.le_trans (Text.size_mono hprefix) (Text.size_lastLine_le a)
  simpa [kept, hposition, LineMap.lineText, LineMap.lineText?_append, ha] using hsize

theorem Suggestion.splices {s : Suggestion} {t : Text} (ht : t.size + 2 < words)
    (h : s.span.FitsIn t) : s.Splices (.ofText t) := by
  have hkept := s.kept_le ht h
  have hle := h.le
  have hsize := h.le_size
  have hsome : (Snippet.replaced? (.ofText t) s).isSome :=
    (Snippet.isSome_replaced?_iff ht).2 ⟨by omega, by rw [Span.length]; omega⟩
  obtain ⟨⟨position, before, after⟩, hreplaced⟩ := Option.isSome_iff_exists.1 hsome
  obtain ⟨hposition, haround⟩ := Snippet.replaced?_eq_some_iff.1 hreplaced
  obtain ⟨rfl, -, cut, inside, -, hcut⟩ := Snippet.around?_eq_some_iff.1 haround
  refine ⟨position, _, after, hreplaced, List.take_prefix _ _, ?_, ?_⟩
  · exact ⟨inside, (Text.cut?_eq_some_iff.1 hcut).1⟩
  · simp only [kept, hposition, Option.map_some, Option.getD_some] at hkept
    rw [Span.length, show (LineMap.ofText t).text = t from rfl]
    omega

/-- Everything that is cut from the text or computed to show a diagnostic is there. -/
structure Diagnostic.ShownSafely (d : Diagnostic) (m : LineMap) : Prop where
  /-- A line stops one before the next one starts. -/
  next : ∀ start ∈ m.starts.tail, 0 < start
  label : ∀ l ∈ d.labels, m.Shows l.span.start ∧ m.Shows l.span.stop
  marks : ∃ marks, d.labels.mapM (Mark.ofLabel? m) = some marks ∧
    (∀ k ∈ marks, 0 < k.start ∧ k.start < k.stop) ∧
    ∀ n ∈ Snippet.lines m marks, (m.lineText? n).isSome
  suggestion : ∀ s, d.help.bind (·.suggestion) = some s → m.Shows s.span.start ∧ s.Splices m
  rows : ∀ file, (Snippet.rows? m file d).isSome
  entry : (Report.Entry.ofDiagnostic? m d).isSome

theorem Diagnostic.PointsInto.fits {d : Diagnostic} {t : Text} (ht : t.size + 2 < words)
    (h : d.PointsInto t) : d.Fits t := by
  refine ⟨fun l hl => ?_, fun s hs => ?_⟩
  · have hfits := h.label l hl
    have := hfits.le
    have := hfits.le_size
    omega
  · have hfits := h.suggestion s hs
    have := hfits.le
    have := hfits.le_size
    have := s.kept_le ht hfits
    rw [Span.length]
    omega

theorem Diagnostic.PointsInto.shownSafely {d : Diagnostic} {t : Text} (ht : t.size + 2 < words)
    (h : d.PointsInto t) : d.ShownSafely (.ofText t) where
  next := by
    intro start hstart
    have := LineMap.lt_of_mem_newlineEnds hstart
    omega
  label := by
    intro l hl
    have hfits := h.label l hl
    exact ⟨LineMap.shows_of_cut? ht hfits.start, LineMap.shows_of_cut? ht hfits.stop⟩
  marks := by
    obtain ⟨marks, hmarks⟩ := Option.isSome_iff_exists.1 <|
      isSome_mapM_iff.2 fun l hl => (Mark.isSome_ofLabel?_iff ht).2 ((h.fits ht).label l hl)
    refine ⟨marks, hmarks, Mark.bounds_of_mapM hmarks, fun n hn => ?_⟩
    obtain ⟨k, hk, hline⟩ := List.any_eq_true.1 (List.mem_filter.1 hn).2
    obtain ⟨l, -, hl⟩ := (mem_iff_of_mapM hmarks).1 hk
    obtain ⟨first, last, stop, hfirst, -, -, -, rfl⟩ := Mark.ofLabel?_eq_some_iff.1 hl
    rw [← beq_iff_eq.1 hline]
    exact LineMap.isSome_lineText?_of_position? hfirst
  suggestion := by
    intro s hs
    have hfits := h.suggestion s hs
    exact ⟨LineMap.shows_of_cut? ht hfits.start, s.splices ht hfits⟩
  rows := (h.fits ht).isSome_rows? ht
  entry := isSome_ofDiagnostic?_of_rows? ((h.fits ht).isSome_rows? ht "")

/-- Every diagnostic about a text has a primary label, all its spans fit the text, and it is shown
safely. A report and the header for people both give the line and the column where its primary span
starts, and a report gives that line. The errors of the lexer come in the order of the text. -/
theorem diagnostics_point_into_source (t : Text) :
    (∀ d ∈ (Verdict.ofText t).diagnostics, d.PointsInto t ∧ (t.size + 2 < words →
      d.ShownSafely (.ofText t) ∧
      ∃ span a b, d.primarySpan? = some span ∧ t = a ++ b ∧ a.size = span.start ∧
        (∃ e, Report.Entry.ofDiagnostic? (.ofText t) d = some e ∧
          e.location = some ⟨⟨1 + a.count '\n', 1 + a.lastLine.length, span.start⟩,
            String.ofList ((a.lastLine ++ b.firstLine).trimEnd '\r')⟩) ∧
        ∀ file, ∃ rows, Snippet.rows? (.ofText t) file d = some rows ∧
          rows[1]? = some [.plain "  ", .colored .blue "-->", .plain (" " ++ (file ++ ":" ++
            toString (1 + a.count '\n') ++ ":" ++ toString (1 + a.lastLine.length)))])) ∧
    ((Verdict.ofText t).phase = .lex →
      ((Verdict.ofText t).diagnostics.filterMap (·.primarySpan?)).Pairwise
        (·.start < ·.start)) := by
  refine ⟨?_, diagnostics_pairwise_of_lex⟩
  intro d hd
  have hpoints := pointsInto_of_mem_diagnostics hd
  refine ⟨hpoints, fun ht => ?_⟩
  have hsafe := hpoints.shownSafely ht
  obtain ⟨l, hl, -, hprimary⟩ := hpoints.primary
  obtain ⟨a, b, rfl, ha⟩ := Text.exists_append_of_cut? (hpoints.label l hl).start
  rw [Text.size_append] at ht
  have hposition := LineMap.position?_append (a := a) (by omega) b
  rw [ha] at hposition
  refine ⟨hsafe, l.span, a, b, hprimary, rfl, ha, ?_, fun file => ?_⟩
  · obtain ⟨e, he⟩ := Option.isSome_iff_exists.1 hsafe.entry
    refine ⟨e, he, ?_⟩
    have hlocation := (Report.Entry.parts_of_ofDiagnostic? he).1
    simpa [hprimary, Report.Location.ofSpan?, Report.Place.ofOffset?, hposition, eq_comm,
      LineMap.lineText, LineMap.lineText?_append] using hlocation
  · obtain ⟨rows, hrows⟩ := Option.isSome_iff_exists.1 (hsafe.rows file)
    obtain ⟨marks, hmarks, -⟩ := hsafe.marks
    refine ⟨rows, hrows, ?_⟩
    rw [Snippet.rows?_of_primarySpan? hprimary hmarks, hposition, Option.bind_some,
      Option.bind_eq_some_iff] at hrows
    obtain ⟨source, -, hrows⟩ := hrows
    obtain ⟨foot, -, rfl⟩ := Option.map_eq_some_iff.1 hrows
    simp [Snippet.head, Snippet.place]

/-- Two characters that no token starts with, the first of two bytes. -/
theorem diagnostics_point_into_source_lex :
    let t : Text := "é\n #".toList
    let d := LexError.diagnostic ⟨.unexpectedChar '#', ⟨4, 5⟩⟩
    d ∈ (Verdict.ofText t).diagnostics ∧ (Verdict.ofText t).phase = .lex ∧ t.size + 2 < words ∧
      d.PointsInto t ∧ d.ShownSafely (.ofText t) ∧
      (∃ e, Report.Entry.ofDiagnostic? (.ofText t) d = some e ∧
        e.location = some ⟨⟨2, 2, 4⟩, " #"⟩) ∧
      ((Verdict.ofText t).diagnostics.filterMap (·.primarySpan?)).Pairwise (·.start < ·.start) := by
  intro t d
  have hd : d ∈ (Verdict.ofText t).diagnostics := by decide +kernel
  have hphase : (Verdict.ofText t).phase = .lex := by decide +kernel
  have ht : t.size + 2 < words := by decide +kernel
  obtain ⟨hall, hordered⟩ := diagnostics_point_into_source t
  obtain ⟨hpoints, hshown⟩ := hall d hd
  obtain ⟨hsafe, -⟩ := hshown ht
  obtain ⟨e, he⟩ := Option.isSome_iff_exists.1 hsafe.entry
  refine ⟨hd, hphase, ht, hpoints, hsafe, ⟨e, he, ?_⟩, hordered hphase⟩
  have hlocation : (Report.Entry.ofDiagnostic? (.ofText t) d).bind (·.location) =
      some ⟨⟨2, 2, 4⟩, " #"⟩ := by decide +kernel
  rwa [he] at hlocation

end ArrowLang
