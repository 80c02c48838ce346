import ArrowLang.Diagnostic.Report
import ArrowLang.Proofs.Lines
import ArrowLang.Proofs.Sorting

/-!
# Offsets that stay words

Offsets, lines and columns are words. A diagnostic can be shown if all its parts can be computed:
the place of an offset (`LineMap.position?`), the mark of a label (`Mark.ofLabel?`), the slots of
its row (`Mark.slots?`) and the two ends of a line that a suggestion leaves (`Snippet.replaced?`).
Spans may be out of order, past the end or inside a character. Only those that end close to the last
word do harm, and `Diagnostic.Fits` says which.
-/

namespace ArrowLang

open Offset

/-! ## Lists of parts -/

section

variable {α β : Type} {f : α → Option β} {l : List α}

theorem mapM_eq_some_iff {ys : List β} : l.mapM f = some ys ↔ l.map f = ys.map some := by
  induction l generalizing ys with
  | nil => cases ys <;> simp
  | cons x l ih => cases ys <;> simp [Option.bind_eq_some_iff, ih]

theorem mem_iff_of_mapM {ys : List β} (h : l.mapM f = some ys) {y : β} :
    y ∈ ys ↔ ∃ x ∈ l, f x = some y := by
  have hmem := congrArg (some y ∈ ·) (mapM_eq_some_iff.1 h)
  simpa using hmem.symm

theorem exists_mem_of_mapM {ys : List β} (h : l.mapM f = some ys) {x : α} (hx : x ∈ l) :
    ∃ y ∈ ys, f x = some y := by
  have hmem : f x ∈ ys.map some := mapM_eq_some_iff.1 h ▸ List.mem_map_of_mem hx
  obtain ⟨y, hy, hxy⟩ := List.mem_map.1 hmem
  exact ⟨y, hy, hxy.symm⟩

theorem getElem?_of_mapM {ys : List β} (h : l.mapM f = some ys) (i : Nat) :
    ys[i]? = l[i]?.bind f := by
  have hget := congrArg (·[i]?) (mapM_eq_some_iff.1 h)
  simp only [List.getElem?_map] at hget
  cases hx : l[i]? <;> cases hy : ys[i]? <;> simp_all

theorem isSome_mapM_iff : (l.mapM f).isSome ↔ ∀ x ∈ l, (f x).isSome := by
  induction l with
  | nil => simp
  | cons x l ih => simp [Option.isSome_bind, ← ih, Option.any_eq_true_iff_get]

theorem option_mapM_eq_some_iff {o : Option α} {r : Option β} :
    o.mapM f = some r ↔ o.map f = r.map some := by
  cases o <;> cases r <;> simp

theorem isSome_option_mapM_iff {o : Option α} :
    (o.mapM f).isSome ↔ ∀ x, o = some x → (f x).isSome := by
  cases o <;> simp

end

/-! ## Cuts -/

namespace Text

variable {t : Text} {n : Nat}

theorem nextCut?_of_isSome (h : (t.cut? n).isSome) : t.nextCut? n = some n := by
  unfold nextCut?
  cases t.size - n <;> simp [nextCut?.search, h]

/-- The search for a cut ends where the text does, if not before. -/
theorem exists_nextCut? (ht : t.size < words) (hn : n ≤ t.size) :
    ∃ k, t.nextCut? n = some k ∧ (t.cut? k).isSome := by
  obtain ⟨left, hleft⟩ := Nat.exists_eq_add_of_le hn
  rw [nextCut?, hleft, Nat.add_sub_cancel_left]
  induction left generalizing n with
  | zero =>
    have hend : t.cut? n = some (t, []) := cut?_eq_some_iff.2 ⟨List.append_nil t, hleft⟩
    exact ⟨n, by simp [nextCut?.search, hend], by simp [hend]⟩
  | succ left ih =>
    by_cases hcut : (t.cut? n).isSome
    · exact ⟨n, by simp [nextCut?.search, hcut], hcut⟩
    · obtain ⟨k, hk, hkcut⟩ := ih (n := n + 1) (by omega) (by omega)
      have hnext : add? n 1 = some (n + 1) := add?_of_lt (by omega)
      exact ⟨k, by simp [nextCut?.search, hcut, hnext, hk], hkcut⟩

end Text

theorem LineMap.size_lineText_le (t : Text) (line : Nat) :
    ((ofText t).lineText line).size ≤ t.size := by
  cases htext : (ofText t).lineText? line with
  | none => simp [lineText, htext]
  | some text =>
    rw [lineText, htext, Option.getD_some]
    cases line with
    | zero => cases htext
    | succ i =>
      simp only [lineText?, Option.bind_eq_bind, Option.bind_eq_some_iff] at htext
      obtain ⟨start, -, whole, hslice, htrim⟩ := htext
      obtain ⟨a, b, hwhole, -, -⟩ := Text.slice?_eq_some_iff.1 hslice
      have hle := Text.size_mono (Text.trimEnd_prefix_self '\r' whole)
      obtain rfl := Option.some.inj htrim
      have hsize : t.size = (a ++ whole ++ b).size := congrArg Text.size hwhole
      rw [Text.size_append, Text.size_append] at hsize
      omega

/-! ## Marks -/

namespace Mark

variable {t : Text} {map : LineMap} {l : Label} {m : Mark} {marks : List Mark}

theorem ofLabel?_eq_some_iff : ofLabel? map l = some m ↔ ∃ first last stop,
    map.position? l.span.start = some first ∧ map.position? l.span.stop = some last ∧
      stop? map first last = some stop ∧ first.column + 1 < words ∧
      m = ⟨first.line, first.column, max stop (first.column + 1), l.role, l.message⟩ := by
  simp only [ofLabel?, Option.bind_eq_bind, Option.bind_eq_some_iff, add?_eq_some_iff]
  constructor
  · rintro ⟨first, hfirst, last, hlast, stop, hstop, -, ⟨hlt, rfl⟩, hm⟩
    exact ⟨first, last, stop, hfirst, hlast, hstop, hlt, (Option.some.inj hm).symm⟩
  · rintro ⟨first, last, stop, hfirst, hlast, hstop, hlt, rfl⟩
    exact ⟨first, hfirst, last, hlast, stop, hstop, _, ⟨hlt, rfl⟩, rfl⟩

theorem bounds_of_mapM {labels : List Label}
    (h : labels.mapM (ofLabel? (.ofText t)) = some marks) :
    ∀ m ∈ marks, 0 < m.start ∧ m.start < m.stop := by
  intro m hm
  obtain ⟨l, -, hl⟩ := (mem_iff_of_mapM h).1 hm
  obtain ⟨first, last, stop, hfirst, -, -, -, rfl⟩ := ofLabel?_eq_some_iff.1 hl
  have := (LineMap.bounds_of_position? hfirst).2.2
  dsimp only
  omega

theorem isSome_ofLabel?_iff (ht : t.size + 2 < words) : (ofLabel? (.ofText t) l).isSome ↔
    l.span.start + 2 < words + t.lastStart ∧ l.span.stop + 1 < words + t.lastStart := by
  have ht' : t.size + 1 < words := by omega
  have hstop : ((LineMap.ofText t).position? l.span.stop).isSome ↔
      l.span.stop + 1 < words + t.lastStart := LineMap.isSome_position?_iff ht'
  rw [← hstop, Option.isSome_iff_exists, Option.isSome_iff_exists]
  obtain ⟨line, before, hposition, hbefore⟩ := LineMap.exists_column?_eq ht' l.span.start
  constructor
  · rintro ⟨m, hm⟩
    obtain ⟨first, last, stop, hfirst, hlast, -, hlt, -⟩ := ofLabel?_eq_some_iff.1 hm
    refine ⟨?_, last, hlast⟩
    simp only [hposition, Option.map_eq_some_iff, add?_eq_some_iff] at hfirst
    obtain ⟨column, ⟨-, rfl⟩, rfl⟩ := hfirst
    dsimp only at hlt
    omega
  · rintro ⟨hstart, last, hlast⟩
    have hcolumn : before + 1 + 1 < words := by omega
    rw [add?_of_lt (by omega), Option.map_some] at hposition
    obtain ⟨stop, hstop⟩ : ∃ stop, stop? (.ofText t) ⟨line, before + 1⟩ last = some stop := by
      have hlength := Text.length_le_size ((LineMap.ofText t).lineText line)
      have hsize := LineMap.size_lineText_le t line
      unfold stop?
      split
      · exact ⟨_, rfl⟩
      · exact ⟨_, add?_of_lt (by dsimp only; omega)⟩
    exact ⟨_, ofLabel?_eq_some_iff.2 ⟨_, last, stop, hposition, hlast, hstop, hcolumn, rfl⟩⟩

theorem slots?_eq_some_iff {skipped taken : Nat} : m.slots? = some (skipped, taken) ↔
    0 < m.start ∧ 0 < m.stop ∧ skipped = m.start - 1 ∧ taken = m.stop - 1 := by
  simp only [slots?, Option.bind_eq_bind, Option.bind_eq_some_iff, sub?_eq_some_iff]
  constructor
  · rintro ⟨-, ⟨hstart, rfl⟩, -, ⟨hstop, rfl⟩, h⟩
    obtain ⟨rfl, rfl⟩ := Prod.mk.inj (Option.some.inj h)
    exact ⟨hstart, hstop, rfl, rfl⟩
  · rintro ⟨hstart, hstop, rfl, rfl⟩
    exact ⟨_, ⟨hstart, rfl⟩, _, ⟨hstop, rfl⟩, rfl⟩

theorem isSome_paint? (h : 0 < m.start ∧ m.start < m.stop) (slots : List (Option Role)) :
    (paint? slots m).isSome := by
  rw [paint?, slots?_eq_some_iff.2 ⟨h.1, Nat.lt_trans h.1 h.2, rfl, rfl⟩]
  rfl

@[simp] theorem mem_inOrder : m ∈ inOrder marks ↔ m ∈ marks :=
  (Ordered.sort_perm before marks).mem_iff

theorem isSome_roles? (h : ∀ m ∈ marks, 0 < m.start ∧ m.start < m.stop) :
    (roles? marks).isSome := by
  have hfold (ms : List Mark) (hms : ∀ m ∈ ms, 0 < m.start ∧ m.start < m.stop)
      (slots : List (Option Role)) : (ms.foldlM paint? slots).isSome := by
    induction ms generalizing slots with
    | nil => rfl
    | cons m ms ih =>
      rw [List.forall_mem_cons] at hms
      obtain ⟨slots', hslots⟩ := Option.isSome_iff_exists.1 (isSome_paint? hms.1 slots)
      rw [List.foldlM_cons, hslots]
      exact ih hms.2 slots'
  obtain ⟨painted, hpainted⟩ := Option.isSome_iff_exists.1
    (hfold (inOrder marks) (fun m hm => h m (mem_inOrder.1 hm))
      (List.replicate (marks.foldl (fun w m => max w m.stop) 1) none))
  rw [roles?, hpainted]
  rfl

end Mark

/-! ## Suggestions -/

/-- The number of bytes of its line that a suggestion leaves before its replacement. -/
def Suggestion.kept (map : LineMap) (s : Suggestion) : Nat :=
  ((map.position? s.span.start).map fun p =>
    Text.size ((map.lineText p.line).take (p.column - 1))).getD 0

namespace Snippet

variable {t : Text} {map : LineMap} {s : Suggestion} {d : Diagnostic} {gutter : Nat}

/-- A suggestion leaves both ends of its line, and the second one starts at a cut. -/
theorem around?_eq_some_iff {line before after : Text} {column length : Nat} :
    around? line column length = some (before, after) ↔
      before = line.take (column - 1) ∧ before.size + length < words ∧ ∃ cut inside,
        line.nextCut? (min (before.size + length) line.size) = some cut ∧
        line.cut? cut = some (inside, after) := by
  have hstart : line.cut? (Text.size (line.take (column - 1))) =
      some (line.take (column - 1), line.drop (column - 1)) :=
    Text.cut?_eq_some_iff.2 ⟨List.take_append_drop _ _, rfl⟩
  simp only [around?, Option.bind_eq_bind, Option.bind_eq_some_iff, add?_eq_some_iff, hstart,
    Prod.exists]
  constructor
  · rintro ⟨-, ⟨hlt, rfl⟩, cut, hcut, _, _, hbefore, inside, _, hafter, h⟩
    obtain ⟨rfl, -⟩ := Prod.mk.inj (Option.some.inj hbefore)
    obtain ⟨rfl, rfl⟩ := Prod.mk.inj (Option.some.inj h)
    exact ⟨rfl, hlt, cut, inside, hcut, hafter⟩
  · rintro ⟨rfl, hlt, cut, inside, hcut, hafter⟩
    exact ⟨_, ⟨hlt, rfl⟩, cut, hcut, _, _, rfl, inside, after, hafter, rfl⟩

theorem isSome_around?_iff {line : Text} (hline : line.size < words) (column length : Nat) :
    (around? line column length).isSome ↔ Text.size (line.take (column - 1)) + length < words := by
  rw [Option.isSome_iff_exists, Prod.exists]
  simp only [around?_eq_some_iff]
  constructor
  · rintro ⟨_, -, rfl, hlt, -⟩
    exact hlt
  · intro hlt
    obtain ⟨cut, hcut, hisSome⟩ := Text.exists_nextCut? hline
      (Nat.min_le_right (Text.size (line.take (column - 1)) + length) line.size)
    obtain ⟨⟨inside, after⟩, hafter⟩ := Option.isSome_iff_exists.1 hisSome
    exact ⟨_, after, rfl, hlt, cut, inside, hcut, hafter⟩

theorem replaced?_eq_some_iff {position : Position} {before after : Text} :
    replaced? map s = some (position, before, after) ↔
      map.position? s.span.start = some position ∧
        around? (map.lineText position.line) position.column s.span.length =
          some (before, after) := by
  simp only [replaced?, Option.bind_eq_bind, Option.bind_eq_some_iff]
  constructor
  · rintro ⟨position', hposition, parts, hparts, h⟩
    obtain ⟨rfl, rfl⟩ := Prod.mk.inj (Option.some.inj h)
    exact ⟨hposition, hparts⟩
  · rintro ⟨hposition, hparts⟩
    exact ⟨position, hposition, _, hparts, rfl⟩

theorem isSome_replaced?_iff (ht : t.size + 2 < words) : (replaced? (.ofText t) s).isSome ↔
    s.span.start + 1 < words + t.lastStart ∧ s.kept (.ofText t) + s.span.length < words := by
  rw [← LineMap.isSome_position?_iff (by omega)]
  cases hposition : (LineMap.ofText t).position? s.span.start with
  | none => simp [replaced?, hposition]
  | some p =>
    have hline : ((LineMap.ofText t).lineText p.line).size < words := by
      have := LineMap.size_lineText_le t p.line
      omega
    have hiff := isSome_around?_iff hline p.column s.span.length
    simp [replaced?, hposition, Suggestion.kept, ← hiff, Option.isSome_bind]

theorem isSome_suggestionRows?_iff :
    (suggestionRows? map gutter s).isSome ↔ (replaced? map s).isSome := by
  simp [suggestionRows?, Option.isSome_bind]

theorem isSome_footer?_iff : (footer? map gutter d).isSome ↔
    ∀ s, d.help.bind (·.suggestion) = some s → (replaced? map s).isSome := by
  have hhelp (help : Help) : (helpRows? map gutter help).isSome ↔
      ∀ s, help.suggestion = some s → (replaced? map s).isSome := by
    have hrows : (helpRows? map gutter help).isSome ↔
        (help.suggestion.mapM (suggestionRows? map gutter)).isSome := by
      simp [helpRows?, Option.isSome_bind]
    rw [hrows, isSome_option_mapM_iff]
    simp only [isSome_suggestionRows?_iff]
  have hrows : (footer? map gutter d).isSome ↔ (d.help.mapM (helpRows? map gutter)).isSome := by
    simp [footer?, Option.isSome_bind]
  rw [hrows, isSome_option_mapM_iff]
  simp only [hhelp, Option.bind_eq_some_iff]
  grind

/-! ## Rows -/

theorem isSome_lineRows? {marks : List Mark} (h : ∀ m ∈ marks, 0 < m.start ∧ m.start < m.stop)
    (map : LineMap) (gutter : Nat) (ns : List Nat) :
    (lineRows? map gutter marks ns).isSome := by
  induction ns with
  | nil => rfl
  | cons n ns ih =>
    obtain ⟨roles, hroles⟩ := Option.isSome_iff_exists.1
      (Mark.isSome_roles? fun m (hm : m ∈ marks.filter (·.line == n)) =>
        h m (List.mem_filter.1 hm).1)
    obtain ⟨others, hothers⟩ := Option.isSome_iff_exists.1 ih
    simp [lineRows?, markRows?, hroles, hothers]

end Snippet

namespace Diagnostic

variable {t : Text} {map : LineMap} {d : Diagnostic}

theorem exists_label_of_primarySpan? {span : Span} (h : d.primarySpan? = some span) :
    ∃ l ∈ d.labels, l.span = span := by
  obtain ⟨l, hl, rfl⟩ := Option.map_eq_some_iff.1 h
  refine ⟨l, ?_, rfl⟩
  rcases Option.or_eq_some_iff.1 hl with hfind | ⟨-, hhead⟩
  · exact List.mem_of_find?_eq_some hfind
  · exact List.mem_of_head? hhead

theorem exists_position_of_primarySpan? {span : Span} {marks : List Mark}
    (h : d.primarySpan? = some span) (hmarks : d.labels.mapM (Mark.ofLabel? map) = some marks) :
    ∃ position, map.position? span.start = some position := by
  obtain ⟨l, hl, rfl⟩ := exists_label_of_primarySpan? h
  obtain ⟨m, -, hm⟩ := exists_mem_of_mapM hmarks hl
  obtain ⟨first, -, -, hfirst, -⟩ := Mark.ofLabel?_eq_some_iff.1 hm
  exact ⟨first, hfirst⟩

/-- A diagnostic has rows if its labels have marks and its suggestion leaves both ends of a line. -/
theorem isSome_rows?_iff {file : String} : (Snippet.rows? (.ofText t) file d).isSome ↔
    (∀ l ∈ d.labels, (Mark.ofLabel? (.ofText t) l).isSome) ∧
      ∀ s, d.help.bind (·.suggestion) = some s → (Snippet.replaced? (.ofText t) s).isSome := by
  rw [← isSome_mapM_iff]
  cases hmarks : d.labels.mapM (Mark.ofLabel? (.ofText t)) with
  | none => simp [Snippet.rows?, hmarks]
  | some marks =>
    simp only [Option.isSome_some, true_and]
    cases hspan : d.primarySpan? with
    | none =>
      rw [← @Snippet.isSome_footer?_iff _ _ 2]
      simp [Snippet.rows?, hmarks, hspan, Option.isSome_bind]
    | some span =>
      obtain ⟨position, hposition⟩ := exists_position_of_primarySpan? hspan hmarks
      let gutter := Snippet.gutterWidth (Snippet.lines (.ofText t) marks)
      obtain ⟨source, hsource⟩ := Option.isSome_iff_exists.1
        (Snippet.isSome_lineRows? (Mark.bounds_of_mapM hmarks) (.ofText t) gutter
          (Snippet.lines (.ofText t) marks))
      rw [← @Snippet.isSome_footer?_iff _ _ gutter]
      simp [Snippet.rows?, hmarks, hspan, hposition, hsource, Option.isSome_bind, gutter]

theorem isSome_render?_iff {colors : Bool} {file : String} :
    (d.render? colors map file).isSome ↔ (Snippet.rows? map file d).isSome := by
  simp [render?, Option.isSome_bind]

/-- A report has an entry for a diagnostic if its labels have places and its suggestion leaves both
ends of a line. -/
theorem isSome_ofDiagnostic?_iff : (Report.Entry.ofDiagnostic? map d).isSome ↔
    (∀ l ∈ d.labels, (map.position? l.span.start).isSome ∧ (map.position? l.span.stop).isSome) ∧
      ∀ s, d.help.bind (·.suggestion) = some s → (Snippet.replaced? map s).isSome := by
  have hplace (offset : Nat) :
      (Report.Place.ofOffset? map offset).isSome ↔ (map.position? offset).isSome := by
    simp [Report.Place.ofOffset?, Option.isSome_bind]
  have hlabel (l : Label) : (Report.Label.ofLabel? map l).isSome ↔
      (map.position? l.span.start).isSome ∧ (map.position? l.span.stop).isSome := by
    rw [← hplace, ← hplace]
    simp [Report.Label.ofLabel?, Option.isSome_bind, Option.any_eq_true_iff_get]
  have hlocation (span : Span) : (Report.Location.ofSpan? map span).isSome ↔
      (map.position? span.start).isSome := by
    rw [← hplace]
    simp [Report.Location.ofSpan?, Option.isSome_bind]
  have hfix (s : Suggestion) :
      (Report.Fix.ofSuggestion? map s).isSome ↔ (Snippet.replaced? map s).isSome := by
    simp [Report.Fix.ofSuggestion?, Option.isSome_bind]
  have hentry : (Report.Entry.ofDiagnostic? map d).isSome ↔
      (d.labels.mapM (Report.Label.ofLabel? map)).isSome ∧
        (d.primarySpan?.mapM (Report.Location.ofSpan? map)).isSome ∧
        ((d.help.bind (·.suggestion)).mapM (Report.Fix.ofSuggestion? map)).isSome := by
    simp [Report.Entry.ofDiagnostic?, Option.isSome_bind, Option.any_eq_true_iff_get]
  rw [hentry, isSome_option_mapM_iff, isSome_mapM_iff, isSome_option_mapM_iff]
  simp only [hlabel, hlocation, hfix]
  refine ⟨fun h => ⟨h.1, h.2.2⟩, fun h => ⟨h.1, fun span hspan => ?_, h.2⟩⟩
  obtain ⟨l, hl, rfl⟩ := exists_label_of_primarySpan? hspan
  exact (h.1 l hl).1

/-- What can be shown to people has an entry in a report. -/
theorem isSome_ofDiagnostic?_of_rows? {file : String}
    (h : (Snippet.rows? (.ofText t) file d).isSome) :
    (Report.Entry.ofDiagnostic? (.ofText t) d).isSome := by
  obtain ⟨hmarks, hsuggestion⟩ := isSome_rows?_iff.1 h
  refine isSome_ofDiagnostic?_iff.2 ⟨fun l hl => ?_, hsuggestion⟩
  obtain ⟨m, hm⟩ := Option.isSome_iff_exists.1 (hmarks l hl)
  obtain ⟨first, last, -, hfirst, hlast, -⟩ := Mark.ofLabel?_eq_some_iff.1 hm
  exact ⟨Option.isSome_of_eq_some hfirst, Option.isSome_of_eq_some hlast⟩

end Diagnostic

/-! ## Diagnostics -/

namespace Report

variable {map : LineMap} {d : Diagnostic} {e : Entry}

theorem Entry.parts_of_ofDiagnostic? (h : ofDiagnostic? map d = some e) :
    d.primarySpan?.mapM (Location.ofSpan? map) = some e.location ∧
      d.labels.mapM (Label.ofLabel? map) = some e.labels ∧
      (d.help.bind (·.suggestion)).mapM (Fix.ofSuggestion? map) = some e.fix := by
  simp only [ofDiagnostic?, Option.bind_eq_bind, Option.bind_eq_some_iff] at h
  obtain ⟨location, hlocation, labels, hlabels, fix, hfix, hentry⟩ := h
  obtain rfl := Option.some.inj hentry
  exact ⟨hlocation, hlabels, hfix⟩

theorem isSome_ofDiagnostics?_iff {file phase : String} {ds : List Diagnostic}
    {type : Option String} : (ofDiagnostics? map file phase ds type).isSome ↔
      ∀ d ∈ ds, (Entry.ofDiagnostic? map d).isSome := by
  rw [← isSome_mapM_iff]
  simp [ofDiagnostics?, Option.isSome_bind]

theorem mapM_of_ofDiagnostics? {file phase : String} {ds : List Diagnostic}
    {type : Option String} {report : Report}
    (h : ofDiagnostics? map file phase ds type = some report) :
    ds.mapM (Entry.ofDiagnostic? map) = some report.diagnostics := by
  simp only [ofDiagnostics?, Option.bind_eq_bind, Option.bind_eq_some_iff] at h
  obtain ⟨entries, hentries, hreport⟩ := h
  obtain rfl := Option.some.inj hreport
  exact hentries

/-- All places that a report gives for a diagnostic. -/
def Entry.places (e : Entry) : List Place :=
  (e.location.map (·.place)).toList ++ e.labels.flatMap fun l => [l.start, l.stop]

/-- The places in a report are places of offsets. -/
theorem Entry.exists_offset_of_mem_places (h : ofDiagnostic? map d = some e) {p : Place}
    (hp : p ∈ e.places) : map.position? p.offset = some ⟨p.line, p.column⟩ := by
  have hplace {offset : Nat} {p : Place} (h : Place.ofOffset? map offset = some p) :
      map.position? p.offset = some ⟨p.line, p.column⟩ := by
    simp only [Place.ofOffset?, Option.bind_eq_bind, Option.bind_eq_some_iff] at h
    obtain ⟨position, hposition, hp⟩ := h
    obtain rfl := Option.some.inj hp
    exact hposition
  obtain ⟨hlocation, hlabels, -⟩ := parts_of_ofDiagnostic? h
  rcases List.mem_append.1 hp with hp | hp
  · rw [Option.mem_toList, Option.map_eq_some_iff] at hp
    obtain ⟨location, heq, rfl⟩ := hp
    rw [option_mapM_eq_some_iff, heq] at hlocation
    obtain ⟨span, -, hspan⟩ := Option.map_eq_some_iff.1 hlocation
    simp only [Location.ofSpan?, Option.bind_eq_bind, Option.bind_eq_some_iff] at hspan
    obtain ⟨place, hoffset, hl⟩ := hspan
    obtain rfl := Option.some.inj hl
    exact hplace hoffset
  · obtain ⟨r, hr, hp⟩ := List.mem_flatMap.1 hp
    obtain ⟨l, -, hl⟩ := (mem_iff_of_mapM hlabels).1 hr
    simp only [Label.ofLabel?, Option.bind_eq_bind, Option.bind_eq_some_iff] at hl
    obtain ⟨start, hstart, stop, hstop, hr⟩ := hl
    obtain rfl := Option.some.inj hr
    simp only [List.mem_cons, List.not_mem_nil, or_false] at hp
    rcases hp with rfl | rfl
    · exact hplace hstart
    · exact hplace hstop

end Report

/-- The spans of a diagnostic keep clear of the last word, counted from where the last line of the
text starts: a label starts two words below it and stops one below. What is left of a line before a
suggestion and the length of its span are a word together. -/
structure Diagnostic.Fits (d : Diagnostic) (t : Text) : Prop where
  label : ∀ l ∈ d.labels,
    l.span.start + 2 < words + t.lastStart ∧ l.span.stop + 1 < words + t.lastStart
  suggestion : ∀ s, d.help.bind (·.suggestion) = some s →
    s.span.start + 1 < words + t.lastStart ∧ s.kept (.ofText t) + s.span.length < words

theorem Diagnostic.Fits.isSome_rows? {d : Diagnostic} {t : Text} (ht : t.size + 2 < words)
    (h : d.Fits t) (file : String) : (Snippet.rows? (.ofText t) file d).isSome :=
  isSome_rows?_iff.2 ⟨fun l hl => (Mark.isSome_ofLabel?_iff ht).2 (h.label l hl),
    fun s hs => (Snippet.isSome_replaced?_iff ht).2 (h.suggestion s hs)⟩

/-- A diagnostic can be shown to people and in a report exactly if its spans fit the text. All lines
that are given are there, and all columns count from 1. -/
theorem Diagnostic.shown_iff_fits (t : Text) (ht : t.size + 2 < words) (d : Diagnostic) :
    ((∀ colors file, (d.render? colors (.ofText t) file).isSome) ∧
      (Report.Entry.ofDiagnostic? (.ofText t) d).isSome ↔ d.Fits t) ∧
    (∀ e, Report.Entry.ofDiagnostic? (.ofText t) d = some e → ∀ p ∈ e.places,
      1 ≤ p.line ∧ p.line ≤ (LineMap.ofText t).lineCount ∧ 1 ≤ p.column) ∧
    ∀ n p, (LineMap.ofText t).position? n = some p →
      1 ≤ p.line ∧ p.line ≤ (LineMap.ofText t).lineCount ∧ 1 ≤ p.column := by
  refine ⟨⟨fun ⟨hrender, _⟩ => ?_, fun h => ⟨fun colors file => ?_, ?_⟩⟩, fun e he p hp => ?_,
    fun n p hp => LineMap.bounds_of_position? hp⟩
  · obtain ⟨hlabel, hsuggestion⟩ := isSome_rows?_iff.1 (isSome_render?_iff.1 (hrender false ""))
    exact ⟨fun l hl => (Mark.isSome_ofLabel?_iff ht).1 (hlabel l hl),
      fun s hs => (Snippet.isSome_replaced?_iff ht).1 (hsuggestion s hs)⟩
  · exact isSome_render?_iff.2 (h.isSome_rows? ht file)
  · exact isSome_ofDiagnostic?_of_rows? (h.isSome_rows? ht "")
  · exact LineMap.bounds_of_position? (Report.Entry.exists_offset_of_mem_places he hp)

/-- A label out of order and past the end, and a suggestion that starts inside a character. -/
theorem shown_iff_fits_past_end :
    let t : Text := "é\n".toList
    let d := (((Diagnostic.error "").withPrimary ⟨0xffffffffffffffff, 1⟩ "").withHelp
      "").withSuggestion ⟨1, 0xfffffffffffffff0⟩ "e"
    t.size + 2 < words ∧ d.Fits t ∧ (∀ colors file, (d.render? colors (.ofText t) file).isSome) ∧
      (Report.Entry.ofDiagnostic? (.ofText t) d).isSome := by
  intro t d
  have ht : t.size + 2 < words := by decide +kernel
  have hfits : d.Fits t := by
    refine ⟨fun l hl => ?_, fun s hs => ?_⟩
    · obtain rfl := List.mem_singleton.1 hl
      decide +kernel
    · obtain rfl := Option.some.inj hs
      decide +kernel
  exact ⟨ht, hfits, (Diagnostic.shown_iff_fits t ht d).1.2 hfits⟩

/-- The last word has no place in a text of one line. A suggestion that starts inside a character
and stops at the last word leaves no ends of its line. -/
theorem rendering_leaves_range :
    (LineMap.ofText []).position? 0xffffffffffffffff = none ∧
    Snippet.replaced? (.ofText ['é']) ⟨⟨1, 0xffffffffffffffff⟩, "e"⟩ = none ∧
    ¬ ∀ (t : Text) (d : Diagnostic), t.size + 2 < words →
      (∀ l ∈ d.labels, l.span.start < words ∧ l.span.stop < words) →
      (∀ s, d.help.bind (·.suggestion) = some s →
        s.span.start < words ∧ s.span.stop < words) →
      (∀ colors file, (d.render? colors (.ofText t) file).isSome) ∧
        (Report.Entry.ofDiagnostic? (.ofText t) d).isSome := by
  have hnone : Snippet.replaced? (.ofText ['é']) ⟨⟨1, 0xffffffffffffffff⟩, "e"⟩ = none := by
    decide +kernel
  refine ⟨by decide +kernel, hnone, fun h => ?_⟩
  let d := ((Diagnostic.error "").withHelp "").withSuggestion ⟨1, 0xffffffffffffffff⟩ "e"
  obtain ⟨-, hentry⟩ := h ['é'] d (by decide +kernel) (fun l hl => by cases hl) fun s hs => by
    obtain rfl := Option.some.inj hs
    decide +kernel
  have hreplaced := (Diagnostic.isSome_ofDiagnostic?_iff.1 hentry).2 _ rfl
  rw [hnone] at hreplaced
  cases hreplaced

end ArrowLang
