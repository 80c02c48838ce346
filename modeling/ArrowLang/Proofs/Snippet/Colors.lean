import ArrowLang.Proofs.Snippet.Underline

/-!
# Colours and text

Colours put style sequences around pieces of a row and nothing else. The sequences can be found in
the text again wherever the pieces hold no escape themselves, and a diagnostic whose strings hold
none has no such piece. So what is left without the sequences is the text without colours
(`colors_keep_text`).
-/

namespace ArrowLang

namespace Text

/-! ## Style sequences -/

def isParameter (c : Char) : Bool := c.isDigit || c == ';'

/-- What follows the style sequence at the start of a text: an escape, a bracket, digits and
semicolons, and an `m`. -/
def afterSequence? : Text → Option Text
  | '\x1b' :: '[' :: cs =>
    match cs.dropWhile isParameter with
    | 'm' :: rest => some rest
    | _ => none
  | _ => none

theorem length_of_afterSequence? {t rest : Text} (h : t.afterSequence? = some rest) :
    rest.length < t.length := by
  unfold afterSequence? at h
  split at h
  next cs =>
    split at h
    next rest' hdrop =>
      cases h
      have hle := (cs.dropWhile_suffix isParameter).length_le
      simp only [hdrop, List.length_cons] at hle ⊢
      omega
    next => cases h
  next => cases h

/-- The text without its style sequences. -/
def unstyled : Text → Text
  | [] => []
  | c :: cs =>
    match _h : afterSequence? (c :: cs) with
    | some rest => unstyled rest
    | none => c :: unstyled cs
termination_by t => t.length
decreasing_by
  · exact length_of_afterSequence? _h
  · exact Nat.lt_succ_self _

theorem unstyled_of_afterSequence? {t rest : Text} (h : t.afterSequence? = some rest) :
    t.unstyled = unstyled rest := by
  cases t with
  | nil => cases h
  | cons c cs =>
    rw [unstyled]
    split <;> simp_all

theorem unstyled_cons {c : Char} (h : c ≠ '\x1b') (t : Text) :
    unstyled (c :: t) = c :: unstyled t := by
  have hnone : afterSequence? (c :: t) = none := by
    unfold afterSequence?
    split
    next heq => exact absurd (List.cons.inj heq).1 h
    next => rfl
  rw [unstyled]
  split <;> simp_all

theorem unstyled_append {t : Text} (h : '\x1b' ∉ t) (rest : Text) :
    unstyled (t ++ rest) = t ++ unstyled rest := by
  induction t with
  | nil => rfl
  | cons c t ih =>
    rw [List.mem_cons, not_or] at h
    rw [List.cons_append, unstyled_cons (Ne.symm h.1), ih h.2, List.cons_append]

theorem unstyled_sequence {ps : Text} (h : ∀ c ∈ ps, isParameter c = true) (rest : Text) :
    unstyled ('\x1b' :: '[' :: ps ++ 'm' :: rest) = unstyled rest := by
  refine unstyled_of_afterSequence? ?_
  have hdrop : (ps ++ 'm' :: rest).dropWhile isParameter = 'm' :: rest := by
    rw [List.dropWhile_append_of_pos h, List.dropWhile_cons_of_neg (by decide)]
  simp only [List.cons_append, afterSequence?, hdrop]

theorem mem_or_exists_of_mem_intercalate {sep : Text} {ts : List Text} {c : Char}
    (h : c ∈ sep.intercalate ts) : c ∈ sep ∨ ∃ t ∈ ts, c ∈ t := by
  induction ts with
  | nil => simp at h
  | cons t ts ih =>
    cases ts with
    | nil => exact .inr ⟨t, List.mem_cons_self, by simpa using h⟩
    | cons t' ts =>
      rw [List.intercalate_cons_cons, List.mem_append, List.mem_append] at h
      grind

end Text

open Text

/-! ## Styled pieces -/

namespace Style

theorem isParameter_of_mem_codes {s : Style} {code : String} (h : code ∈ s.codes) :
    ∀ c ∈ code.toList, isParameter c = true := by
  have hcodes : (["1", "2", "4", "31", "32", "33", "34", "36"].all fun code =>
      code.toList.all isParameter) = true := by decide
  simp only [List.all_eq_true] at hcodes
  refine hcodes code ?_
  obtain ⟨bold, dimmed, underlined, color⟩ := s
  simp only [codes, List.mem_append, Option.mem_toList, Option.map_eq_some_iff] at h
  rcases h with ((h | h) | h) | ⟨color, -, rfl⟩
  · grind
  · grind
  · grind
  · cases color <;> simp [Color.code]

theorem exists_opening_eq (s : Style) :
    ∃ ps, s.opening = '\x1b' :: '[' :: ps ++ ['m'] ∧ ∀ c ∈ ps, isParameter c = true := by
  refine ⟨(";".intercalate s.codes).toList, by simp [opening], fun c hc => ?_⟩
  rw [String.toList_intercalate] at hc
  rcases mem_or_exists_of_mem_intercalate hc with hsep | ⟨code, hcode, hc⟩
  · obtain rfl : c = ';' := by simpa using hsep
    rfl
  · obtain ⟨code, hmem, rfl⟩ := List.mem_map.1 hcode
    exact isParameter_of_mem_codes hmem c hc

theorem reopen_of_not_mem {t : Text} (h : '\x1b' ∉ t) (opening : Text) : reopen opening t = t := by
  fun_induction reopen opening t with
  | case1 => simp at h
  | case2 c cs _ ih => rw [ih fun hmem => h (List.mem_cons_of_mem c hmem)]
  | case3 => rfl

theorem unstyled_paint (s : Style) {t : Text} (h : '\x1b' ∉ t) (rest : Text) :
    unstyled (s.paint t ++ rest) = t ++ unstyled rest := by
  obtain ⟨ps, hopening, hps⟩ := s.exists_opening_eq
  have hzero : ∀ c ∈ ['0'], isParameter c = true := List.forall_mem_singleton.2 rfl
  have hreset : unstyled (reset ++ rest) = unstyled rest := unstyled_sequence hzero rest
  calc unstyled (s.paint t ++ rest)
      = unstyled ('\x1b' :: '[' :: ps ++ 'm' :: (t ++ (reset ++ rest))) := by
        simp [paint, reopen_of_not_mem h, hopening]
    _ = unstyled (t ++ (reset ++ rest)) := unstyled_sequence hps _
    _ = t ++ unstyled rest := by rw [unstyled_append h, hreset]

end Style

/-- No piece of the row holds an escape. -/
def Row.EscapeFree (r : Row) : Prop := ∀ p ∈ r, '\x1b' ∉ p.text

theorem Piece.unstyled_render (p : Piece) (h : '\x1b' ∉ p.text) (rest : Text) :
    unstyled (p.render true ++ rest) = p.text ++ unstyled rest := by
  unfold render
  split
  next s _ => exact s.unstyled_paint h rest
  next => exact unstyled_append h rest

theorem Row.unstyled_render {r : Row} (h : r.EscapeFree) (rest : Text) :
    unstyled (Row.render true r ++ rest) = Row.render false r ++ unstyled rest := by
  induction r with
  | nil => exact unstyled_cons (by decide) rest
  | cons p r ih =>
    have htail : Row.EscapeFree r := fun q hq => h q (List.mem_cons_of_mem p hq)
    have hrow (colors : Bool) :
        Row.render colors (p :: r) = p.render colors ++ Row.render colors r := by
      simp [Row.render]
    rw [hrow, hrow, List.append_assoc, p.unstyled_render (h p List.mem_cons_self), ih htail,
      Piece.render_false, List.append_assoc]

theorem unstyled_render_rows {rows : List Row} (h : ∀ r ∈ rows, r.EscapeFree) :
    unstyled (rows.flatMap (Row.render true)) = rows.flatMap (Row.render false) := by
  induction rows with
  | nil => rw [List.flatMap_nil, List.flatMap_nil, unstyled]
  | cons r rows ih =>
    rw [List.forall_mem_cons] at h
    rw [List.flatMap_cons, List.flatMap_cons, Row.unstyled_render h.1, ih h.2]

/-! ## Rows without escapes -/

namespace Row

theorem escapeFree_nil : EscapeFree [] := by simp [EscapeFree]

theorem escapeFree_cons {p : Piece} {r : Row} :
    EscapeFree (p :: r) ↔ '\x1b' ∉ p.text ∧ r.EscapeFree := by
  simp [EscapeFree]

theorem escapeFree_append {r s : Row} : EscapeFree (r ++ s) ↔ r.EscapeFree ∧ s.EscapeFree :=
  List.forall_mem_append

end Row

@[simp] theorem escape_not_mem_toDigits (n : Nat) : '\x1b' ∉ Nat.toDigits 10 n := by
  intro h
  exact absurd (Nat.isDigit_of_mem_toDigits (by decide) (by decide) h) (by decide)

/-- All strings of a diagnostic. -/
def Diagnostic.strings (d : Diagnostic) : List String :=
  d.message :: d.code.toList ++ d.labels.filterMap (·.message) ++ d.notes ++
    d.help.toList.flatMap fun help =>
      help.message :: help.suggestion.toList.map (·.replacement)

theorem LineMap.lineText_subset (t : Text) (n : Nat) : (ofText t).lineText n ⊆ t := by
  cases hline : (ofText t).lineText? n with
  | none => simp [lineText, hline]
  | some line =>
    rw [lineText, hline, Option.getD_some]
    unfold lineText? at hline
    split at hline
    · cases hline
    · simp only [Option.bind_eq_bind, Option.bind_eq_some_iff, Option.pure_def, Option.some.injEq]
        at hline
      obtain ⟨start, -, text, htext, rfl⟩ := hline
      obtain ⟨a, b, hsplit, -, -⟩ := slice?_eq_some_iff.1 htext
      refine List.Subset.trans (trimEnd_prefix_self '\r' text).subset fun c hc => ?_
      change c ∈ (ofText t).text
      rw [hsplit]
      simp [hc]

namespace Snippet

open Row

variable {t : Text} {d : Diagnostic} {gutter : Nat}

theorem escapeFree_margin (gutter : Nat) : EscapeFree (margin gutter) := by
  simp [EscapeFree, margin, bar]

theorem escapeFree_numbered (gutter line : Nat) : EscapeFree (numbered gutter line) := by
  simp [EscapeFree, numbered, bar, padLeft]

theorem escapeFree_underline (roles : List (Option Role)) : EscapeFree (underline roles) := by
  have hsymbol (role : Option Role) : symbol role ≠ '\x1b' := by
    rcases role with _ | _ | _ <;> decide
  simp [EscapeFree, underline, text_run, hsymbol]

theorem escapeFree_markRows? {marks : List Mark} {rows : List Row}
    (h : markRows? gutter marks = some rows)
    (hmarks : ∀ m ∈ marks, ∀ text ∈ m.message, '\x1b' ∉ text.toList) :
    ∀ r ∈ rows, r.EscapeFree := by
  have hmessages : ∀ p ∈ Mark.messages marks, '\x1b' ∉ p.2.2.toList := by
    intro p hp
    rw [(Mark.messages_perm marks).mem_iff, List.mem_filterMap] at hp
    obtain ⟨m, hm, hmessage⟩ := hp
    obtain ⟨text, htext, rfl⟩ := Option.map_eq_some_iff.1 hmessage
    exact hmarks m hm text htext
  simp only [markRows?, Option.bind_eq_bind, Option.bind_eq_some_iff] at h
  obtain ⟨roles, -, hrows⟩ := h
  have hrow : EscapeFree (margin gutter ++ .plain " " :: underline roles) := by
    simp [escapeFree_append, escapeFree_cons, escapeFree_margin, escapeFree_underline]
  obtain rfl := Option.some.inj hrows
  split
  next => simpa using hrow
  next column role text hone =>
    have htext : '\x1b' ∉ text.toList := hmessages _ (hone ▸ List.mem_cons_self)
    rw [List.forall_mem_singleton, escapeFree_append]
    refine ⟨hrow, ?_⟩
    simp [EscapeFree, htext]
  next several _ _ =>
    rw [List.forall_mem_cons]
    refine ⟨hrow, fun r hr => ?_⟩
    obtain ⟨p, hp, rfl⟩ := List.mem_map.1 hr
    have htext := hmessages p (List.mem_reverse.1 hp)
    exact escapeFree_append.2 ⟨escapeFree_margin gutter, by simp [EscapeFree, htext]⟩

theorem escapeFree_dots (gutter n : Nat) (next : Option Nat) :
    ∀ r ∈ dots gutter n next, r.EscapeFree := by
  cases next with
  | none => simp [dots]
  | some next =>
    rw [dots]
    split <;> simp [EscapeFree]

theorem escapeFree_lineRows? {map : LineMap} {marks : List Mark} {ns : List Nat} {rows : List Row}
    (h : lineRows? map gutter marks ns = some rows) (hmap : ∀ n, '\x1b' ∉ map.lineText n)
    (hmarks : ∀ m ∈ marks, ∀ text ∈ m.message, '\x1b' ∉ text.toList) :
    ∀ r ∈ rows, r.EscapeFree := by
  induction ns generalizing rows with
  | nil =>
    obtain rfl := Option.some.inj h
    simp
  | cons n ns ih =>
    obtain ⟨below, others, hbelow, hothers, rfl⟩ := lineRows?_cons_eq_some_iff.1 h
    have hsource : EscapeFree (numbered gutter n ++
        [.plain (" " ++ String.ofList (map.lineText n))]) :=
      escapeFree_append.2 ⟨escapeFree_numbered gutter n, by simp [EscapeFree, hmap n]⟩
    have hrows : ∀ r ∈ below, r.EscapeFree :=
      escapeFree_markRows? hbelow fun m hm => hmarks m (List.mem_filter.1 hm).1
    simp only [List.forall_mem_append, List.forall_mem_cons]
    exact ⟨⟨⟨hsource, hrows⟩, escapeFree_dots gutter n _⟩, ih hothers⟩

theorem escapeFree_headline (h : ∀ s ∈ d.strings, '\x1b' ∉ s.toList) : EscapeFree (headline d) := by
  have hmessage : '\x1b' ∉ d.message.toList := h _ (by simp [Diagnostic.strings])
  cases hcode : d.code with
  | none => simp [EscapeFree, headline, hcode, hmessage]
  | some code =>
    have hname : '\x1b' ∉ code.toList := h _ (by simp [Diagnostic.strings, hcode])
    simp [EscapeFree, headline, hcode, hmessage, hname]

theorem escapeFree_footnote {kind text : String} (hkind : '\x1b' ∉ kind.toList)
    (htext : '\x1b' ∉ text.toList) : EscapeFree (footnote gutter kind text) := by
  simp [EscapeFree, footnote, hkind, htext]

theorem escapeFree_suggestionRows? {map : LineMap} {s : Suggestion} {rows : List Row}
    (h : suggestionRows? map gutter s = some rows) (hmap : ∀ n, '\x1b' ∉ map.lineText n)
    (hs : '\x1b' ∉ s.replacement.toList) : ∀ r ∈ rows, r.EscapeFree := by
  simp only [suggestionRows?, Option.bind_eq_bind, Option.bind_eq_some_iff, Prod.exists] at h
  obtain ⟨position, before, after, hreplaced, hrows⟩ := h
  obtain ⟨-, haround⟩ := replaced?_eq_some_iff.1 hreplaced
  obtain ⟨rfl, -, cut, inside, -, hcut⟩ := around?_eq_some_iff.1 haround
  have hbefore : '\x1b' ∉ (map.lineText position.line).take (position.column - 1) := fun hmem =>
    hmap _ ((List.take_prefix _ _).subset hmem)
  have hafter : '\x1b' ∉ after := fun hmem =>
    hmap position.line ((Text.cut?_eq_some_iff.1 hcut).1 ▸ List.mem_append_right inside hmem)
  obtain rfl := Option.some.inj hrows
  simp [escapeFree_append, escapeFree_cons, escapeFree_nil, escapeFree_margin,
    escapeFree_numbered, hbefore, hafter, hs]

theorem escapeFree_helpRows? {map : LineMap} {help : Help} {rows : List Row}
    (h : helpRows? map gutter help = some rows) (hmap : ∀ n, '\x1b' ∉ map.lineText n)
    (hmessage : '\x1b' ∉ help.message.toList)
    (hs : ∀ s ∈ help.suggestion, '\x1b' ∉ s.replacement.toList) : ∀ r ∈ rows, r.EscapeFree := by
  simp only [helpRows?, Option.bind_eq_bind, Option.bind_eq_some_iff] at h
  obtain ⟨fix, hfix, hrows⟩ := h
  obtain rfl := Option.some.inj hrows
  rw [List.forall_mem_cons]
  refine ⟨escapeFree_footnote (by decide) hmessage, ?_⟩
  cases fix with
  | none => simp
  | some fix =>
    rw [option_mapM_eq_some_iff] at hfix
    obtain ⟨s, hsuggestion, hfix⟩ := Option.map_eq_some_iff.1 hfix
    exact escapeFree_suggestionRows? hfix hmap (hs s hsuggestion)

theorem escapeFree_footer? {map : LineMap} {rows : List Row}
    (h : footer? map gutter d = some rows) (hmap : ∀ n, '\x1b' ∉ map.lineText n)
    (hd : ∀ s ∈ d.strings, '\x1b' ∉ s.toList) : ∀ r ∈ rows, r.EscapeFree := by
  simp only [footer?, Option.bind_eq_bind, Option.bind_eq_some_iff] at h
  obtain ⟨below, hbelow, hrows⟩ := h
  obtain rfl := Option.some.inj hrows
  rw [List.forall_mem_append]
  refine ⟨fun r hr => ?_, ?_⟩
  · obtain ⟨note, hnote, rfl⟩ := List.mem_map.1 hr
    exact escapeFree_footnote (by decide) (hd note (by simp [Diagnostic.strings, hnote]))
  · cases below with
    | none => simp
    | some below =>
      rw [option_mapM_eq_some_iff] at hbelow
      obtain ⟨help, hhelp, hbelow⟩ := Option.map_eq_some_iff.1 hbelow
      refine escapeFree_helpRows? hbelow hmap (hd _ ?_) fun s hs => hd _ ?_
      · simp [Diagnostic.strings, hhelp]
      · simp [Diagnostic.strings, hhelp, Option.mem_def.1 hs]

theorem escapeFree_rows? {map : LineMap} {file : String} {rows : List Row}
    (h : rows? map file d = some rows) (hmap : ∀ n, '\x1b' ∉ map.lineText n)
    (hd : ∀ s ∈ file :: d.strings, '\x1b' ∉ s.toList) : ∀ r ∈ rows, r.EscapeFree := by
  rw [List.forall_mem_cons] at hd
  obtain ⟨hfile, hd⟩ := hd
  cases hspan : d.primarySpan? with
  | none =>
    rw [rows?_of_primarySpan?_eq_none hspan] at h
    obtain ⟨footer, hfooter, rfl⟩ := Option.map_eq_some_iff.1 h
    rw [List.forall_mem_cons]
    exact ⟨escapeFree_headline hd, escapeFree_footer? hfooter hmap hd⟩
  | some span =>
    obtain ⟨marks, hmarks⟩ := exists_marks_of_rows? h
    rw [rows?_of_primarySpan? hspan hmarks] at h
    simp only [Option.bind_eq_some_iff, Option.map_eq_some_iff] at h
    obtain ⟨position, -, source, hsource, foot, hfoot, rfl⟩ := h
    have hmessages : ∀ m ∈ marks, ∀ text ∈ m.message, '\x1b' ∉ text.toList := by
      intro m hm text htext
      obtain ⟨l, hl, hmark⟩ := (mem_iff_of_mapM hmarks).1 hm
      obtain ⟨first, last, stop, -, -, -, -, rfl⟩ := Mark.ofLabel?_eq_some_iff.1 hmark
      refine hd text ?_
      simp only [Diagnostic.strings, List.mem_append, List.mem_filterMap]
      exact .inl (.inl (.inr ⟨l, hl, htext⟩))
    have hhead : ∀ r ∈ head map file d position, r.EscapeFree := by
      simp only [head, List.forall_mem_cons]
      refine ⟨escapeFree_headline hd, ?_, escapeFree_margin _, by simp⟩
      simp [EscapeFree, place, hfile]
    have hfoot : ∀ r ∈ foot, r.EscapeFree := by
      simp only [foot?, Option.bind_eq_bind, Option.bind_eq_some_iff] at hfoot
      obtain ⟨footer, hfooter, hfoot⟩ := hfoot
      obtain rfl := Option.some.inj hfoot
      rw [List.forall_mem_append]
      refine ⟨?_, escapeFree_footer? hfooter hmap hd⟩
      split <;> simp [escapeFree_margin]
    rw [List.forall_mem_append, List.forall_mem_append]
    exact ⟨⟨hhead, escapeFree_lineRows? hsource hmap hmessages⟩, hfoot⟩

end Snippet

/-- Without its style sequences, the text of a diagnostic with colours is its text without
colours. -/
theorem colors_keep_text {t : Text} {file : String} {d : Diagnostic} (ht : '\x1b' ∉ t)
    (h : ∀ s ∈ file :: d.strings, '\x1b' ∉ s.toList) :
    (d.render? true (.ofText t) file).map (·.unstyled) = d.render? false (.ofText t) file := by
  have hlines (n : Nat) : '\x1b' ∉ (LineMap.ofText t).lineText n := fun hmem =>
    ht (LineMap.lineText_subset t n hmem)
  cases hrows : Snippet.rows? (.ofText t) file d with
  | none => simp [Diagnostic.render?, hrows]
  | some rows =>
    have hunstyled := unstyled_render_rows (Snippet.escapeFree_rows? hrows hlines h)
    simp [Diagnostic.render?, hrows, hunstyled]

/-- A primary label over a secondary one, with a note and a suggestion. -/
theorem colors_keep_text_overlap :
    let t : Text := "const sun = 1;\nsum + 2".toList
    let d := ((((((Diagnostic.error "m").withCode "E1").withSecondary ⟨15, 22⟩ "s").withPrimary
      ⟨15, 18⟩ "p").withNote "n").withHelp "h").withSuggestion ⟨15, 18⟩ "sun"
    '\x1b' ∉ t ∧ (∀ s ∈ "f" :: d.strings, '\x1b' ∉ s.toList) ∧
      (d.render? true (.ofText t) "f").isSome ∧
      d.render? true (.ofText t) "f" ≠ d.render? false (.ofText t) "f" ∧
      (d.render? true (.ofText t) "f").map (·.unstyled) = d.render? false (.ofText t) "f" := by
  intro t d
  have ht : '\x1b' ∉ t := by decide
  have h : ∀ s ∈ "f" :: d.strings, '\x1b' ∉ s.toList := by decide
  exact ⟨ht, h, by decide +kernel, by decide +kernel, colors_keep_text ht h⟩

end ArrowLang
