import ArrowLang.Proofs.Grammar.Extent
import ArrowLang.Proofs.Lexing.Tokens

/-!
# A term and its source text

The span of a term cuts the source between two segments, and what it cuts out is the text of that
term and of no other: by itself it falls into the same tokens, and it is read as the same term.
-/

namespace ArrowLang

open Written Grammar Parse Cursor

namespace Segment

/-! ## Tokens of segments -/

/-- Number of bytes of all segments. -/
def size (ss : List Segment) : Nat := Text.size (ss.flatMap (·.text))

/-- The tokens among segments, the first segment at `offset`. -/
def tokens (offset : Nat) (ss : List Segment) : List Token := (located offset ss).filterMap token?

theorem size_cons (s : Segment) (ss : List Segment) : size (s :: ss) = s.text.size + size ss := by
  simp [size]

theorem size_append (ss us : List Segment) : size (ss ++ us) = size ss + size us := by
  simp [size]

theorem tokens_cons (offset : Nat) (s : Segment) (ss : List Segment) :
    tokens offset (s :: ss) = (token? (s, ⟨offset, offset + s.text.size⟩)).toList ++
      tokens (offset + s.text.size) ss := by
  rw [tokens, located, List.filterMap_cons]
  cases token? (s, ⟨offset, offset + s.text.size⟩) <;> rfl

theorem tokens_append (offset : Nat) (ss us : List Segment) :
    tokens offset (ss ++ us) = tokens offset ss ++ tokens (offset + size ss) us := by
  induction ss generalizing offset with
  | nil => rfl
  | cons s ss ih =>
    rw [List.cons_append, tokens_cons, tokens_cons, ih, size_cons, Nat.add_assoc, List.append_assoc]

theorem span_of_token? {p : Segment × Span} {t : Token} (h : token? p = some t) : t.span = p.2 := by
  unfold token? at h
  split at h
  · cases h
    rfl
  · cases h

theorem exists_kind_of_token? {p : Segment × Span} {t : Token} (h : token? p = some t) :
    ∃ kind, p.1.kind = .token kind := by
  unfold token? at h
  split at h
  · exact ⟨_, ‹_›⟩
  · cases h

theorem tokens_shift (d : Nat) (ss : List Segment) (offset : Nat) :
    tokens (offset + d) ss = (tokens offset ss).map (Token.shift d) := by
  induction ss generalizing offset with
  | nil => rfl
  | cons s ss ih =>
    rw [tokens_cons, tokens_cons, List.map_append, ← ih, Nat.add_right_comm]
    congr 1
    obtain ⟨kind, text⟩ := s
    cases kind <;> rfl

/-- A token stands after the segments before it, and it starts before it stops. -/
theorem le_of_mem_tokens {offset : Nat} {ss : List Segment} {t : Token} (h : t ∈ tokens offset ss) :
    offset ≤ t.span.start ∧ t.span.start ≤ t.span.stop := by
  induction ss generalizing offset with
  | nil => cases h
  | cons s ss ih =>
    rw [tokens_cons, List.mem_append, Option.mem_toList] at h
    rcases h with h | h
    · rw [span_of_token? h]
      simp
    · have := ih h
      omega

theorem inOrder_tokens (offset : Nat) (ss : List Segment) : InOrder (tokens offset ss) := by
  induction ss generalizing offset with
  | nil => exact .nil
  | cons s ss ih =>
    rw [tokens_cons]
    cases htoken : token? (s, ⟨offset, offset + s.text.size⟩) with
    | none => exact ih _
    | some t =>
      refine List.pairwise_cons.2 ⟨fun u hu => ?_, ih _⟩
      have := le_of_mem_tokens hu
      rw [span_of_token? htoken]
      simp only
      omega

/-! ## Segments of tokens -/

theorem exists_of_located_eq {offset : Nat} {ss : List Segment} {ls ms : List (Segment × Span)}
    {p : Segment × Span} (h : located offset ss = ls ++ p :: ms) :
    ∃ before s after, ss = before ++ s :: after ∧ ls = located offset before ∧
      p = (s, ⟨offset + size before, offset + size before + s.text.size⟩) := by
  induction ls generalizing offset ss with
  | nil =>
    cases ss with
    | nil => cases h
    | cons s ss => exact ⟨[], s, ss, rfl, rfl, (List.cons.inj h).1.symm⟩
  | cons l ls ih =>
    cases ss with
    | nil => cases h
    | cons s ss =>
      obtain ⟨rfl, hrest⟩ := List.cons.inj h
      obtain ⟨before, s', after, rfl, rfl, rfl⟩ := ih hrest
      exact ⟨s :: before, s', after, rfl, rfl, by rw [size_cons, Nat.add_assoc offset]⟩

/-- A token among those of segments is one of the segments. -/
theorem exists_of_tokens_eq {offset : Nat} {ss : List Segment} {us vs : List Token} {t : Token}
    (h : tokens offset ss = us ++ t :: vs) :
    ∃ before s after, ss = before ++ s :: after ∧ tokens offset before = us ∧
      token? (s, ⟨offset + size before, offset + size before + s.text.size⟩) = some t := by
  obtain ⟨ls, ms, hlocated, hls, hms⟩ := List.filterMap_eq_append_iff.1 h
  obtain ⟨ks, p, ms, rfl, hks, hp, -⟩ := List.filterMap_eq_cons_iff.1 hms
  rw [← List.append_assoc] at hlocated
  obtain ⟨before, s, after, hss, hbefore, rfl⟩ := exists_of_located_eq hlocated
  refine ⟨before, s, after, hss, ?_, hp⟩
  rw [tokens, ← hbefore, List.filterMap_append, hls, List.filterMap_eq_nil_iff.2 hks,
    List.append_nil]

/-- Tokens that follow one another are those of segments that follow one another, from where the
first token starts to where the last one stops. -/
theorem exists_segments {ss : List Segment} {us ts vs : List Token}
    (h : tokens 0 ss = us ++ ts ++ vs) (hts : ts ≠ []) :
    ∃ before s rest after kind, ss = before ++ s :: rest ++ after ∧ s.kind = .token kind ∧
      tokens 0 before = us ∧ tokens (size before) (s :: rest) = ts ∧
      tokens (size before + size (s :: rest)) after = vs ∧
      extent ts = ⟨size before, size before + size (s :: rest)⟩ := by
  -- cut after the last token
  obtain ⟨w, b, rfl⟩ : ∃ w b, ts = w ++ [b] := ⟨_, _, (List.dropLast_concat_getLast hts).symm⟩
  rw [← List.append_assoc, List.append_assoc _ [b]] at h
  obtain ⟨front, s, after, rfl, hfront, hb⟩ := exists_of_tokens_eq h
  have hupTo : tokens 0 (front ++ [s]) = us ++ (w ++ [b]) := by
    rw [tokens_append, hfront, tokens_cons, hb, List.append_assoc]
    rfl
  rw [List.append_cons, tokens_append, hupTo, ← List.append_assoc us, List.append_assoc _ [b],
    List.append_cancel_left_eq, List.append_cancel_left_eq] at h
  -- and before the first one
  obtain ⟨a, w', hcons⟩ := List.exists_cons_of_ne_nil hts
  rw [hcons] at hupTo ⊢
  obtain ⟨before, s', rest, hsplit, hbefore, ha⟩ := exists_of_tokens_eq hupTo
  obtain ⟨kind, hkind⟩ := exists_kind_of_token? ha
  have hstop : stop (a :: w') = size before + size (s' :: rest) := by
    rw [← size_append, ← hsplit, ← hcons, stop_append (by simp), size_append, size_cons]
    simp [stop, span_of_token? hb, size]
  rw [hsplit, size_append] at h
  rw [hsplit, tokens_append, hbefore, List.append_cancel_left_eq] at hupTo
  refine ⟨before, s', rest, after, kind, by rw [← hsplit, List.append_assoc]; rfl, hkind, hbefore,
    by simpa using hupTo, by simpa using h, ?_⟩
  rw [extent, hstop, start, List.head?_cons, Option.map_some, span_of_token? ha]
  simp

theorem exists_inside {ss : List Segment} {ts : List Token} (h : ts <:+: tokens 0 ss)
    (hts : ts ≠ []) : ∃ before inside after, ss = before ++ inside ++ after ∧
      ts = (tokens 0 inside).map (Token.shift (size before)) ∧
      extent ts = ⟨size before, size before + size inside⟩ := by
  obtain ⟨us, vs, h⟩ := h
  obtain ⟨before, s, rest, after, -, hss, -, -, htokens, -, hextent⟩ := exists_segments h.symm hts
  refine ⟨before, s :: rest, after, hss, ?_, hextent⟩
  rw [← tokens_shift, Nat.zero_add, htokens]

end Segment

open Segment

/-! ## Terms and texts -/

/-- A text is read as the term that its tokens write, up to a last semicolon. -/
theorem read_eq_ok_iff_written {t : Text} {T : Term} :
    Term.read t = .ok T ↔ (∀ s ∈ split t, s.Clean) ∧
      ∃ us vs k, tokens 0 (split t) = us ++ vs ∧ Trailing vs ∧ Statements 0 us T k := by
  rw [Term.read_eq_ok_iff, Term.parse, ofTokens_append_eof (eof_not_mem_located 0 t)]
  refine and_congr_right fun _ => ?_
  change (program ⟨tokens 0 (split t), ⟨t.size, t.size⟩, 0⟩).result = .ok T ↔ _
  constructor
  · intro hresult
    obtain ⟨us, vs, htokens, hvs, hwritten⟩ := program_written (congrArg (Reading.mk · _) hresult)
    exact ⟨us, vs, _, htokens, hvs, hwritten⟩
  · rintro ⟨us, vs, k, htokens, hvs, hwritten⟩
    rw [htokens]
    exact congrArg Reading.result (hwritten.reads_program hvs _)

theorem part_of_read {t : Text} {T : Term} (h : Term.read t = .ok T) :
    Part (tokens 0 (split t)) T := by
  obtain ⟨-, us, vs, k, htokens, -, hwritten⟩ := read_eq_ok_iff_written.1 h
  exact ⟨us, 0, k, ⟨[], vs, htokens.symm⟩, hwritten⟩

/-- The segments that hold the tokens of a term are read as the term. -/
theorem read_of_inside {t : Text} (hclean : ∀ s ∈ split t, s.Clean)
    {before inside after : List Segment} (hsplit : split t = before ++ inside ++ after) {n : Term}
    {d i j : Nat} (h : Statements i ((tokens 0 inside).map (Token.shift d)) n j) :
    ∃ n', Term.read (inside.flatMap (·.text)) = .ok n' ∧ n = n'.shift d i := by
  have hinside := split_flatMap_text hsplit
  obtain ⟨n', hprogram, hn⟩ := h.exists_program
    ⟨Text.size (inside.flatMap (·.text)), Text.size (inside.flatMap (·.text))⟩
  refine ⟨n', Term.read_eq_ok_iff.2 ⟨fun s hs => ?_, ?_⟩, hn⟩
  · rw [hinside] at hs
    exact hclean s (by simp [hsplit, hs])
  · rw [Term.parse, ofTokens_append_eof (eof_not_mem_located 0 _), hinside]
    exact hprogram

/-- The span of a term is where its text is. -/
theorem read_slice_span {t : Text} {T n : Term} (hT : Term.read t = .ok T) (hn : n.Within T) :
    (∃ a ∈ (Token.lex t).tokens, a.kind ≠ .eof ∧ a.span.start = n.span.start) ∧
    (∃ b ∈ (Token.lex t).tokens, b.kind ≠ .eof ∧ b.span.stop = n.span.stop) ∧
    (∀ c ∈ n.children, n.span.Contains c.span) ∧ (∀ p ∈ n.params, n.span.Contains p.span) ∧
    ∃ m n' k, t.slice? n.span.start n.span.stop = some m ∧ Term.read m = .ok n' ∧
      n = n'.shift n.span.start k := by
  have hclean := (Term.read_eq_ok_iff.1 hT).1
  obtain ⟨ts, i, j, hts, hwritten⟩ := (part_of_read hT).within hn
  have horder := (inOrder_tokens 0 (split t)).mono hts
  have hspan := hwritten.span_eq horder
  have hlexed {a : Token} (ha : a ∈ ts) : a ∈ (Token.lex t).tokens ∧ a.kind ≠ .eof := by
    rw [lex_of_clean hclean]
    exact ⟨List.mem_append_left _ (hts.subset ha),
      token?_kind_ne_eof (isPartition_split t) a (hts.subset ha)⟩
  obtain ⟨a, ha, hstart⟩ := exists_start_eq hwritten.ne_nil
  obtain ⟨b, hb, hstop⟩ := exists_stop_eq hwritten.ne_nil
  refine ⟨⟨a, (hlexed ha).1, (hlexed ha).2, by rw [hspan, ← hstart]; rfl⟩,
    ⟨b, (hlexed hb).1, (hlexed hb).2, by rw [hspan, ← hstop]; rfl⟩, fun c hc => ?_,
    fun p hp => ?_, ?_⟩
  · obtain ⟨us, i', j', hus, hchild⟩ := hwritten.inside.child c hc
    rw [hspan, hchild.span_eq (horder.mono hus)]
    exact horder.contains_extent hus hchild.ne_nil
  · obtain ⟨us, hus, hne, hp⟩ := hwritten.inside.param p hp
    rw [hspan, hp]
    exact horder.contains_extent hus hne
  · obtain ⟨before, inside, after, hsplit, rfl, hextent⟩ := exists_inside hts hwritten.ne_nil
    obtain ⟨n', hread, hn'⟩ := read_of_inside hclean hsplit hwritten
    rw [hspan, hextent]
    refine ⟨_, n', i, Text.slice?_eq_some_iff.2 ?_, hread, hn'⟩
    refine ⟨before.flatMap (·.text), after.flatMap (·.text), ?_, rfl, rfl⟩
    rw [← (isPartition_split t).covers, hsplit]
    simp

/-- The callee of a call, with its parentheses and a comment in it. -/
theorem read_slice_span_callee : ∃ T n n' k,
    Term.read "x; (a /* é */ + y)(b)".toList = .ok T ∧ n.Within T ∧ n.span = ⟨3, 19⟩ ∧
      Term.read "(a /* é */ + y)".toList = .ok n' ∧ n = n'.shift 3 k := by
  let n : Term := .add ⟨3, ⟨3, 19⟩⟩ (.var ⟨1, ⟨4, 5⟩⟩ "a") (.var ⟨2, ⟨17, 18⟩⟩ "y")
  let call : Term := .call ⟨5, ⟨3, 22⟩⟩ n [.var ⟨4, ⟨20, 21⟩⟩ "b"]
  have hread : Term.read "x; (a /* é */ + y)(b)".toList =
      .ok (.seq ⟨6, ⟨0, 22⟩⟩ (.var ⟨0, ⟨0, 1⟩⟩ "x") call) := by
    with_unfolding_all rfl
  have hn : n.Within (.seq ⟨6, ⟨0, 22⟩⟩ (.var ⟨0, ⟨0, 1⟩⟩ "x") call) :=
    .child (c := call) (by simp [Term.children]) (.child (.head _) .refl)
  obtain ⟨m, n', k, hslice, hread', hshift⟩ := (read_slice_span hread hn).2.2.2.2
  have hcallee : Text.slice? "x; (a /* é */ + y)(b)".toList 3 19 =
      some "(a /* é */ + y)".toList := by
    decide +kernel
  obtain rfl := Option.some.inj (hcallee.symm.trans hslice)
  exact ⟨_, n, n', k, hread, hn, rfl, hread', hshift⟩

end ArrowLang
