import ArrowLang.Diagnostic
import ArrowLang.Proofs.Grammar.Replace
import ArrowLang.Proofs.SourceText

/-!
# Edits of a source text

A suggestion is carried out by putting its replacement in the place of its span. Where the span is
that of a variable and the replacement a name, the new text is again read as a term, and it is the
old one but for the name of that variable (`read_replace`).
-/

namespace ArrowLang

open Written Segment

/-! ## Replaced spans -/

/-- The text with the replacement in the place of the span, if the span starts and stops where two
characters meet. -/
def Suggestion.edit? (s : Suggestion) (t : Text) : Option Text :=
  if s.span.start ≤ s.span.stop then
    (t.cut? s.span.start).bind fun front =>
      (t.cut? s.span.stop).map fun back => front.1 ++ s.replacement.toList ++ back.2
  else none

theorem Suggestion.edit?_append (a m b : Text) (x : String) :
    Suggestion.edit? ⟨⟨a.size, a.size + m.size⟩, x⟩ (a ++ m ++ b) = some (a ++ x.toList ++ b) := by
  have hfront : (a ++ m ++ b).cut? a.size = some (a, m ++ b) :=
    Text.cut?_eq_some_iff.2 ⟨by simp, rfl⟩
  have hback : (a ++ m ++ b).cut? (a.size + m.size) = some (a ++ m, b) :=
    Text.cut?_eq_some_iff.2 ⟨rfl, by simp⟩
  rw [edit?, if_pos (by simp), hfront, Option.bind_some, hback, Option.map_some]

/-! ## Names of tokens -/

theorem isName_of_lexeme {s : Segment} {y : Text} {x : String} (h : Lexeme s y)
    (hs : s.kind = .token (.ident x)) : isName x = true := by
  cases h with
  | matched hwins hmade =>
    cases hmade with
    | name =>
      cases hs
      obtain ⟨c, cs, hc, hcs, rfl⟩ := mem_charIn_mul.1 hwins.matched
      -- a keyword would have been found first
      have hkeyword (kind : Token.Kind) (w : String) (hw : (kind, w.toList) ∈ spellings) :
          String.ofList (c :: cs) ≠ w := by
        rintro rfl
        rw [String.toList_ofList] at hw
        rcases hwins.first (.fixed kind) hw with h | h <;> cases h
      have hpart : ∀ d ∈ cs, isNamePart d = true := mem_charIn_kstar.1 hcs
      have hstart : isNamePart c = true := by simp [isNamePart, hc]
      have hnone : String.ofList (c :: cs) ∉ ["const", "true", "false"] := by
        simp only [List.mem_cons, List.not_mem_nil, or_false, not_or]
        exact ⟨hkeyword .const _ (by decide), hkeyword (.bool true) _ (by decide),
          hkeyword (.bool false) _ (by decide)⟩
      simp only [isName, String.toList_ofList, List.head?_cons, Option.any_some, List.all_cons, hc,
        hstart, List.all_eq_true.2 hpart, Bool.true_and, Bool.not_eq_true']
      simpa using hnone
    | fixed =>
      cases hs
      have hnone : ∀ p ∈ spellings, p.1 ≠ .ident x := by simp [spellings]
      exact absurd rfl (hnone _ hwins.matched)
    | blank | lineComment | blockComment | number | overRange => cases hs
  | unexpected => cases hs

/-- A name among the tokens of a text is one that a program can use. -/
theorem isName_of_mem_tokens {t : Text} {x : String} {a : Span}
    (h : ⟨.ident x, a⟩ ∈ tokens 0 (split t)) : isName x = true := by
  obtain ⟨us, vs, htokens⟩ := List.append_of_mem h
  obtain ⟨before, s, after, hsplit, -, htoken⟩ := exists_of_tokens_eq htokens
  have hlexeme := ((isPartition_split t).lexeme before s after hsplit).2
  refine isName_of_lexeme hlexeme ?_
  unfold token? at htoken
  split at htoken
  · rename_i kind hkind
    cases htoken
    exact hkind
  · cases htoken

/-! ## Separators around tokens -/

theorem tokens_singleton {s : Segment} {kind : Token.Kind} (h : s.kind = .token kind)
    (offset : Nat) : tokens offset [s] = [⟨kind, ⟨offset, offset + s.text.size⟩⟩] := by
  simp [tokens, located, token?, h]

/-- Next to a mark, with blanks and comments at most between, there are separators only. -/
theorem separates_of_getLast? {offset : Nat} {ss : List Segment}
    (h : ∀ a ∈ (tokens offset ss).getLast?, a.kind.isMark = true) :
    ∀ s ∈ ss.getLast?, s.Separates := by
  intro s hs kind hkind
  obtain ⟨front, rfl⟩ := List.getLast?_eq_some_iff.1 hs
  rw [tokens_append, tokens_singleton hkind] at h
  exact h _ List.getLast?_concat

theorem separates_of_head? {offset : Nat} {ss : List Segment}
    (h : ∀ a ∈ (tokens offset ss).head?, a.kind.isMark = true) :
    ∀ s ∈ ss.head?, s.Separates := by
  intro s hs kind hkind
  obtain ⟨rest, rfl⟩ := List.head?_eq_some_iff.1 hs
  rw [← List.singleton_append, tokens_append, tokens_singleton hkind] at h
  exact h _ rfl

/-! ## The new text -/

theorem map_kind_tokens (offset offset' : Nat) (ss : List Segment) :
    (tokens offset ss).map (·.kind) = (tokens offset' ss).map (·.kind) := by
  have hzero (offset : Nat) : (tokens offset ss).map (·.kind) = (tokens 0 ss).map (·.kind) := by
    rw [← Nat.zero_add offset, tokens_shift, List.map_map]
    rfl
  rw [hzero, hzero offset']

/-- The kinds of its tokens say how a text is read, but for spans. -/
theorem read_of_kinds {t : Text} (hclean : ∀ s ∈ split t, s.Clean) {us vs : List Token} {U : Term}
    {k : Nat} (hU : Statements 0 us U k) (hvs : Trailing vs)
    (hkinds : (tokens 0 (split t)).map (·.kind) = (us ++ vs).map (·.kind)) :
    ∃ T, Term.read t = .ok T ∧ U.Like (fun _ => Eq) T := by
  obtain ⟨us', vs', T, k', htokens, hvs', hT, hshape⟩ := (hU.shape hvs).written hkinds 0
  exact ⟨T, read_eq_ok_iff_written.2 ⟨hclean, us', vs', k', htokens, hvs', hT⟩,
    .of_counts hshape.symm hU.counts hT.counts⟩

theorem Written.Trailing.isMark_head? {vs : List Token} (h : Trailing vs) :
    ∀ a ∈ vs.head?, a.kind.isMark = true := by
  obtain rfl | ⟨b, rfl⟩ := h <;> simp [Token.Kind.isMark]

/-- A name in the place of a variable, with its parentheses, is read as that variable. -/
theorem read_replace {t : Text} {T v : Term} {x y : String} (hT : Term.read t = .ok T)
    (hv : v.Within T) (hx : v.head = .var x) (hy : isName y = true) :
    ∃ t' T' U, Suggestion.edit? ⟨v.span, y⟩ t = some t' ∧ Term.read t' = .ok T' ∧
      T.Edit v.id y U ∧ U.Like (fun _ => Eq) T' := by
  obtain ⟨hclean, us, vs, k, htokens, hvs, hwritten⟩ := read_eq_ok_iff_written.1 hT
  obtain ⟨front, ws, back, rfl, hhole⟩ := hwritten.replaceable hx hv
  obtain ⟨i, j, hws⟩ := hhole.written
  have hspan : v.span = extent ws := by
    refine hws.span_eq ((inOrder_tokens 0 (split t)).mono ⟨front, back ++ vs, ?_⟩)
    rw [htokens, List.append_assoc _ back]
  rw [List.append_assoc] at htokens
  obtain ⟨before, s, rest, after, kind, hsplit, hkind, hfront, -, hback, hextent⟩ :=
    exists_segments htokens hws.ne_nil
  have hafter := isMark_head?_append hhole.mark_after hvs.isMark_head?
  -- the new text falls into the segments before and after, with the name between them
  have hnew := split_replace hsplit hclean hkind
    (separates_of_getLast? (hfront ▸ hhole.mark_before)) (separates_of_head? (hback ▸ hafter)) hy
  have hclean' : ∀ s' ∈ split (before.flatMap (·.text) ++ y.toList ++ after.flatMap (·.text)),
      s'.Clean := by
    intro s' hs'
    rw [hnew, List.mem_append, List.mem_cons] at hs'
    rcases hs' with hs' | rfl | hs'
    · exact hclean s' (by simp [hsplit, hs'])
    · simp [Clean]
    · exact hclean s' (by simp [hsplit, hs'])
  obtain ⟨U, hU, hedit⟩ := hhole.fill y ⟨0, 0⟩
  obtain ⟨T', hT', hlike⟩ := read_of_kinds hclean' hU hvs (by
    rw [hnew, tokens_append, ← List.singleton_append, tokens_append, tokens_singleton rfl, hfront,
      List.map_append, List.map_append, map_kind_tokens _ (size before + size (s :: rest)), hback]
    simp)
  refine ⟨_, T', U, ?_, hT', hedit, hlike⟩
  rw [hspan, hextent, ← (isPartition_split t).covers, hsplit, List.flatMap_append,
    List.flatMap_append]
  exact Suggestion.edit?_append _ _ _ y

end ArrowLang
