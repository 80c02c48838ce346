import ArrowLang.Proofs.SourceText

/-!
# The limit on errors

The lexer gives up on a text with too many errors. What it returns then is what comes before: the
first errors, and the tokens that stop where the last of these starts or earlier. To say so, the
items of a scan are compared with one another by where they are in the text.
-/

namespace ArrowLang

open Segment

namespace Token

/-- The tokens of a text, up to and with its end, and all that went wrong on the way. -/
def lexAll (t : Text) : Lexed :=
  ⟨oks (scan t) ++ [⟨.eof, ⟨t.size, t.size⟩⟩], faults (scan t)⟩

theorem oks_append (l r : List (Except LexError Token)) : oks (l ++ r) = oks l ++ oks r :=
  List.filterMap_append

theorem oks_error_cons (e : LexError) (items : List (Except LexError Token)) :
    oks (.error e :: items) = oks items := rfl

/-! ## Where items are -/

/-- The span of a token or error. -/
def itemSpan : Except LexError Token → Span
  | .ok t => t.span
  | .error e => e.span

theorem itemSpan_of_ofSegment? {offset : Nat} {s : Segment} {x : Except LexError Token}
    (h : ofSegment? offset s = some x) : itemSpan x = ⟨offset, offset + s.text.size⟩ := by
  unfold ofSegment? at h
  split at h <;> cases h <;> rfl

theorem ok_mem_of_mem_oks {items : List (Except LexError Token)} {token : Token}
    (h : token ∈ oks items) : .ok token ∈ items := by
  obtain ⟨x, hx, htoken⟩ := List.mem_filterMap.1 h
  split at htoken <;> cases htoken
  exact hx

/-- An item is in the text of the segments, and it is not empty. -/
theorem bounds_of_mem_ofSegments {offset : Nat} {ss : List Segment} (hss : ∀ s ∈ ss, s.text ≠ [])
    {x : Except LexError Token} (hx : x ∈ ofSegments offset ss) :
    offset ≤ (itemSpan x).start ∧ (itemSpan x).start < (itemSpan x).stop ∧
      (itemSpan x).stop ≤ offset + size ss := by
  induction ss generalizing offset with
  | nil => cases hx
  | cons s ss ih =>
    rw [List.forall_mem_cons] at hss
    rw [size_cons]
    rcases List.mem_append.1 hx with hx | hx
    · obtain ⟨c, cs, htext⟩ := List.exists_cons_of_ne_nil hss.1
      have hpos := c.utf8Size_pos
      rw [itemSpan_of_ofSegment? (Option.mem_toList.1 hx), htext, Text.size_cons]
      simp only
      omega
    · have := ih hss.2 hx
      omega

/-- Each item stops before the next one starts. -/
theorem pairwise_ofSegments {ss : List Segment} (hss : ∀ s ∈ ss, s.text ≠ []) (offset : Nat) :
    (ofSegments offset ss).Pairwise fun x y => (itemSpan x).stop ≤ (itemSpan y).start := by
  induction ss generalizing offset with
  | nil => exact .nil
  | cons s ss ih =>
    rw [List.forall_mem_cons] at hss
    refine List.pairwise_append.2 ⟨?_, ih hss.2 _, fun x hx y hy => ?_⟩
    · cases ofSegment? offset s <;> simp
    · have := bounds_of_mem_ofSegments hss.2 hy
      rw [itemSpan_of_ofSegment? (Option.mem_toList.1 hx)]
      exact this.1

/-! ## Where the limit cuts -/

/-- The items up to error number `n`, which is the last of them. -/
theorem exists_upToErrors_eq {n : Nat} {items : List (Except LexError Token)} {e : LexError}
    (h : (faults items)[n]? = some e) :
    ∃ before after, items = before ++ .error e :: after ∧
      upToErrors (n + 1) items = before ++ [.error e] := by
  induction items generalizing n with
  | nil => cases h
  | cons x items ih =>
    cases x with
    | ok token =>
      obtain ⟨before, after, rfl, hcut⟩ := ih h
      exact ⟨.ok token :: before, after, rfl, by rw [upToErrors, hcut]; rfl⟩
    | error e' =>
      cases n with
      | zero =>
        obtain rfl : e' = e := Option.some.inj h
        exact ⟨[], items, rfl, by rw [upToErrors, upToErrors]; rfl⟩
      | succ n =>
        obtain ⟨before, after, rfl, hcut⟩ := ih h
        exact ⟨.error e' :: before, after, rfl, by rw [upToErrors, hcut]; rfl⟩

/-- Among items in order, the tokens that stop no later than an error starts are those before it. -/
theorem filter_oks_of_pairwise {before after : List (Except LexError Token)} {e : LexError}
    (horder : (before ++ .error e :: after).Pairwise
      fun x y => (itemSpan x).stop ≤ (itemSpan y).start)
    (hitems : ∀ x ∈ before ++ .error e :: after, (itemSpan x).start < (itemSpan x).stop) :
    (oks (before ++ .error e :: after)).filter (·.span.stop ≤ e.span.start) = oks before := by
  obtain ⟨-, hafter, hbefore⟩ := List.pairwise_append.1 horder
  have hkept : (oks before).filter (·.span.stop ≤ e.span.start) = oks before := by
    refine List.filter_eq_self.2 fun token htoken => ?_
    have hstop : token.span.stop ≤ e.span.start :=
      hbefore _ (ok_mem_of_mem_oks htoken) _ List.mem_cons_self
    simpa using hstop
  have hdropped : (oks after).filter (·.span.stop ≤ e.span.start) = [] := by
    refine List.filter_eq_nil_iff.2 fun token htoken => ?_
    have hmem := ok_mem_of_mem_oks htoken
    have hstart : e.span.stop ≤ token.span.start := List.rel_of_pairwise_cons hafter hmem
    have he : e.span.start < e.span.stop := hitems (.error e) (by simp)
    have htoken : token.span.start < token.span.stop := hitems (.ok token) (by simp [hmem])
    simp only [decide_eq_true_eq]
    omega
  rw [oks_append, oks_error_cons, List.filter_append, hkept, hdropped, List.append_nil]

theorem lex_eq_lexAll {t : Text} (h : (lexAll t).errors.length < errorLimit) :
    lex t = lexAll t := by
  have hfew : (faults (upToErrors errorLimit (scan t))).length < errorLimit := by
    rw [faults_upToErrors]
    exact Nat.lt_of_le_of_lt (List.length_take_le' _ _) h
  rw [lex_eq, upToErrors_eq_self hfew, lexAll]

/-- The tokens up to the last error that is reported. -/
theorem tokens_lex_of_error {t : Text} {n : Nat} (hn : n + 1 = errorLimit) {e : LexError}
    (h : (lexAll t).errors[n]? = some e) :
    (lex t).tokens = (lexAll t).tokens.filter (·.span.stop ≤ e.span.start) ++
      [⟨.eof, ⟨t.size, t.size⟩⟩] := by
  have hne : ∀ s ∈ split t, s.text ≠ [] := by
    intro s hs
    obtain ⟨before, after, hsplit⟩ := List.append_of_mem hs
    exact ((isPartition_split t).2 before s after hsplit).1
  have hsize : size (split t) = t.size := congrArg Text.size (isPartition_split t).covers
  have hbounds : ∀ x ∈ scan t, _ := fun x hx => bounds_of_mem_ofSegments hne hx
  have horder := pairwise_ofSegments hne 0
  obtain ⟨before, after, hscan, hcut⟩ := exists_upToErrors_eq h
  -- the end of the text is behind the error
  have hend : ¬ t.size ≤ e.span.start := by
    have := hbounds (.error e) (by simp [hscan])
    simp only [itemSpan] at this
    omega
  have htokens : (oks (scan t)).filter (·.span.stop ≤ e.span.start) = oks before := by
    rw [hscan]
    exact filter_oks_of_pairwise (hscan ▸ horder) (hscan ▸ fun x hx => (hbounds x hx).2.1)
  have hlast : ([⟨.eof, ⟨t.size, t.size⟩⟩] : List Token).filter
      (·.span.stop ≤ e.span.start) = [] := by
    simp [hend]
  have hlexed : oks (before ++ [.error e]) = oks before := by
    rw [oks_append]
    exact List.append_nil _
  rw [lex_eq, ← hn, hcut, lexAll, hlexed, List.filter_append, htokens, hlast, List.append_nil]

/-- The limit of twenty errors only cuts off: with fewer errors all tokens and errors are there, and
else the first twenty errors and the tokens that stop before the twentieth. -/
theorem lex_only_truncates (t : Text) :
    ((lexAll t).errors.length < 20 → lex t = lexAll t) ∧
    (20 ≤ (lexAll t).errors.length → ∃ e, (lexAll t).errors[19]? = some e ∧
      (lex t).errors = (lexAll t).errors.take 20 ∧
      (lex t).tokens = (lexAll t).tokens.filter (·.span.stop ≤ e.span.start) ++
        [⟨.eof, ⟨t.size, t.size⟩⟩]) ∧
    ((lex t).errors = [] ↔ (lexAll t).errors = []) := by
  have herrors : (lex t).errors = (lexAll t).errors.take 20 := by
    rw [lex_eq, lexAll, faults_upToErrors]
    rfl
  refine ⟨lex_eq_lexAll, fun h => ?_, ?_⟩
  · have he := List.getElem?_eq_getElem h
    exact ⟨_, he, herrors, tokens_lex_of_error rfl he⟩
  · rw [herrors, List.take_eq_nil_iff]
    simp

/-- The twentieth error is the numeral, so `c` and the error after it are cut off, but not `b`. -/
theorem lex_only_truncates_numeral :
    let t : Text := "a @@@@@@@@@@@@@@@@@@@ b 1e999c @".toList
    20 ≤ (lexAll t).errors.length ∧ (lexAll t).tokens.length = 4 ∧
    (∃ e, (lexAll t).errors[19]? = some e ∧ (lex t).errors = (lexAll t).errors.take 20 ∧
      (lex t).tokens = (lexAll t).tokens.filter (·.span.stop ≤ e.span.start) ++
        [⟨.eof, ⟨t.size, t.size⟩⟩]) ∧
    (lex t).tokens.map (·.kind) = [.ident "a", .ident "b", .eof] := by
  intro t
  have hmany : 20 ≤ (lexAll t).errors.length := by decide +kernel
  exact ⟨hmany, by decide +kernel, (lex_only_truncates t).2.1 hmany, by decide +kernel⟩

end Token

end ArrowLang
