import ArrowLang.Proofs.Tape.Follows

/-!
# The first end of file

Any list of tokens will do for a parser by position: an empty one, one without an end of file, one
with several. However often the parser is called, it comes to an answer, and what is behind the
first end of file has no part in it.
-/

namespace ArrowLang

open Cursor Outcome Grammar

namespace Tape

variable {tokens : List Token}

/-! ## The start of a tape -/

/-- The token that ends the file: the first end of file, or else one where the last token stops. -/
def endOfFile (tokens : List Token) : Token :=
  let stop := (tokens.getLast?.map (·.span.stop)).getD 0
  (tokens.find? (·.kind == .eof)).getD ⟨.eof, ⟨stop, stop⟩⟩

/-- A list of tokens has no end of file, or it has a first one. -/
theorem append_eof_cases (tokens : List Token) :
    .eof ∉ tokens.map (·.kind) ∨ ∃ before a after,
      tokens = before ++ ⟨.eof, a⟩ :: after ∧ .eof ∉ before.map (·.kind) := by
  cases hfind : tokens.find? (·.kind == .eof) with
  | none => exact .inl (by simpa using hfind)
  | some t =>
    obtain ⟨ht, before, after, rfl, hbefore⟩ := List.find?_eq_some_iff_append.1 hfind
    obtain ⟨k, a⟩ := t
    obtain rfl : k = .eof := by simpa using ht
    exact .inr ⟨before, a, after, rfl, by simpa using hbefore⟩

/-- What is given stays in its place. -/
theorem exists_tokens_eq_append (tokens : List Token) :
    ∃ added, (ofTokens tokens).tokens = tokens ++ added := by
  unfold ofTokens
  split
  · exact ⟨[], by simp⟩
  · exact ⟨_, rfl⟩

/-- A missing end of file is added. -/
theorem tokens_of_eof_not_mem (h : .eof ∉ tokens.map (·.kind)) :
    (ofTokens tokens).tokens = tokens ++ [endOfFile tokens] := by
  unfold ofTokens endOfFile
  rw [find?_eof_eq_none h]
  split
  · rename_i a hlast
    exact absurd (List.mem_map_of_mem (List.mem_of_getLast? hlast)) h
  · rfl

/-- The tokens before the one that ends the file are ahead of the first cursor. -/
theorem exists_tokens_eq (tokens : List Token) : ∃ before a after,
    (ofTokens tokens).tokens = before ++ ⟨.eof, a⟩ :: after ∧ (∀ t ∈ before, t.kind ≠ .eof) ∧
    endOfFile tokens = ⟨.eof, a⟩ ∧ firstEof tokens = before.length ∧
    Cursor.ofTokens tokens = ⟨before, a, 0⟩ := by
  rcases append_eof_cases tokens with h | ⟨before, a, after, rfl, h⟩
  · have hnone := find?_eof_eq_none h
    have hne : ∀ t ∈ tokens, t.kind ≠ .eof := by simpa using h
    have hend : endOfFile tokens = ⟨.eof, (endOfFile tokens).span⟩ := by simp [endOfFile, hnone]
    have hall := takeWhile_append_of_eof_not_mem h []
    refine ⟨tokens, (endOfFile tokens).span, [], ?_, hne, hend, firstEof_eq_length hne, ?_⟩
    · rw [← hend]
      exact tokens_of_eof_not_mem h
    · simpa [Cursor.ofTokens, endOfFile, hnone] using hall
  · have hne : ∀ t ∈ before, t.kind ≠ .eof := by simpa using h
    obtain ⟨added, hadded⟩ := exists_tokens_eq_append (before ++ ⟨.eof, a⟩ :: after)
    refine ⟨before, a, after ++ added, by simpa using hadded, hne, ?_, firstEof_append hne,
      ofTokens_append_eof h a _⟩
    simp [endOfFile, find?_eof_eq_none h]

theorem left_ofTokens (tokens : List Token) : (Cursor.ofTokens tokens).left = firstEof tokens := by
  obtain ⟨before, a, after, -, -, -, hfirst, hcursor⟩ := exists_tokens_eq tokens
  rw [hcursor, hfirst, left]

theorem firstEof_ofTokens (tokens : List Token) :
    firstEof (ofTokens tokens).tokens = firstEof tokens := by
  obtain ⟨before, a, after, htokens, hne, -, hfirst, -⟩ := exists_tokens_eq tokens
  rw [htokens, firstEof_append hne, hfirst]

theorem getElem?_firstEof (tokens : List Token) :
    (ofTokens tokens).tokens[firstEof tokens]? = some (endOfFile tokens) := by
  obtain ⟨before, a, after, htokens, -, hend, hfirst, -⟩ := exists_tokens_eq tokens
  simp [htokens, hfirst, hend]

theorem ofTokens_on (tokens : List Token) :
    (Cursor.ofTokens tokens).On (ofTokens tokens).tokens := by
  obtain ⟨before, a, after, htokens, hne, -, -, hcursor⟩ := exists_tokens_eq tokens
  rw [hcursor, htokens]
  exact ⟨[], after, rfl, hne⟩

theorem tape_ofTokens (tokens : List Token) :
    (Cursor.ofTokens tokens).tape (ofTokens tokens).tokens = ofTokens tokens := by
  rw [tape, firstEof_ofTokens, left_ofTokens, Nat.sub_self]
  rfl

/-- The first cursor is the same without what is behind the first end of file. -/
theorem ofTokens_take (tokens : List Token) :
    Cursor.ofTokens (tokens.take (firstEof tokens + 1)) = Cursor.ofTokens tokens := by
  rcases append_eof_cases tokens with h | ⟨before, a, after, rfl, h⟩
  · rw [firstEof_eq_length (by simpa using h), List.take_of_length_le (Nat.le_succ _)]
  · have htake : (before ++ ⟨.eof, a⟩ :: after).take (before.length + 1) =
        before ++ [⟨.eof, a⟩] := by
      simp [List.take_append, List.take_of_length_le (Nat.le_succ _)]
    rw [firstEof_append (by simpa using h), htake, ofTokens_append_eof h, ofTokens_append_eof h]

/-! ## One parser asked again and again -/

theorem ofCall_runs {depth : Nat} {c : Cursor} (h : c.On tokens) (hdepth : 5 * c.left + 3 < depth)
    (call : Parse.Call) : Runs tokens (ofCall depth call) c (call.outcome c).reading := by
  cases call with
  | program => exact program_runs h hdepth
  | expr => exact exprAt_runs h (Nat.zero_le _) (by omega)

/-- An answer of the parser with a cursor, its places as those on a tape. -/
def Answer.ofCursor (tokens : List Token) (a : Parse.Answer) : Answer :=
  ⟨a.start.tape tokens, a.outcome.result, a.outcome.rest.tape tokens⟩

/-- From the same place the answers are the same, by induction on the calls: each leaves the tape at
the place where it leaves the cursor. -/
theorem answers_of_on {depth : Nat} {c : Cursor} (h : c.On tokens) (hdepth : 5 * c.left + 3 < depth)
    (calls : List Parse.Call) : answers depth (c.tape tokens) calls =
      some ((Parse.answers c calls).map (.ofCursor tokens)) := by
  induction calls generalizing c with
  | nil => rfl
  | cons call calls ih =>
    obtain ⟨heq, hon⟩ := ofCall_runs h hdepth call
    have hle : (call.outcome c).reading.rest.left ≤ c.left := (call.outcome c).left_le
    rw [answers, heq, Option.bind_some]
    dsimp only
    rw [ih hon (by omega)]
    rfl

theorem answers_ofTokens {depth : Nat} (h : 5 * firstEof tokens + 4 ≤ depth)
    (calls : List Parse.Call) : answers depth (ofTokens tokens) calls =
      some ((Parse.answers (.ofTokens tokens) calls).map (.ofCursor (ofTokens tokens).tokens)) := by
  have hleft := left_ofTokens tokens
  have hdepth : 5 * (Cursor.ofTokens tokens).left + 3 < depth := by omega
  have hanswers := answers_of_on (ofTokens_on tokens) hdepth calls
  rwa [tape_ofTokens] at hanswers

/-- However one parser by position is called, and whatever the tokens, it has answers, the same at
all depths from a bound on that grows with the distance to the first end of file, and they are those
of the parser with a cursor. No call goes back or past the first end of file, a missing one being
added, and one that returns a term goes on. Without the tokens behind the first end of file the
results are the same. -/
theorem answers_stop_at_first_eof (tokens : List Token) (calls : List Parse.Call) :
    (ofTokens tokens).tokens[firstEof tokens]? = some (endOfFile tokens) ∧ ∃ found,
      (∀ depth, 5 * firstEof tokens + 4 ≤ depth →
        answers depth (ofTokens tokens) calls = some found) ∧
      found.map (·.result) = (Parse.answers (.ofTokens tokens) calls).map (·.outcome.result) ∧
      (∀ a ∈ found, a.start.pos ≤ a.rest.pos ∧ a.rest.pos ≤ firstEof tokens ∧
        ∀ t, a.result = .ok t → a.start.pos < a.rest.pos) ∧
      ∀ depth, 5 * firstEof tokens + 4 ≤ depth →
        (answers depth (ofTokens (tokens.take (firstEof tokens + 1))) calls).map
          (·.map (·.result)) = some (found.map (·.result)) := by
  refine ⟨getElem?_firstEof tokens, _, fun depth h => answers_ofTokens h calls, ?_, ?_, ?_⟩
  · simp [Answer.ofCursor]
  · intro a ha
    obtain ⟨b, hb, rfl⟩ := List.mem_map.1 ha
    obtain ⟨call, q, rfl, hq⟩ := Parse.exists_call_of_mem_answers hb
    have hfirst := firstEof_ofTokens tokens
    have hleft := left_ofTokens tokens
    have hqle := hq.left_le
    have hle := (call.outcome q).left_le
    simp only [Answer.ofCursor, tape]
    refine ⟨by omega, by omega, fun t ht => ?_⟩
    have hlt := Parse.Call.left_lt ht
    omega
  · intro depth h
    have hcut : firstEof (tokens.take (firstEof tokens + 1)) = firstEof tokens := by
      rw [← left_ofTokens, ofTokens_take, left_ofTokens]
    rw [answers_ofTokens (by rwa [hcut]), ofTokens_take]
    simp [Answer.ofCursor]

/-- In `x` and `+ y` with an end of file between them, all calls stop at that. -/
example :
    let tokens : List Token := [⟨.ident "x", ⟨0, 1⟩⟩, ⟨.eof, ⟨1, 1⟩⟩, ⟨.plus, ⟨2, 3⟩⟩,
      ⟨.ident "y", ⟨4, 5⟩⟩]
    (answers 9 (ofTokens tokens) [.expr, .expr, .program]).map (·.map (·.rest.pos)) =
      some [1, 1, 1] := by
  decide

end Tape

end ArrowLang
