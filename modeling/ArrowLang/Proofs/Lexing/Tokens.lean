import ArrowLang.Program
import ArrowLang.Proofs.Lexing.Partition

/-!
# Tokens and errors by segments

As long as a text has few errors, its tokens and errors are those of its segments, each with the
span of its segment. No token of a segment is the end of the file.
-/

namespace ArrowLang

open Segment

namespace Segment

/-- The segments with their spans, the first at `offset`. -/
def located (offset : Nat) : List Segment → List (Segment × Span)
  | [] => []
  | s :: ss => (s, ⟨offset, offset + s.text.size⟩) :: located (offset + s.text.size) ss

/-- The token that a segment is, if it is one. -/
def token? (s : Segment × Span) : Option Token :=
  match s.1.kind with
  | .token kind => some ⟨kind, s.2⟩
  | _ => none

/-- The error that a segment is, if it is one. -/
def error? (s : Segment × Span) : Option LexError :=
  match s.1.kind with
  | .overRange => some ⟨.invalidNumber, s.2⟩
  | .unexpected c => some ⟨.unexpectedChar c, s.2⟩
  | _ => none

end Segment

namespace Token

/-- The tokens among the items of a scan. -/
def oks (items : List (Except LexError Token)) : List Token :=
  items.filterMap fun
    | .ok token => some token
    | .error _ => none

/-- The errors among the items of a scan. -/
def faults (items : List (Except LexError Token)) : List LexError :=
  items.filterMap fun
    | .ok _ => none
    | .error e => some e

theorem lex_eq (t : Text) :
    lex t = ⟨oks (upToErrors errorLimit (scan t)) ++ [⟨.eof, ⟨t.size, t.size⟩⟩],
      faults (upToErrors errorLimit (scan t))⟩ := rfl

theorem oks_ofSegments (offset : Nat) (segments : List Segment) :
    oks (ofSegments offset segments) = (located offset segments).filterMap token? := by
  induction segments generalizing offset with
  | nil => rfl
  | cons s ss ih =>
    obtain ⟨kind, text⟩ := s
    have := ih (offset + text.size)
    simp only [oks] at this
    cases kind <;>
      simp [oks, ofSegments, ofSegment?, located, token?, List.filterMap_cons, this]

theorem faults_ofSegments (offset : Nat) (segments : List Segment) :
    faults (ofSegments offset segments) = (located offset segments).filterMap error? := by
  induction segments generalizing offset with
  | nil => rfl
  | cons s ss ih =>
    obtain ⟨kind, text⟩ := s
    have := ih (offset + text.size)
    simp only [faults] at this
    cases kind <;>
      simp [faults, ofSegments, ofSegment?, located, error?, List.filterMap_cons, this]

/-- A limit that is not reached cuts nothing off. -/
theorem upToErrors_eq_self {limit : Nat} {items : List (Except LexError Token)}
    (h : (faults (upToErrors limit items)).length < limit) : upToErrors limit items = items := by
  fun_induction upToErrors limit items with
  | case1 => simp at h
  | case2 => rfl
  | case3 limit token items ih => rw [ih h]
  | case4 limit e items ih =>
    rw [ih]
    simpa [faults] using h

/-- The limit on errors only cuts off later ones. -/
theorem faults_upToErrors (limit : Nat) (items : List (Except LexError Token)) :
    faults (upToErrors limit items) = (faults items).take limit := by
  fun_induction upToErrors limit items with
  | case1 items => rfl
  | case2 => rfl
  | case3 limit token items ih => exact ih
  | case4 limit e items ih => exact congrArg (e :: ·) ih

theorem upToErrors_of_faults_nil {limit : Nat} {items : List (Except LexError Token)}
    (hlimit : 0 < limit) (h : faults items = []) : upToErrors limit items = items := by
  refine upToErrors_eq_self ?_
  rw [faults_upToErrors, h, List.take_nil]
  exact hlimit

end Token

theorem Lexeme.kind_ne_eof {s : Segment} {y : Text} (h : Lexeme s y) : s.kind ≠ .token .eof := by
  have hspelled : ∀ p ∈ spellings, p.1 ≠ .eof := by decide
  cases h with
  | unexpected => simp
  | matched hwins hmade =>
    cases hmade with
    | fixed => simpa using hspelled _ hwins.matched
    | _ => simp

theorem token?_kind_ne_eof {t : Text} {offset : Nat} {segments : List Segment}
    (h : IsPartition segments t) :
    ∀ token ∈ (located offset segments).filterMap token?, token.kind ≠ .eof := by
  induction segments generalizing t offset with
  | nil => simp [located]
  | cons s ss ih =>
    obtain ⟨rest, -, -, hlexeme, hrest⟩ := isPartition_cons.1 h
    intro token hmem
    rw [located, List.filterMap_cons] at hmem
    split at hmem
    · exact ih hrest token hmem
    · rename_i token' htoken
      rcases List.mem_cons.1 hmem with rfl | hmem
      · unfold token? at htoken
        split at htoken
        · rename_i kind hkind
          cases htoken
          rintro rfl
          exact hlexeme.kind_ne_eof hkind
        · cases htoken
      · exact ih hrest token hmem

theorem eof_not_mem_located (offset : Nat) (t : Text) :
    .eof ∉ ((located offset (split t)).filterMap token?).map (·.kind) := by
  intro h
  obtain ⟨token, hmem, hkind⟩ := List.mem_map.1 h
  exact token?_kind_ne_eof (isPartition_split t) token hmem hkind

/-- A text with fewer errors than the limit falls into segments in exactly one way, and its tokens
and errors are those of its segments, up to the end of the file. -/
theorem lex_eq_of_partition (t : Text) (h : (Token.lex t).errors.length < 20) :
    ∃ segments, IsPartition segments t ∧
      (∀ segments', IsPartition segments' t → segments' = segments) ∧
      (Token.lex t).tokens =
        (located 0 segments).filterMap token? ++ [⟨.eof, ⟨t.size, t.size⟩⟩] ∧
      (Token.lex t).errors = (located 0 segments).filterMap error? ∧
      ∀ token ∈ (located 0 segments).filterMap token?, token.kind ≠ .eof := by
  have hsplit := isPartition_split t
  have hitems := Token.upToErrors_eq_self h
  refine ⟨split t, hsplit, fun _ h' => h'.eq_split, ?_, ?_, token?_kind_ne_eof hsplit⟩
  · rw [Token.lex_eq, hitems, Token.scan, Token.oks_ofSegments]
  · rw [Token.lex_eq, hitems, Token.scan, Token.faults_ofSegments]

/-- The first numeral is just over range, the point is no part of the second, and the comment has no
end. -/
theorem lex_eq_of_partition_point :
    ∃ segments, IsPartition segments "1.7976931348623159e308 1.x/* /* */ é".toList ∧
      ⟨.overRange, "1.7976931348623159e308".toList⟩ ∈ segments ∧
      (Token.lex "1.7976931348623159e308 1.x/* /* */ é".toList).errors =
        (located 0 segments).filterMap error? ∧
      (located 0 segments).filterMap error? =
        [⟨.invalidNumber, ⟨0, 22⟩⟩, ⟨.unexpectedChar '.', ⟨24, 25⟩⟩] := by
  have herrors : (Token.lex "1.7976931348623159e308 1.x/* /* */ é".toList).errors =
      [⟨.invalidNumber, ⟨0, 22⟩⟩, ⟨.unexpectedChar '.', ⟨24, 25⟩⟩] := by
    decide +kernel
  obtain ⟨segments, hpartition, -, -, hsegments, -⟩ :=
    lex_eq_of_partition "1.7976931348623159e308 1.x/* /* */ é".toList (by rw [herrors]; decide)
  refine ⟨segments, hpartition, ?_, hsegments, hsegments.symm.trans herrors⟩
  rw [hpartition.eq_split]
  decide +kernel

/-! ## Texts without errors -/

/-- The segment is no error. -/
def Segment.Clean (s : Segment) : Prop := s.kind ≠ .overRange ∧ ∀ c, s.kind ≠ .unexpected c

theorem Segment.error?_eq_none_iff {s : Segment × Span} : error? s = none ↔ s.1.Clean := by
  unfold error? Clean
  cases s.1.kind <;> simp

theorem Segment.map_fst_located (offset : Nat) (segments : List Segment) :
    (located offset segments).map Prod.fst = segments := by
  induction segments generalizing offset with
  | nil => rfl
  | cons s ss ih => simp [located, ih]

theorem Segment.filterMap_error?_eq_nil_iff {offset : Nat} {segments : List Segment} :
    (located offset segments).filterMap error? = [] ↔ ∀ s ∈ segments, s.Clean := by
  conv_rhs => rw [← map_fst_located offset segments]
  simp only [List.filterMap_eq_nil_iff, error?_eq_none_iff, List.forall_mem_map]

theorem clean_of_lex {t : Text} (h : (Token.lex t).errors = []) : ∀ s ∈ split t, s.Clean := by
  have hitems := Token.upToErrors_eq_self (show (Token.lex t).errors.length < 20 by simp [h])
  rw [Token.lex_eq, hitems, Token.scan, Token.faults_ofSegments] at h
  exact filterMap_error?_eq_nil_iff.1 h

theorem lex_of_clean {t : Text} (h : ∀ s ∈ split t, s.Clean) :
    Token.lex t =
      ⟨(located 0 (split t)).filterMap token? ++ [⟨.eof, ⟨t.size, t.size⟩⟩], []⟩ := by
  have hfaults : Token.faults (Token.scan t) = [] := by
    rw [Token.scan, Token.faults_ofSegments]
    exact filterMap_error?_eq_nil_iff.2 h
  have hitems := Token.upToErrors_of_faults_nil (by decide : 0 < Token.errorLimit) hfaults
  rw [Token.lex_eq, hitems, hfaults, Token.scan, Token.oks_ofSegments]

/-- A text is a term if its segments are no errors and its tokens parse. -/
theorem Term.read_eq_ok_iff {t : Text} {T : Term} :
    Term.read t = .ok T ↔ (∀ s ∈ split t, s.Clean) ∧
      Term.parse ((located 0 (split t)).filterMap token? ++ [⟨.eof, ⟨t.size, t.size⟩⟩]) =
        .ok T := by
  constructor
  · intro h
    have hclean : ∀ s ∈ split t, s.Clean := by
      refine clean_of_lex ?_
      cases herrors : (Token.lex t).errors with
      | nil => rfl
      | cons => simp [Term.read, herrors] at h
    refine ⟨hclean, ?_⟩
    rw [Term.read, lex_of_clean hclean] at h
    simp only at h
    split at h
    · rename_i hparse
      cases h
      exact hparse
    · cases h
  · rintro ⟨hclean, hparse⟩
    rw [Term.read, lex_of_clean hclean]
    simp only [hparse]

end ArrowLang
