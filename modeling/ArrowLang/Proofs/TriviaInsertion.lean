import Mathlib.Logic.Relation
import ArrowLang.Proofs.Grammar.Kinds
import ArrowLang.Proofs.Lexing.Trivia
import ArrowLang.Proofs.SourceText

/-!
# Trivia never matters

Blanks and comments may be added to a program next to any of its tokens. The tokens stay of the same
kinds, so the program is read as the same term, and the check of the term comes to the same
(`trivia_never_matters`).
-/

namespace ArrowLang

open Segment

/-- The second text is the first one with trivia right before or right after a token. -/
inductive TriviaInserted : Text → Text → Prop where
  | before {a b w : Text} {token : Token} : Trivia w → token ∈ (Token.lex (a ++ b)).tokens →
      token.kind ≠ .eof → token.span.start = a.size → TriviaInserted (a ++ b) (a ++ w ++ b)
  | after {a b w : Text} {token : Token} : Trivia w → token ∈ (Token.lex (a ++ b)).tokens →
      token.kind ≠ .eof → token.span.stop = a.size → TriviaInserted (a ++ b) (a ++ w ++ b)

/-! ## Tokens -/

theorem LexesTo.lex {t : Text} {ks : List Token.Kind} (h : LexesTo t ks) :
    (Token.lex t).errors = [] ∧ (Token.lex t).tokens.map (·.kind) = ks ++ [.eof] := by
  rw [lex_of_clean h.clean]
  simp [Segment.map_kind_located, h.kinds]

/-- A text is cut in one way at a number of bytes. -/
theorem Text.append_inj_of_size {a b c d : Text} (h : a ++ b = c ++ d) (hsize : a.size = c.size) :
    a = c ∧ b = d := by
  have hab : (a ++ b).cut? a.size = some (a, b) := Text.cut?_eq_some_iff.2 ⟨rfl, rfl⟩
  have hcd : (c ++ d).cut? c.size = some (c, d) := Text.cut?_eq_some_iff.2 ⟨rfl, rfl⟩
  rw [h, hsize, hcd] at hab
  simpa [eq_comm] using hab

/-- A token of a text without errors is one of its segments. -/
theorem exists_segment_of_mem_lex {t : Text} (hclean : ∀ s ∈ split t, s.Clean) {token : Token}
    (h : token ∈ (Token.lex t).tokens) (heof : token.kind ≠ .eof) :
    ∃ before s after, split t = before ++ s :: after ∧ s.tokenKind?.isSome ∧
      token.span = ⟨size before, size (before ++ [s])⟩ := by
  rw [lex_of_clean hclean] at h
  rcases List.mem_append.1 h with h | h
  · obtain ⟨us, vs, htokens⟩ := List.append_of_mem h
    obtain ⟨before, s, after, hsplit, -, htoken⟩ := exists_of_tokens_eq htokens
    obtain ⟨kind, hkind⟩ := exists_kind_of_token? htoken
    refine ⟨before, s, after, hsplit, by simp [tokenKind?, show s.kind = _ from hkind], ?_⟩
    rw [span_of_token? htoken, size_append]
    simp [size]
  · rw [List.mem_singleton.1 h] at heof
    exact absurd rfl heof

theorem TriviaInserted.lexesTo {t t' : Text} {ks : List Token.Kind} (h : TriviaInserted t t')
    (ht : LexesTo t ks) : LexesTo t' ks := by
  obtain ⟨hclean, rfl⟩ := ht
  cases h with
  | @before a b w token hw hmem heof hstart =>
    obtain ⟨before, s, after, hsplit, hs, hspan⟩ := exists_segment_of_mem_lex hclean hmem heof
    have hcovers : a ++ b = before.flatMap (·.text) ++ (s :: after).flatMap (·.text) := by
      rw [← List.flatMap_append, ← hsplit, (isPartition_split _).covers]
    rw [hspan] at hstart
    obtain ⟨rfl, rfl⟩ := Text.append_inj_of_size hcovers hstart.symm
    exact lexesTo_before hsplit hclean hs hw
  | @after a b w token hw hmem heof hstop =>
    obtain ⟨before, s, after, hsplit, hs, hspan⟩ := exists_segment_of_mem_lex hclean hmem heof
    have hcovers : a ++ b = (before ++ [s]).flatMap (·.text) ++ after.flatMap (·.text) := by
      rw [← List.flatMap_append, ← List.append_cons, ← hsplit, (isPartition_split _).covers]
    rw [hspan] at hstop
    obtain ⟨rfl, rfl⟩ := Text.append_inj_of_size hcovers hstop.symm
    exact lexesTo_after hsplit hclean hs hw

/-! ## Programs -/

theorem ParseAgree.mono {α β : Type} {R S : α → β → Prop} {x : Except ParseError α}
    {y : Except ParseError β} (h : ParseAgree R x y) (hRS : ∀ a b, R a b → S a b) :
    ParseAgree S x y := by
  cases h with
  | ok hab => exact .ok (hRS _ _ hab)
  | error he => exact .error he

/-- Trivia next to tokens changes nothing but spans. However many pieces are added to a text without
errors, one after the other, there are still no errors, and the tokens are of the same kinds. They
are parsed as the same term up to spans, or with the same error up to its span. All checks of the
term come to the same type, or to the same error at the node of the same number. -/
theorem trivia_never_matters {t t' : Text} (hlex : (Token.lex t).errors = [])
    (h : Relation.ReflTransGen TriviaInserted t t') :
    (Token.lex t').errors = [] ∧
      (Token.lex t').tokens.map (·.kind) = (Token.lex t).tokens.map (·.kind) ∧
      ParseAgree
        (fun T T' => T.Like (fun _ => Eq) T' ∧ ∀ (c : Checker) (env : Env),
          Agree Eq (fun e e' => e.cause = e'.cause ∧ e.term.id = e'.term.id)
            (c.check env T).1 (c.check env T').1)
        (Term.parse (Token.lex t).tokens) (Term.parse (Token.lex t').tokens) := by
  have ht := LexesTo.of_split t (clean_of_lex hlex)
  have ht' : LexesTo t' ((split t).filterMap tokenKind?) := by
    induction h with
    | refl => exact ht
    | tail _ hstep ih => exact hstep.lexesTo ih
  have hkinds : (Token.lex t').tokens.map (·.kind) = (Token.lex t).tokens.map (·.kind) := by
    rw [ht'.lex.2, ht.lex.2]
  refine ⟨ht'.lex.1, hkinds, (parse_of_kinds hkinds.symm).mono ?_⟩
  intro T T' hlike
  refine ⟨hlike, ?_⟩
  intro c env
  exact (simulation_spans.infer ⟨rfl, hlike⟩).result

/-- A line comment between two tokens, and a comment inside a comment after the last one. -/
theorem trivia_never_matters_comments :
    (Token.lex "f(x)".toList).errors = [] ∧
      Relation.ReflTransGen TriviaInserted "f(x)".toList "f// é\n(x)/*/**/*/".toList ∧
      (Token.lex "f// é\n(x)/*/**/*/".toList).errors = [] ∧
      (Token.lex "f// é\n(x)/*/**/*/".toList).tokens.map (·.kind) =
        [.ident "f", .leftParen, .ident "x", .rightParen, .eof] := by
  have hlex : (Token.lex "f(x)".toList).errors = [] := by decide +kernel
  have hopen : ⟨.leftParen, ⟨1, 2⟩⟩ ∈ (Token.lex "f(x)".toList).tokens := by decide +kernel
  have hclose : ⟨.rightParen, ⟨9, 10⟩⟩ ∈ (Token.lex "f// é\n(x)".toList).tokens := by decide +kernel
  have hfirst : TriviaInserted "f(x)".toList "f// é\n(x)".toList :=
    .before (a := ['f']) (w := "// é\n".toList) (.lineComment (w := " é".toList) (by decide)) hopen
      (by decide) rfl
  have hsecond : TriviaInserted "f// é\n(x)".toList "f// é\n(x)/*/**/*/".toList :=
    .after (a := "f// é\n(x)".toList) (b := []) (w := "/*/**/*/".toList)
      (.blockComment (.opens (.closes (.closes .done)))) hclose (by decide) rfl
  have hinserted := Relation.ReflTransGen.single hfirst |>.tail hsecond
  obtain ⟨herrors, hkinds, -⟩ := trivia_never_matters hlex hinserted
  refine ⟨hlex, hinserted, herrors, hkinds.trans ?_⟩
  decide +kernel

end ArrowLang
