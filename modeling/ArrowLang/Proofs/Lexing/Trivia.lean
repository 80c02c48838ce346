import ArrowLang.Proofs.Lexing.Replace

/-!
# Blanks and comments between tokens

A piece of trivia is a run of blanks, a line comment with its newline or a block comment with its
end. In front of any text it adds no token and no error (`Trivia.lexesTo`). Neither does it matter
to the segments before it, as long as the last of them is a token: no match goes on from a token
into trivia (`LexesTo.prepend`).
-/

namespace ArrowLang

open Segment Rule

/-- A run of blanks, a line comment up to its newline, or a block comment that ends where its marks
balance. -/
inductive Trivia : Text → Prop where
  | blanks {w} : w ≠ [] → (∀ c ∈ w, isBlank c = true) → Trivia w
  | lineComment {w} : '\n' ∉ w → Trivia ("//".toList ++ w ++ ['\n'])
  | blockComment {w} : Nesting 1 w 0 → Trivia ("/*".toList ++ w)

/-- A text without errors, and the kinds of its tokens. -/
structure LexesTo (t : Text) (ks : List Token.Kind) : Prop where
  clean : ∀ s ∈ split t, s.Clean
  kinds : (split t).filterMap tokenKind? = ks

/-! ## Trivia in front -/

namespace LexesTo

variable {w z : Text} {ks : List Token.Kind}

theorem of_split (t : Text) (h : ∀ s ∈ split t, s.Clean) :
    LexesTo t ((split t).filterMap tokenKind?) :=
  ⟨h, rfl⟩

/-- One more segment that is no token. -/
theorem cons {c : Char} {cs : Text} {s : Segment} (h : LexesTo z ks) (hs : s.Clean)
    (hkind : s.tokenKind? = none) (hfirst : first c cs = (s, z)) : LexesTo (c :: cs) ks := by
  constructor
  · rw [split_cons, hfirst]
    exact List.forall_mem_cons.2 ⟨hs, h.clean⟩
  · rw [split_cons, hfirst, List.filterMap_cons, hkind]
    exact h.kinds

theorem dropBlanks (h : LexesTo z ks) : LexesTo (z.dropWhile isBlank) ks := by
  cases z with
  | nil => exact h
  | cons c cs =>
    by_cases hc : isBlank c = true
    · have hsplit : split (c :: cs) = ⟨.blank, c :: cs.takeWhile isBlank⟩ ::
          split (cs.dropWhile isBlank) := by
        rw [split_cons, first, if_pos hc]
      obtain ⟨hclean, hkinds⟩ := h
      rw [hsplit] at hclean hkinds
      rw [List.dropWhile_cons_of_pos hc]
      exact ⟨(List.forall_mem_cons.1 hclean).2, hkinds⟩
    · rwa [List.dropWhile_cons_of_neg hc]

theorem blanks (h : LexesTo z ks) (hw : ∀ c ∈ w, isBlank c = true) : LexesTo (w ++ z) ks := by
  cases w with
  | nil => exact h
  | cons c w =>
    obtain ⟨hc, hw⟩ := List.forall_mem_cons.1 hw
    have hfirst : first c (w ++ z) =
        (⟨.blank, c :: (w ++ z).takeWhile isBlank⟩, z.dropWhile isBlank) := by
      rw [first, if_pos hc, List.dropWhile_append_of_pos hw]
    exact h.dropBlanks.cons (by simp [Clean]) rfl hfirst

theorem lineComment (h : LexesTo z ks) (hw : '\n' ∉ w) (hz : ∀ c ∈ z.head?, c = '\n') :
    LexesTo ('/' :: '/' :: w ++ z) ks := by
  obtain ⟨htake, hdrop⟩ : (w ++ z).takeWhile (· != '\n') = w ∧
      (w ++ z).dropWhile (· != '\n') = z := by
    apply takeWhile_dropWhile_append
    · intro c hc
      rw [bne_iff_ne]
      rintro rfl
      exact hw hc
    · simpa using hz
  have hfirst : first '/' ('/' :: (w ++ z)) = (⟨.lineComment, '/' :: '/' :: w⟩, z) := by
    simp only [first, scanMark, htake, hdrop]
    rfl
  exact h.cons (by simp [Clean]) rfl hfirst

theorem blockComment (h : LexesTo z ks) (hw : Nesting 1 w 0) :
    LexesTo ('/' :: '*' :: w ++ z) ks := by
  have hfirst : first '/' ('*' :: (w ++ z)) = (⟨.blockComment, '/' :: '*' :: w⟩, z) := by
    simp only [first, scanMark, scanBlockComment_of_nesting hw rfl (.inl rfl)]
    rfl
  exact h.cons (by simp [Clean]) rfl hfirst

end LexesTo

/-- Trivia in front of a text adds no token and no error. -/
theorem Trivia.lexesTo {w z : Text} {ks : List Token.Kind} (hw : Trivia w) (h : LexesTo z ks) :
    LexesTo (w ++ z) ks := by
  cases hw with
  | blanks _ hw => exact h.blanks hw
  | @lineComment w hw =>
    have hnewline : LexesTo (['\n'] ++ z) ks := h.blanks (by simp [isBlank])
    rw [List.append_assoc]
    exact hnewline.lineComment hw (by simp)
  | blockComment hw => exact h.blockComment hw

/-! ## How segments start -/

/-- How blanks and comments start. -/
def Rule.Initial.ofTrivia : Rule.Initial → Bool
  | .blank | .slash => true
  | _ => false

theorem Trivia.exists_cons {w : Text} (h : Trivia w) :
    ∃ c cs, w = c :: cs ∧ (initialOf c).ofTrivia = true := by
  cases h with
  | blanks hne hw =>
    obtain ⟨c, cs, rfl⟩ := List.exists_cons_of_ne_nil hne
    exact ⟨c, cs, rfl, by rw [initialOf_blank (hw c (by simp))]; rfl⟩
  | lineComment => exact ⟨'/', _, rfl, by decide⟩
  | blockComment => exact ⟨'/', _, rfl, by decide⟩

/-- Segments without tokens and errors start as trivia does, and tokens do not. -/
theorem Lexeme.exists_cons_of_clean {s : Segment} {y : Text} (h : Lexeme s y) (hs : s.Clean) :
    ∃ c cs, s.text = c :: cs ∧ (initialOf c).ofTrivia = s.tokenKind?.isNone := by
  cases h with
  | unexpected => exact absurd rfl (hs.2 _)
  | matched hwins hmade =>
    obtain ⟨c, cs, hx, hc⟩ := exists_cons_of_mem hwins.matched
    cases hmade with
    | blank | lineComment | name | number => exact ⟨c, cs, hx, by rw [hc]; rfl⟩
    | @blockComment x inside => exact ⟨c, cs ++ inside, by simp [hx], by rw [hc]; rfl⟩
    | fixed =>
      have hspelled : ∀ p ∈ spellings, (fixed p.1).initial.ofTrivia = false := by decide
      exact ⟨c, cs, hx, by rw [hc]; exact hspelled _ hwins.matched⟩
    | overRange => exact absurd rfl hs.1

/-! ## Segments before a token -/

theorem mem_lineComment {x : Text} :
    x ∈ lineComment.language ↔ ∃ w, x = '/' :: '/' :: w ∧ '\n' ∉ w := by
  simp only [language, mem_charIn_mul, mem_charIn_kstar, beq_iff_eq, bne_iff_ne]
  constructor
  · rintro ⟨_, _, rfl, ⟨_, w, rfl, hw, rfl⟩, rfl⟩
    exact ⟨w, rfl, fun h => hw _ h rfl⟩
  · rintro ⟨w, rfl, hw⟩
    refine ⟨_, _, rfl, ⟨_, w, rfl, ?_, rfl⟩, rfl⟩
    rintro c hc rfl
    exact hw hc

/-- A line comment that is not the end of the text is followed by a newline. -/
theorem head_of_lineComment {x y : Text} (h : Wins lineComment x y) : ∀ c ∈ y.head?, c = '\n' := by
  intro c hc
  obtain ⟨y, rfl⟩ := List.head?_eq_some_iff.1 hc
  by_contra hne
  obtain ⟨w, rfl, hw⟩ := mem_lineComment.1 h.matched
  have hmem : '/' :: '/' :: (w ++ [c]) ∈ lineComment.language :=
    mem_lineComment.2 ⟨w ++ [c], rfl, by simp [hw, Ne.symm hne]⟩
  have hle := h.longest lineComment _ (by simp) hmem
  simp only [List.length_cons, List.length_append, List.length_nil] at hle
  omega

/-- Segments without tokens, from one token to the next, may be followed by anything else. -/
theorem LexesTo.gap {gap after : List Segment} {s : Segment} {t z : Text} {ks : List Token.Kind}
    (h : LexesTo z ks) (ht : IsPartition (gap ++ s :: after) t) (hs : s.Clean)
    (htoken : s.tokenKind?.isSome) (hgap : ∀ g ∈ gap, g.Clean ∧ g.tokenKind? = none) :
    LexesTo (gap.flatMap (·.text) ++ z) ks := by
  induction gap generalizing t with
  | nil => exact h
  | cons g gap ih =>
    obtain ⟨rest, -, -, hlexeme, hrest⟩ := isPartition_cons.1 ht
    obtain ⟨⟨hclean, hkind⟩, hgap⟩ := List.forall_mem_cons.1 hgap
    have hz := ih hrest hgap
    obtain ⟨hne, hs'⟩ := hrest.lexeme gap s after rfl
    have hcovers : gap.flatMap (·.text) ++ (s.text ++ after.flatMap (·.text)) = rest := by
      simpa using hrest.covers
    rw [List.flatMap_cons, List.append_assoc]
    cases hlexeme with
    | unexpected => exact absurd rfl (hclean.2 _)
    | matched hwins hmade =>
      cases hmade with
      | blank => exact hz.blanks (forall_of_mem_mul_kstar (fun _ => id) hwins.matched)
      | lineComment =>
        obtain ⟨w, rfl, hw⟩ := mem_lineComment.1 hwins.matched
        have hhead := head_of_lineComment hwins
        refine hz.lineComment hw ?_
        -- the newline is no part of the token, so it is one of the segments between
        cases hgap : gap.flatMap (·.text) with
        | nil =>
          obtain ⟨c, cs, htext, hc⟩ := hs'.exists_cons_of_clean hs
          rw [← hcovers, hgap, htext] at hhead
          obtain rfl := hhead c rfl
          rw [Option.isNone_eq_false_iff.2 htoken] at hc
          cases hc
        | cons c cs =>
          rw [← hcovers, hgap] at hhead
          simpa using hhead c rfl
      | blockComment hcloses =>
        obtain rfl := Set.mem_singleton_iff.1 hwins.matched
        refine hz.blockComment (hcloses.resolve_right fun hend => hne ?_)
        rw [hend.2] at hcovers
        exact (List.append_eq_nil_iff.1 (List.append_eq_nil_iff.1 hcovers).2).1
      | name | fixed | number => cases hkind
      | overRange => exact absurd rfl hclean.1

/-! ## Segments up to a token -/

/-- No match goes on into trivia from a text with a token at its end. -/
theorem Lexeme.apart_trivia {s : Segment} {y u z : Text} {c d : Char} (h : Lexeme s (y ++ u))
    (hs : s.text ≠ []) (hslash : y = [] → s.text.head? ≠ some '/') (hd : d ∈ s.text ++ y)
    (hblank : isBlank d = false) (hc : (initialOf c).ofTrivia = true) :
    Apart (s.text ++ y) (c :: z) := by
  apply apart_cons
  intro rule w hmem
  have hseparates : (initialOf c).separates = true := by
    generalize initialOf c = initial at hc
    cases initial <;> simp_all [Initial.ofTrivia, Initial.separates]
  cases rule with
  | blank =>
    have := forall_of_mem_mul_kstar (fun _ => id) hmem d (List.mem_append_left _ hd)
    simp [hblank] at this
  | lineComment =>
    obtain ⟨v, hv, hnewline⟩ := mem_lineComment.1 hmem
    obtain ⟨a, as, ha⟩ := List.exists_cons_of_ne_nil hs
    rw [ha, List.cons_append, List.cons_append] at hv
    obtain ⟨rfl, hv'⟩ := List.cons.inj hv
    have hy : y ≠ [] := fun hy => hslash hy (by rw [ha]; rfl)
    obtain ⟨b, bs, hbs⟩ := List.exists_cons_of_ne_nil (show as ++ y ≠ [] by simp [hy])
    rw [hbs, List.cons_append] at hv'
    obtain ⟨rfl, rfl⟩ := List.cons.inj hv'
    -- the comment would have taken all of `y`
    have hcomment : s.text ++ y ∈ lineComment.language := by
      refine mem_lineComment.2 ⟨bs, by rw [ha, List.cons_append, hbs], ?_⟩
      exact fun h => hnewline (List.mem_append_left _ h)
    have hle := h.length_le (by simp) hcomment
    rw [List.length_append] at hle
    exact hy (List.eq_nil_of_length_eq_zero (by omega))
  | blockComment =>
    obtain ⟨a, as, ha⟩ := List.exists_cons_of_ne_nil hs
    have hmark : a :: (as ++ y ++ c :: w) = ['/', '*'] := by
      rw [← show s.text ++ y ++ c :: w = ['/', '*'] from hmem, ha]
      simp
    obtain ⟨-, hcons⟩ | ⟨-, hnil⟩ := List.append_eq_singleton_iff.1 (List.cons.inj hmark).2
    · obtain ⟨rfl, -⟩ := List.cons.inj hcons
      cases hc
    · cases hnil
  | number =>
    rcases Numeral.cases_of_mem hmem with hmantissa | rfl | rfl | ⟨hsign, -⟩
    · simp only [Numeral.isMantissa, Numeral.isDigitOrUnderscore, Bool.or_eq_true,
        beq_iff_eq] at hmantissa
      rcases hmantissa with (hdigit | rfl) | rfl
      · rw [initialOf_digit hdigit] at hc
        cases hc
      · cases hc
      · cases hc
    · cases hc
    · cases hc
    · simp only [Numeral.isSign, Bool.or_eq_true, beq_iff_eq] at hsign
      rcases hsign with rfl | rfl <;> cases hc
  | name =>
    have := forall_of_mem_mul_kstar (fun c hc => by simp [isNamePart, hc]) hmem c (by simp)
    simp [not_isNamePart_of_separates hseparates] at this
  | fixed kind =>
    have hspelled : ∀ p ∈ spellings, (p.2.any fun d => (initialOf d).ofTrivia) = false := by decide
    exact List.any_eq_false.1 (hspelled _ hmem) c (by simp) hc

/-- Segments up to a token stay before trivia. -/
theorem LexesTo.prepend {front rest : List Segment} {t z : Text} {c : Char} {ks : List Token.Kind}
    (h : LexesTo (c :: z) ks) (hc : (initialOf c).ofTrivia = true)
    (ht : IsPartition (front ++ rest) t) (hclean : ∀ s ∈ front, s.Clean)
    (hlast : ∀ s ∈ front.getLast?, s.tokenKind?.isSome) :
    LexesTo (front.flatMap (·.text) ++ c :: z) (front.filterMap tokenKind? ++ ks) := by
  have htoken : ∀ s ∈ front.getLast?, ∃ d ds, s.text = d :: ds ∧ isBlank d = false ∧ d ≠ '/' := by
    intro s hs
    obtain ⟨before, rfl⟩ := List.getLast?_eq_some_iff.1 hs
    obtain ⟨-, hlexeme⟩ := ht.lexeme before s rest (by simp)
    obtain ⟨d, ds, htext, hd⟩ := hlexeme.exists_cons_of_clean (hclean s (by simp))
    rw [Option.isNone_eq_false_iff.2 (hlast s hs)] at hd
    refine ⟨d, ds, htext, ?_, ?_⟩
    · by_contra hblank
      rw [initialOf_blank (by simpa using hblank)] at hd
      cases hd
    · rintro rfl
      cases hd
  have hall := (isPartition_split (c :: z)).prepend front (u := rest.flatMap (·.text)) ?_
  · rw [← h.kinds, ← List.filterMap_append, hall.eq_split]
    apply of_split
    rw [← hall.eq_split]
    intro s hs
    exact (List.mem_append.1 hs).elim (hclean s) (h.clean s)
  · intro before s back hfront
    obtain ⟨hne, hs⟩ := ht.lexeme before s (back ++ rest) (by simp [hfront])
    rw [List.flatMap_append] at hs
    rcases List.eq_nil_or_concat back with rfl | ⟨mid, token, rfl⟩
    · -- the segment is the token
      have hend : s ∈ front.getLast? := by simp [hfront]
      obtain ⟨d, ds, htext, hblank, hslash⟩ := htoken s hend
      refine ⟨hne, hs, ?_,
        hs.apart_trivia hne (by simp [htext, hslash]) (by simp [htext]) hblank hc⟩
      intro hkind
      have hsome := hlast s hend
      simp [tokenKind?, hkind] at hsome
    · -- the token comes after the segment
      have hend : token ∈ front.getLast? :=
        List.getLast?_eq_some_iff.2 ⟨before ++ s :: mid, by simp [hfront]⟩
      obtain ⟨d, ds, htext, hblank, -⟩ := htoken token hend
      exact ⟨hne, hs, by simp [htext],
        hs.apart_trivia hne (by simp [htext]) (by simp [htext]) hblank hc⟩

/-! ## Trivia next to a token -/

/-- After the last token there are segments without tokens. -/
theorem exists_gap (ss : List Segment) : ∃ front gap, ss = front ++ gap ∧
    (∀ s ∈ front.getLast?, s.tokenKind?.isSome) ∧ ∀ g ∈ gap, g.tokenKind? = none := by
  induction ss using List.reverseRecOn with
  | nil => exact ⟨[], [], rfl, by simp, by simp⟩
  | append_singleton ss s ih =>
    cases hs : s.tokenKind? with
    | some kind => exact ⟨ss ++ [s], [], by simp, by simp [hs], by simp⟩
    | none =>
      obtain ⟨front, gap, rfl, hfront, hgap⟩ := ih
      refine ⟨front, gap ++ [s], by simp, hfront, ?_⟩
      intro g hg
      rcases List.mem_append.1 hg with hg | hg
      · exact hgap g hg
      · rw [List.mem_singleton.1 hg, hs]

section

variable {before after : List Segment} {s : Segment} {t w : Text}

/-- The last segments of a text are those of their own text. -/
theorem split_flatMap_right (h : split t = before ++ after) :
    split (after.flatMap (·.text)) = after :=
  @split_flatMap_text t before after [] (by simpa using h)

theorem lexesTo_right (h : split t = before ++ after) (hclean : ∀ s ∈ split t, s.Clean) :
    LexesTo (after.flatMap (·.text)) (after.filterMap tokenKind?) := by
  constructor
  · rw [split_flatMap_right h]
    exact fun s hs => hclean s (by simp [h, hs])
  · rw [split_flatMap_right h]

/-- Right before a token, trivia adds no token and no error. -/
theorem lexesTo_before (hsplit : split t = before ++ s :: after) (hclean : ∀ s ∈ split t, s.Clean)
    (hs : s.tokenKind?.isSome) (hw : Trivia w) :
    LexesTo (before.flatMap (·.text) ++ w ++ (s :: after).flatMap (·.text))
      ((split t).filterMap tokenKind?) := by
  have hright := lexesTo_right hsplit hclean
  obtain ⟨front, gap, rfl, hfront, hgap⟩ := exists_gap before
  have hall (s' : Segment) (hs' : s' ∈ front ++ gap ++ s :: after) : s'.Clean :=
    hclean s' (hsplit ▸ hs')
  rw [List.append_assoc] at hsplit
  have hmid : IsPartition (gap ++ s :: after) ((gap ++ s :: after).flatMap (·.text)) := by
    have := isPartition_split ((gap ++ s :: after).flatMap (·.text))
    rwa [split_flatMap_right hsplit] at this
  have hz := (hw.lexesTo hright).gap hmid (hall s (by simp)) hs
    fun g hg => ⟨hall g (by simp [hg]), hgap g hg⟩
  obtain ⟨c, cs, hcons, hc⟩ : ∃ c cs, gap.flatMap (·.text) ++
      (w ++ (s :: after).flatMap (·.text)) = c :: cs ∧ (initialOf c).ofTrivia = true := by
    cases gap with
    | nil =>
      obtain ⟨c, cs, rfl, hc⟩ := hw.exists_cons
      exact ⟨c, _, rfl, hc⟩
    | cons g gap =>
      obtain ⟨-, hlexeme⟩ := hmid.lexeme [] g (gap ++ s :: after) rfl
      obtain ⟨c, cs, htext, hc⟩ := hlexeme.exists_cons_of_clean (hall g (by simp))
      rw [hgap g (by simp)] at hc
      rw [List.flatMap_cons, htext]
      exact ⟨c, _, rfl, hc⟩
  rw [hcons] at hz
  have ht := isPartition_split t
  rw [hsplit] at ht ⊢
  have hnew := hz.prepend hc ht (fun s' hs' => hall s' (by simp [hs'])) hfront
  have hnone : gap.filterMap tokenKind? = [] := List.filterMap_eq_nil_iff.2 hgap
  rw [← hcons] at hnew
  simpa [hnone] using hnew

/-- Right after a token, trivia adds no token and no error. -/
theorem lexesTo_after (hsplit : split t = before ++ s :: after) (hclean : ∀ s ∈ split t, s.Clean)
    (hs : s.tokenKind?.isSome) (hw : Trivia w) :
    LexesTo ((before ++ [s]).flatMap (·.text) ++ w ++ after.flatMap (·.text))
      ((split t).filterMap tokenKind?) := by
  rw [List.append_cons] at hsplit
  have hz := hw.lexesTo (lexesTo_right hsplit hclean)
  obtain ⟨c, cs, rfl, hc⟩ := hw.exists_cons
  have ht := isPartition_split t
  rw [hsplit] at ht hclean ⊢
  have hnew := hz.prepend hc ht (fun s' hs' => hclean s' (List.mem_append_left after hs'))
    (by simpa using hs)
  rw [List.append_assoc, List.filterMap_append]
  exact hnew

end

end ArrowLang
