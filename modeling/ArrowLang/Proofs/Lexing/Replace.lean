import ArrowLang.Proofs.PrintedTypes

/-!
# A name in place of segments

A segment stays what it is before another rest of the text as long as no rule matches on into that
rest (`Lexeme.change`). No match goes on from a blank, a comment or a mark into a name, and no name
goes on into them. So if segments between such neighbours give way to a name, all others stay as
they are (`split_replace`).
-/

namespace ArrowLang

open Segment Rule

/-! ## Another rest -/

/-- No match goes on from `x` into `z`. -/
def Apart (x z : Text) : Prop :=
  ∀ (rule : Rule) (w : Text), w ∈ rule.language → w <+: x ++ z → w <+: x

theorem apart_cons {x z : Text} {c : Char} (h : ∀ (rule : Rule) w, x ++ c :: w ∉ rule.language) :
    Apart x (c :: z) := by
  intro rule w hmem hw
  rcases List.prefix_or_prefix_of_prefix hw (List.prefix_append x (c :: z)) with hx | ⟨v, rfl⟩
  · exact hx
  · cases v with
    | nil => simp
    | cons d v =>
      rw [List.prefix_append_right_inj, List.cons_prefix_cons] at hw
      obtain ⟨rfl, -⟩ := hw
      exact absurd hmem (h rule v)

theorem Wins.change {rule : Rule} {x y u z : Text} (h : Wins rule x (y ++ u))
    (hz : Apart (x ++ y) z) : Wins rule x (y ++ z) where
  matched := h.matched
  longest other w hw hmem := h.cut.longest other w (hz other w hmem (by simpa using hw)) hmem
  first := h.first

/-- A segment is the same before `z` as before `u` if no match goes on into `z`. A block comment
must have had an end. -/
theorem Lexeme.change {s : Segment} {y u z : Text} (h : Lexeme s (y ++ u))
    (hu : s.kind = .blockComment → y ++ u ≠ []) (hz : Apart (s.text ++ y) z) :
    Lexeme s (y ++ z) := by
  cases h with
  | matched hwins hmade =>
    cases hmade with
    | blank => exact .matched (hwins.change hz) .blank
    | lineComment => exact .matched (hwins.change hz) .lineComment
    | blockComment hcloses =>
      -- something follows the comment, so it has an end
      have hclosed := hcloses.resolve_right fun hend => hu rfl hend.2
      rw [← List.append_assoc] at hwins
      rw [List.append_assoc] at hz
      have hwins' := hwins.change hz
      rw [List.append_assoc] at hwins'
      exact .matched hwins' (.blockComment (.inl hclosed))
    | name => exact .matched (hwins.change hz) .name
    | fixed => exact .matched (hwins.change hz) .fixed
    | number hn hlt hnearest => exact .matched (hwins.change hz) (.number hn hlt hnearest)
    | overRange hn hle => exact .matched (hwins.change hz) (.overRange hn hle)
  | @unexpected c _ hnone =>
    refine .unexpected fun rule w hw hmem => hnone rule w ?_ hmem
    exact (hz rule w hmem hw).trans (List.prefix_append (c :: y) u)

/-- No rule matches more than a segment. -/
theorem Lexeme.length_le {s : Segment} {y w : Text} (h : Lexeme s y) {rule : Rule}
    (hw : w <+: s.text ++ y) (hmem : w ∈ rule.language) : w.length ≤ s.text.length := by
  cases h with
  | matched hwins hmade =>
    rw [← hmade.append_eq] at hw
    have hle := hwins.longest rule w hw hmem
    cases hmade <;> grind
  | unexpected hnone => exact absurd hmem (hnone rule w hw)

/-! ## Separators -/

/-- A token that is no word and no number. -/
def Token.Kind.isMark : Token.Kind → Bool
  | .number _ | .bool _ | .ident _ | .const => false
  | _ => true

/-- A segment is no word and no number. -/
def Segment.Separates (s : Segment) : Prop := ∀ kind, s.kind = .token kind → kind.isMark = true

/-- How blanks, comments and marks start. -/
def Rule.Initial.separates : Rule.Initial → Bool
  | .blank | .slash | .mark => true
  | _ => false

theorem Lexeme.exists_cons_of_separates {s : Segment} {y : Text} (h : Lexeme s y)
    (hclean : s.Clean) (hs : s.Separates) : ∃ c cs, s.text = c :: cs ∧
      (initialOf c).separates = true ∧ (c = '+' → cs = []) := by
  cases h with
  | matched hwins hmade =>
    obtain ⟨c, cs, hx, hc⟩ := exists_cons_of_mem hwins.matched
    cases hmade with
    | blank | lineComment =>
      refine ⟨c, cs, hx, by rw [hc]; rfl, ?_⟩
      rintro rfl
      cases hc
    | @blockComment x inside =>
      refine ⟨c, cs ++ inside, by simp [hx], by rw [hc]; rfl, ?_⟩
      rintro rfl
      cases hc
    | @fixed kind =>
      have hinitial : ∀ p ∈ spellings, p.1.isMark = true →
          (fixed p.1).initial.separates = true := by decide
      have hplus : ∀ p ∈ spellings, p.2.head? = some '+' → p.2.tail = [] := by decide
      refine ⟨c, cs, hx, by rw [hc]; exact hinitial _ hwins.matched (hs kind rfl), ?_⟩
      have hspelled := hplus _ hwins.matched
      rintro rfl
      rw [hx] at hspelled
      exact hspelled rfl
    | name | number => cases hs _ rfl
    | overRange => exact absurd rfl hclean.1
  | unexpected => exact absurd rfl (hclean.2 _)

theorem not_isNamePart_of_separates {c : Char} (h : (initialOf c).separates = true) :
    isNamePart c = false := by
  by_contra hpart
  rw [Bool.not_eq_false, isNamePart, Bool.or_eq_true] at hpart
  rcases hpart with hc | hc
  · rw [initialOf_letter hc] at h
    cases h
  · rw [initialOf_digit hc] at h
    cases h

/-- A token does not start with a blank. -/
theorem Lexeme.exists_cons_of_token {s : Segment} {y : Text} {kind : Token.Kind} (h : Lexeme s y)
    (hkind : s.kind = .token kind) : ∃ c cs, s.text = c :: cs ∧ isBlank c = false := by
  cases h with
  | @matched rule x z s y hwins hmade =>
    obtain ⟨c, cs, hx, hc⟩ := exists_cons_of_mem hwins.matched
    have hblank : rule.initial ≠ .blank → isBlank c = false := by
      intro hne
      by_contra hc'
      exact hne (hc ▸ initialOf_blank (by simpa using hc'))
    cases hmade with
    | blank | lineComment | blockComment | overRange => cases hkind
    | name | number => exact ⟨c, cs, hx, hblank (by decide)⟩
    | @fixed kind =>
      refine ⟨c, cs, hx, hblank ?_⟩
      simp only [initial]
      split <;> decide
  | unexpected => cases hkind

/-! ## Names after separators -/

theorem forall_of_mem_mul_kstar {p q : Char → Bool} {x : Text}
    (hpq : ∀ c, p c = true → q c = true) (h : x ∈ charIn p * KStar.kstar (charIn q)) :
    ∀ c ∈ x, q c = true := by
  obtain ⟨c, y, hc, hy, rfl⟩ := mem_charIn_mul.1 h
  exact List.forall_mem_cons.2 ⟨hpq c hc, mem_charIn_kstar.1 hy⟩

namespace Numeral

/-- In an exponent, only a digit follows a sign. -/
theorem cases_of_mem_exponents {x y : Text} {d : Char} (h : x ++ d :: y ∈ exponents) :
    d.isDigit = true ∨ d = 'e' ∨ d = 'E' ∨
      (isSign d = true ∧ ∃ c w, c.isDigit = true ∧ y = c :: w) := by
  obtain ⟨e, v, he, hv, hcons⟩ := mem_charIn_mul.1 h
  obtain ⟨s, hs, ds, hds, rfl⟩ := Language.mem_mul.1 hv
  have hdigit {u : Text} (hu : u ++ d :: y = ds) : d.isDigit = true :=
    forall_of_mem_mul_kstar (fun _ => id) hds d (by simp [← hu])
  cases x with
  | nil =>
    obtain ⟨rfl, -⟩ := List.cons.inj hcons
    have : d = 'e' ∨ d = 'E' := by simpa using he
    exact .inr (this.imp_right .inl)
  | cons a x =>
    obtain ⟨-, hrest⟩ := List.cons.inj hcons
    rcases hs with rfl | ⟨g, hg, rfl⟩
    · exact .inl (hdigit hrest)
    · cases x with
      | nil =>
        obtain ⟨rfl, rfl⟩ := List.cons.inj hrest
        obtain ⟨c, w, hc, -, rfl⟩ := mem_charIn_mul.1 hds
        exact .inr (.inr (.inr ⟨hg, c, w, hc, rfl⟩))
      | cons b x => exact .inl (hdigit (List.cons.inj hrest).2)

/-- In a numeral, only a digit follows a sign. -/
theorem cases_of_mem {x y : Text} {d : Char} (h : x ++ d :: y ∈ numerals) :
    isMantissa d = true ∨ d = 'e' ∨ d = 'E' ∨
      (isSign d = true ∧ ∃ c w, c.isDigit = true ∧ y = c :: w) := by
  obtain ⟨m, hm, e, he, heq⟩ := Language.mem_mul.1 h
  have hexponent {u : Text} (hu : e = u ++ d :: y) : u ++ d :: y ∈ exponents := by
    rcases he with rfl | he
    · simp at hu
    · exact hu ▸ he
  have hdigit (hd : d.isDigit = true) : isMantissa d = true := by
    simp [isMantissa, isDigitOrUnderscore, hd]
  rcases List.append_eq_append_iff.1 heq with ⟨u, -, hu⟩ | ⟨u, rfl, hu⟩
  · exact (cases_of_mem_exponents (hexponent hu)).imp_left hdigit
  · cases u with
    | nil => exact (cases_of_mem_exponents (hexponent (u := []) hu.symm)).imp_left hdigit
    | cons b u =>
      obtain ⟨rfl, -⟩ := List.cons.inj hu
      exact .inl (isMantissa_of_mem hm d (by simp))

theorem not_mem_of_letter {x r w : Text} {c d : Char} (hd : (initialOf d).separates = true)
    (hr : d = '+' → r = []) (hc : isNameStart c = true) : x ++ d :: r ++ c :: w ∉ numerals := by
  rw [List.append_assoc, List.cons_append]
  intro hmem
  rcases cases_of_mem hmem with hmantissa | rfl | rfl | ⟨hsign, b, v, hb, hv⟩
  · simp only [isMantissa, isDigitOrUnderscore, Bool.or_eq_true, beq_iff_eq] at hmantissa
    rcases hmantissa with (hdigit | rfl) | rfl
    · rw [initialOf_digit hdigit] at hd
      cases hd
    · cases hd
    · cases hd
  · cases hd
  · cases hd
  · simp only [isSign, Bool.or_eq_true, beq_iff_eq] at hsign
    rcases hsign with rfl | rfl
    · rw [hr rfl] at hv
      obtain ⟨rfl, -⟩ := List.cons.inj hv
      rw [isNameStart_of_isDigit hb] at hc
      cases hc
    · cases hd

end Numeral

/-- A match in which a letter comes right after a separator is a line comment. -/
theorem not_mem_of_letter {x r w : Text} {c d : Char} (hd : (initialOf d).separates = true)
    (hr : d = '+' → r = []) (hc : isNameStart c = true) {rule : Rule} (hrule : rule ≠ lineComment) :
    x ++ d :: r ++ c :: w ∉ rule.language := by
  intro hmem
  have hdpart := not_isNamePart_of_separates hd
  cases rule with
  | lineComment => exact hrule rfl
  | blank =>
    have hblank := forall_of_mem_mul_kstar (fun _ => id) hmem c (by simp)
    simp [not_isBlank (.inl hc)] at hblank
  | blockComment =>
    have hmem' : c ∈ ['/', '*'] := by
      rw [← show x ++ d :: r ++ c :: w = ['/', '*'] from hmem]
      simp
    simp only [List.mem_cons, List.not_mem_nil, or_false] at hmem'
    rcases hmem' with rfl | rfl <;> cases hc
  | number => exact Numeral.not_mem_of_letter hd hr hc hmem
  | name =>
    have hpart := forall_of_mem_mul_kstar (fun c hc => by simp [isNamePart, hc]) hmem d (by simp)
    simp [hdpart] at hpart
  | fixed kind =>
    have hspelled : ∀ p ∈ spellings, p.2.all isNamePart = true ∨
        p.2.any isNameStart = false := by decide
    rcases hspelled _ hmem with hword | hmark
    · have hpart := List.all_eq_true.1 hword d (by simp)
      simp [hdpart] at hpart
    · exact List.any_eq_false.1 hmark c (by simp) hc

theorem mem_lineComment_concat {x w : Text} {a c : Char} (h : x ++ c :: w ∈ lineComment.language)
    (hx : x ≠ []) (hc : c ≠ '/') (ha : a ≠ '\n') : x ++ [a] ∈ lineComment.language := by
  obtain ⟨b, v, hb, hv, hcons⟩ := mem_charIn_mul.1 h
  obtain ⟨b', v', hb', hv', rfl⟩ := mem_charIn_mul.1 hv
  cases x with
  | nil => exact absurd rfl hx
  | cons e x =>
    obtain ⟨rfl, hcons'⟩ := List.cons.inj hcons
    cases x with
    | nil =>
      obtain ⟨rfl, -⟩ := List.cons.inj hcons'
      exact absurd (by simpa using hb') hc
    | cons e' x =>
      obtain ⟨rfl, rfl⟩ := List.cons.inj hcons'
      have hline := mem_charIn_kstar.1 hv'
      have hrest : ∀ d ∈ x ++ [a], (d != '\n') = true := by
        intro d hd
        rcases List.mem_append.1 hd with hd | hd
        · exact hline d (List.mem_append_left _ hd)
        · simpa [List.mem_singleton.1 hd] using ha
      refine mem_charIn_mul.2 ⟨e, _, hb, mem_charIn_mul.2 ⟨e', _, hb', ?_, rfl⟩, rfl⟩
      exact mem_charIn_kstar.2 hrest

/-- From a segment up to a separator, no match goes on into a name. Only a line comment could, and
it would go on into any other character as well. -/
theorem Lexeme.apart {s : Segment} {x y r u v : Text} {a c d : Char} (h : Lexeme s (y ++ a :: u))
    (hy : s.text ++ y = x ++ d :: r) (ha : isBlank a = false)
    (hd : (initialOf d).separates = true) (hr : d = '+' → r = []) (hc : isNameStart c = true) :
    Apart (s.text ++ y) (c :: v) := by
  rw [hy]
  refine apart_cons fun rule w hmem => ?_
  by_cases hrule : rule = lineComment
  · subst hrule
    have hslash : c ≠ '/' := by
      rintro rfl
      cases hc
    have hnewline : a ≠ '\n' := by
      rintro rfl
      cases ha
    have hline := mem_lineComment_concat hmem (by simp) hslash hnewline
    rw [← hy] at hline
    have hle := h.length_le (by simp) hline
    simp only [List.length_append, List.length_singleton] at hle
    omega
  · exact not_mem_of_letter hd hr hc hrule hmem

theorem lexeme_name {x : String} (hx : isName x = true) {rest : Text} (h : EndsWord rest) :
    Lexeme ⟨.token (.ident x), x.toList⟩ rest := by
  obtain ⟨c, cs, hlist, hc, hcs, hword⟩ := exists_cons_of_isName hx
  obtain ⟨htake, hdrop⟩ := takeWhile_dropWhile_append hcs h
  have hlexeme := lexeme_word hc (cs ++ rest)
  rwa [htake, hdrop, ← hlist, hword] at hlexeme

/-! ## The segments of the new text -/

/-- Segments stay before others if no match goes on from them. -/
theorem IsPartition.prepend {new : List Segment} {u z : Text} (hnew : IsPartition new z)
    (before : List Segment) (hbefore : ∀ front s back, before = front ++ s :: back →
      s.text ≠ [] ∧ Lexeme s (back.flatMap (·.text) ++ u) ∧
        (s.kind = .blockComment → back.flatMap (·.text) ++ u ≠ []) ∧
        Apart (s.text ++ back.flatMap (·.text)) z) :
    IsPartition (before ++ new) (before.flatMap (·.text) ++ z) := by
  induction before with
  | nil => exact hnew
  | cons s back ih =>
    obtain ⟨hne, hlexeme, hu, hapart⟩ := hbefore [] s back rfl
    refine isPartition_cons.2 ⟨_, by simp, hne, hlexeme.change hu hapart, ih ?_⟩
    intro front s' back' h
    exact hbefore (s :: front) s' back' (by simp [h])

/-- Up to its end, a text whose last segment separates has a separator and no more. -/
theorem exists_separator {ss : List Segment} (hne : ss ≠ [])
    (hlexeme : ∀ s ∈ ss, ∃ y, Lexeme s y) (hclean : ∀ s ∈ ss, s.Clean)
    (hlast : ∀ s ∈ ss.getLast?, s.Separates) :
    ∃ x d r, ss.flatMap (·.text) = x ++ d :: r ∧ (initialOf d).separates = true ∧
      (d = '+' → r = []) := by
  obtain ⟨mid, s, rfl⟩ := (List.eq_nil_or_concat ss).resolve_left hne
  obtain ⟨y, hs⟩ := hlexeme s (by simp)
  obtain ⟨d, r, htext, hd, hr⟩ :=
    hs.exists_cons_of_separates (hclean s (by simp)) (hlast s (by simp))
  exact ⟨mid.flatMap (·.text), d, r, by simp [htext], hd, hr⟩

theorem endsWord_of_separates {ss : List Segment} (h : IsPartition ss (ss.flatMap (·.text)))
    (hclean : ∀ s ∈ ss, s.Clean) (hfirst : ∀ s ∈ ss.head?, s.Separates) :
    EndsWord (ss.flatMap (·.text)) := by
  cases ss with
  | nil => simp [EndsWord]
  | cons s ss =>
    obtain ⟨-, hlexeme⟩ := h.lexeme [] s ss rfl
    obtain ⟨c, cs, htext, hc, -⟩ :=
      hlexeme.exists_cons_of_separates (hclean s (by simp)) (hfirst s rfl)
    intro d hd
    obtain rfl : c = d := by simpa [htext] using hd
    exact not_isNamePart_of_separates hc

/-- Where segments that start with a token and have no words or numbers next to them give way to a
name, it is a segment, and all others stay. -/
theorem split_replace {t : Text} {before inside after : List Segment} {token : Segment}
    {kind : Token.Kind} {x : String} (hsplit : split t = before ++ token :: inside ++ after)
    (hclean : ∀ s ∈ split t, s.Clean) (htoken : token.kind = .token kind)
    (hbefore : ∀ s ∈ before.getLast?, s.Separates) (hafter : ∀ s ∈ after.head?, s.Separates)
    (hx : isName x = true) :
    split (before.flatMap (·.text) ++ x.toList ++ after.flatMap (·.text)) =
      before ++ ⟨.token (.ident x), x.toList⟩ :: after := by
  rw [hsplit] at hclean
  have hlexeme (front : List Segment) (s : Segment) (rest : List Segment)
      (h : before ++ token :: inside ++ after = front ++ s :: rest) :=
    (isPartition_split t).lexeme front s rest (hsplit.trans h)
  obtain ⟨a, as, ha, hblank⟩ :=
    (hlexeme before token (inside ++ after) (by simp)).2.exists_cons_of_token htoken
  obtain ⟨c, cs, hlist, hc, -⟩ := exists_cons_of_isName hx
  have hrest : IsPartition after (after.flatMap (·.text)) :=
    ⟨rfl, fun front s rest h => hlexeme (before ++ token :: inside ++ front) s rest (by simp [h])⟩
  have hname : IsPartition (⟨.token (.ident x), x.toList⟩ :: after)
      (x.toList ++ after.flatMap (·.text)) := by
    refine isPartition_cons.2 ⟨_, rfl, by simp [hlist], lexeme_name hx ?_, hrest⟩
    exact endsWord_of_separates hrest (fun s hs => hclean s (by simp [hs])) hafter
  have hwritten : ∀ s ∈ before, ∃ y, Lexeme s y := by
    intro s hs
    obtain ⟨front, back, h⟩ := List.append_of_mem hs
    exact ⟨_, (hlexeme front s (back ++ token :: inside ++ after) (by simp [h])).2⟩
  have hall := hname.prepend before (u := a :: (as ++ (inside ++ after).flatMap (·.text))) ?_
  · rw [List.append_assoc, ← hall.eq_split]
  · intro front s back h
    obtain ⟨hne, hs⟩ := hlexeme front s (back ++ token :: inside ++ after) (by simp [h])
    rw [List.append_assoc, List.flatMap_append, List.cons_append, List.flatMap_cons, ha] at hs
    have hback : ∀ s' ∈ s :: back, s' ∈ before := fun s' hs' => by simp_all
    have hlast : before.getLast? = (s :: back).getLast? := by
      rw [h, List.getLast?_append_of_ne_nil _ (List.cons_ne_nil s back)]
    obtain ⟨y, d, r, hy, hd, hr⟩ := exists_separator (List.cons_ne_nil s back)
      (fun s' hs' => hwritten s' (hback s' hs')) (fun s' hs' => hclean s' (by simp [hback s' hs']))
      fun s' hs' => hbefore s' (hlast ▸ hs')
    refine ⟨hne, hs, by simp, ?_⟩
    rw [hlist]
    exact hs.apart hy hblank hd hr hc

end ArrowLang
