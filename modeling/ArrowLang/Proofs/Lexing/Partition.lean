import ArrowLang.Proofs.Lexing.Decimals
import ArrowLang.Proofs.Lexing.Rules
import ArrowLang.Token.Lexer

/-!
# The segments of a text

`Lexeme s y` says which segment `s` the rules prescribe where a text goes on with `y` after it: the
longest match of any rule, a block comment to its end, or a character that no rule matches. It holds
of one segment at most, and `Segment.first` finds it. So a text falls into segments in exactly one
way, and a piece of a text between two segments falls into the same segments by itself.
-/

namespace ArrowLang

open Segment

/-! ## What the rules prescribe -/

/-- `Wins rule x y`: on the text `x ++ y`, `rule` matches `x`. No rule matches more, and none but
that for names matches as much. -/
structure Wins (rule : Rule) (x y : Text) : Prop where
  matched : x ∈ rule.language
  longest : ∀ (other : Rule) z, z <+: x ++ y → z ∈ other.language → z.length ≤ x.length
  first : ∀ other : Rule, x ∈ other.language → other = rule ∨ other = .name

/-- `Nesting m x n`: reading `x`, the number of open block comments goes from `m` to `n`, and it is
positive until the end of `x`. -/
inductive Nesting : Nat → Text → Nat → Prop where
  | done {n} : Nesting n [] n
  | opens {m n x} : Nesting (m + 2) x n → Nesting (m + 1) ('/' :: '*' :: x) n
  | closes {m n x} : Nesting m x n → Nesting (m + 1) ('*' :: '/' :: x) n
  | char {m n c x} : ¬ "/*".toList <+: c :: x → ¬ "*/".toList <+: c :: x → Nesting (m + 1) x n →
      Nesting (m + 1) (c :: x) n

/-- `x` is what a block comment has after its opening mark, if `y` is what follows it: all up to the
mark that closes it, or else all there is. -/
def ClosesBefore (x y : Text) : Prop := Nesting 1 x 0 ∨ (∃ n, Nesting 1 x (n + 1)) ∧ y = []

/-- `Made rule x z s y`: where `rule` matches `x` and `z` follows, the segment is `s` and `y`
follows. A numeral is a token for the double nearest to its decimal. It is over range from half a
step above the greatest double on. -/
inductive Made : Rule → Text → Text → Segment → Text → Prop where
  | blank {x y} : Made .blank x y ⟨.blank, x⟩ y
  | lineComment {x y} : Made .lineComment x y ⟨.lineComment, x⟩ y
  | blockComment {x inside y} : ClosesBefore inside y →
      Made .blockComment x (inside ++ y) ⟨.blockComment, x ++ inside⟩ y
  | name {x y} : Made .name x y ⟨.token (.ident (String.ofList x)), x⟩ y
  | fixed {kind x y} : Made (.fixed kind) x y ⟨.token kind, x⟩ y
  | number {n : Numeral} {x : Binary64} {y} : n.WellFormed → n.decimal < 2 ^ 1024 - 2 ^ 970 →
      x.Nearest n.decimal → Made .number n.text y ⟨.token (.number x), n.text⟩ y
  | overRange {n : Numeral} {y} : n.WellFormed → 2 ^ 1024 - 2 ^ 970 ≤ n.decimal →
      Made .number n.text y ⟨.overRange, n.text⟩ y

inductive Lexeme : Segment → Text → Prop where
  | matched {rule x z s y} : Wins rule x z → Made rule x z s y → Lexeme s y
  | unexpected {c y} : (∀ (rule : Rule) x, x <+: c :: y → x ∉ rule.language) →
      Lexeme ⟨.unexpected c, [c]⟩ y

/-! ## One segment at most -/

theorem Wins.unique {rule rule' : Rule} {x y x' y' : Text} (h : Wins rule x y)
    (h' : Wins rule' x' y') (he : x ++ y = x' ++ y') : rule = rule' ∧ x = x' ∧ y = y' := by
  have hle := h.longest rule' x' (he ▸ List.prefix_append x' y') h'.matched
  have hle' := h'.longest rule x (he ▸ List.prefix_append x y) h.matched
  obtain ⟨rfl, rfl⟩ := List.append_inj he (Nat.le_antisymm hle' hle)
  refine ⟨?_, rfl, rfl⟩
  rcases h.first rule' h'.matched with rfl | rfl
  · rfl
  · rcases h'.first rule h.matched with rfl | rfl <;> rfl

theorem scanBlockComment_char {c : Char} {t : Text} (hopen : ¬ "/*".toList <+: c :: t)
    (hclose : ¬ "*/".toList <+: c :: t) (depth : Nat) :
    scanBlockComment depth (c :: t) =
      (c :: (scanBlockComment depth t).1, (scanBlockComment depth t).2) := by
  rw [scanBlockComment]
  · rintro u rfl rfl
    exact hopen (by simp)
  · rintro u - rfl rfl
    exact hclose (by simp)
  · rintro d u - rfl rfl
    exact hclose (by simp)

theorem scanBlockComment_of_nesting {x y : Text} {m n : Nat} (h : Nesting m x n) :
    ∀ {depth : Nat}, m = depth + 1 → n = 0 ∨ y = [] →
      scanBlockComment depth (x ++ y) = (x, y) := by
  induction h with
  | done =>
    intro depth hm hy
    obtain rfl : y = [] := by
      rcases hy with hn | hy
      · omega
      · exact hy
    simp [scanBlockComment]
  | opens _ ih =>
    intro depth hm hy
    have := @ih (depth + 1) (by omega) hy
    simp [scanBlockComment, this]
  | closes hx ih =>
    intro depth hm hy
    cases depth with
    | zero =>
      obtain rfl := Nat.succ.inj hm
      cases hx
      simp [scanBlockComment]
    | succ depth =>
      have := ih (Nat.succ.inj hm) hy
      simp [scanBlockComment, this]
  | @char m n c x hopen hclose hx ih =>
    intro depth hm hy
    -- a mark that begins inside `x` also ends there
    have hinside : x = [] → y = [] := by
      rintro rfl
      cases hx
      exact hy.resolve_left (by simp)
    have hmark {a b : Char} (h : ¬ [a, b] <+: c :: x) : ¬ [a, b] <+: c :: (x ++ y) := by
      cases x with
      | nil => simp [hinside rfl]
      | cons d x => simpa [List.cons_prefix_cons] using h
    rw [List.cons_append, scanBlockComment_char (hmark hopen) (hmark hclose), ih hm hy]

theorem ClosesBefore.unique {x y x' y' : Text} (h : ClosesBefore x y) (h' : ClosesBefore x' y')
    (he : x ++ y = x' ++ y') : x = x' ∧ y = y' := by
  have key : ∀ {x y : Text}, ClosesBefore x y → scanBlockComment 0 (x ++ y) = (x, y) := by
    rintro x y (h | ⟨⟨n, h⟩, rfl⟩)
    · exact scanBlockComment_of_nesting h rfl (.inl rfl)
    · exact scanBlockComment_of_nesting h rfl (.inr rfl)
  have := (key h).symm.trans ((congrArg _ he).trans (key h'))
  simpa using this

theorem Made.unique {rule : Rule} {x x' z z' y y' : Text} {s s' : Segment}
    (h : Made rule x z s y) (h' : Made rule x' z' s' y') (hx : x = x') (hz : z = z') : s = s' := by
  cases h with
  | blank | lineComment | name | fixed =>
    cases h'
    rw [hx]
  | blockComment hcloses =>
    cases h' with
    | blockComment hcloses' => rw [hx, (hcloses.unique hcloses' hz).1]
  | @number n _ _ hn hlt hnearest =>
    cases h' with
    | number hm _ hnearest' =>
      obtain rfl := hn.eq_of_text_eq hm hx
      rw [hnearest.unique hnearest' n.decimal_nonneg]
    | overRange hm hle =>
      obtain rfl := hn.eq_of_text_eq hm hx
      exact absurd hlt hle.not_gt
  | overRange hn hle =>
    cases h' with
    | number hm hlt =>
      obtain rfl := hn.eq_of_text_eq hm hx
      exact absurd hlt hle.not_gt
    | overRange => rw [hx]

theorem Made.append_eq {rule : Rule} {x z y : Text} {s : Segment} (h : Made rule x z s y) :
    x ++ z = s.text ++ y := by
  cases h <;> simp

theorem Lexeme.unique {s s' : Segment} {y y' : Text} (h : Lexeme s y) (h' : Lexeme s' y')
    (he : s.text ++ y = s'.text ++ y') : s = s' := by
  cases h with
  | matched hwins hmade =>
    cases h' with
    | matched hwins' hmade' =>
      obtain ⟨rfl, rfl, rfl⟩ := hwins.unique hwins'
        (by rw [hmade.append_eq, hmade'.append_eq, he])
      exact hmade.unique hmade' rfl rfl
    | unexpected hnone =>
      refine absurd hwins.matched (hnone _ _ ?_)
      rw [← List.singleton_append, ← he, ← hmade.append_eq]
      exact List.prefix_append _ _
  | unexpected hnone =>
    cases h' with
    | matched hwins' hmade' =>
      refine absurd hwins'.matched (hnone _ _ ?_)
      rw [← List.singleton_append, he, ← hmade'.append_eq]
      exact List.prefix_append _ _
    | unexpected =>
      obtain ⟨rfl, -⟩ := List.cons.inj he
      rfl

/-! ## The segment that is found -/

/-- Rules that match at the same place have the same initials. -/
theorem Rule.initial_eq {rule other : Rule} {x y z : Text} (hx : x ∈ rule.language)
    (hz : z ∈ other.language) (hp : z <+: x ++ y) : other.initial = rule.initial := by
  obtain ⟨c, x, rfl, hc⟩ := Rule.exists_cons_of_mem hx
  obtain ⟨d, z, rfl, hd⟩ := Rule.exists_cons_of_mem hz
  obtain rfl : d = c := (List.cons_prefix_cons.1 hp).1
  rw [← hc, hd]

theorem Wins.of_only {rule : Rule} {x y : Text} (hlongest : LongestIn rule.language (x ++ y) x)
    (honly : ∀ other z, other.initial = rule.initial → z ∈ other.language → z <+: x ++ y →
      other = rule) : Wins rule x y where
  matched := hlongest.mem
  longest := by
    intro other z hz hmem
    obtain rfl := honly other z (Rule.initial_eq hlongest.mem hmem hz) hmem hz
    exact hlongest.length_le z hz hmem
  first := by
    intro other hmem
    have hp := List.prefix_append x y
    exact .inl (honly other x (Rule.initial_eq hlongest.mem hmem hp) hmem hp)

theorem wins_blank {c : Char} (hc : isBlank c = true) (cs : Text) :
    Wins .blank (c :: cs.takeWhile isBlank) (cs.dropWhile isBlank) := by
  refine .of_only ?_ fun other z h _ _ => ?_
  · rw [List.cons_append, List.takeWhile_append_dropWhile]
    exact .cons hc (.kstar _ cs)
  · have := other.initial_cases
    rwa [h] at this

theorem wins_number {c : Char} (hc : c.isDigit = true) (cs : Text) :
    Wins .number (Numeral.scan c cs).1.text (Numeral.scan c cs).2 := by
  refine .of_only ?_ fun other z h _ _ => ?_
  · rw [Numeral.scan_append]
    exact Numeral.longestIn_numerals hc cs
  · have := other.initial_cases
    rwa [h] at this

theorem wins_lineComment (cs : Text) :
    Wins .lineComment ('/' :: '/' :: cs.takeWhile (· != '\n')) (cs.dropWhile (· != '\n')) := by
  refine .of_only ?_ fun other z h hz hp => ?_
  · rw [List.cons_append, List.cons_append, List.takeWhile_append_dropWhile]
    exact .cons rfl (.cons rfl (.kstar _ cs))
  · have := other.initial_cases
    rw [h] at this
    rcases this with rfl | rfl
    · rfl
    · obtain rfl : z = ['/', '*'] := hz
      simp at hp

theorem wins_blockComment (cs : Text) : Wins .blockComment ['/', '*'] cs := by
  refine .of_only ⟨List.prefix_append _ _, rfl, ?_⟩ fun other z h hz hp => ?_
  · rintro _ - rfl
    rfl
  · have := other.initial_cases
    rw [h] at this
    rcases this with rfl | rfl
    · obtain ⟨c, _, -, hy, rfl⟩ := mem_charIn_mul.1 hz
      obtain ⟨d, y, hd, -, rfl⟩ := mem_charIn_mul.1 hy
      obtain rfl : d = '/' := by simpa using hd
      simp at hp
    · rfl

theorem longestIn_fixed {kind : Token.Kind} {x : Text} (h : (kind, x) ∈ spellings) (y : Text) :
    LongestIn (Rule.fixed kind).language (x ++ y) x where
  starts := List.prefix_append x y
  mem := h
  length_le := by
    have hone : ∀ p ∈ spellings, ∀ q ∈ spellings, p.1 = q.1 → p.2 = q.2 := by decide
    rintro z - hz
    obtain rfl : z = x := hone _ hz _ h rfl
    exact Nat.le_refl _

/-- A mark of one character, where no longer one starts. -/
theorem wins_mark {kind : Token.Kind} {c : Char} {cs : Text} (h : (kind, [c]) ∈ spellings)
    (hcs : kind = .equals → ∀ y, cs ≠ '>' :: y) : Wins (.fixed kind) [c] cs := by
  have hmark : ∀ p ∈ spellings, p.2.length = 1 → (Rule.fixed p.1).initial = .mark := by decide
  have hstart : ∀ p ∈ spellings, ∀ q ∈ spellings, p.2.length = 1 → p.2 <+: q.2 →
      q.1 = p.1 ∨ p.1 = .equals ∧ q.2 = ['=', '>'] := by decide
  refine .of_only (longestIn_fixed h cs) fun other z hinitial hz hp => ?_
  have hother := other.initial_cases
  rw [hinitial, hmark _ h rfl] at hother
  obtain ⟨kind', rfl⟩ := hother
  obtain ⟨d, z, rfl, -⟩ := Rule.exists_cons_of_mem hz
  obtain ⟨rfl, y, hy⟩ := List.cons_prefix_cons.1 hp
  rcases hstart _ h _ hz rfl (by simp) with heq | ⟨heq, hz⟩
  · exact congrArg Rule.fixed heq
  · obtain ⟨-, rfl⟩ := List.cons.inj hz
    exact absurd hy.symm (hcs heq y)

theorem wins_fatArrow (cs : Text) : Wins (.fixed .fatArrow) ['=', '>'] cs := by
  have hmem : (Token.Kind.fatArrow, ['=', '>']) ∈ spellings := by decide
  have hlength : ∀ p ∈ spellings, (Rule.fixed p.1).initial = .mark → p.2.length ≤ 2 := by decide
  have hone : ∀ p ∈ spellings, p.2 = ['=', '>'] → p.1 = .fatArrow := by decide
  have honly {other : Rule} {z : Text} (hz : z ∈ other.language) (hp : z <+: ['=', '>'] ++ cs) :
      other.initial = .mark ∧ ∃ kind, other = .fixed kind := by
    have hinitial : other.initial = (Rule.fixed .fatArrow).initial := Rule.initial_eq hmem hz hp
    have hother := other.initial_cases
    rw [hinitial] at hother
    exact ⟨hinitial, hother⟩
  refine ⟨hmem, fun other z hp hz => ?_, fun other hz => .inl ?_⟩
  · obtain ⟨hinitial, kind, rfl⟩ := honly hz hp
    exact hlength _ hz hinitial
  · obtain ⟨-, kind, rfl⟩ := honly hz (List.prefix_append _ _)
    exact congrArg Rule.fixed (hone _ hz rfl)

theorem mem_name_of_letter {rule : Rule} {z : Text} (hz : z ∈ rule.language)
    (h : rule.initial = .letter) : z ∈ Rule.name.language := by
  have hword : ∀ p ∈ spellings, (Rule.fixed p.1).initial = .letter →
      (p.2.head?.any isNameStart && p.2.all isNamePart) = true := by decide
  have hrule := rule.initial_cases
  rw [h] at hrule
  obtain rfl | ⟨kind, rfl⟩ := hrule
  · exact hz
  · have hall := hword _ hz h
    obtain ⟨c, z, rfl, -⟩ := Rule.exists_cons_of_mem hz
    simp only [List.head?_cons, Option.any_some, List.all_cons, Bool.and_eq_true] at hall
    exact mem_charIn_mul.2 ⟨c, z, hall.1, mem_charIn_kstar.2 (List.all_eq_true.1 hall.2.2), rfl⟩

theorem wins_word {c : Char} (hc : isNameStart c = true) (cs : Text) {rule : Rule}
    (hmem : c :: cs.takeWhile isNamePart ∈ rule.language)
    (hfirst : ∀ other : Rule, c :: cs.takeWhile isNamePart ∈ other.language →
      other = rule ∨ other = .name) :
    Wins rule (c :: cs.takeWhile isNamePart) (cs.dropWhile isNamePart) where
  matched := hmem
  longest := by
    intro other z hp hz
    have hlongest : LongestIn Rule.name.language (c :: cs) (c :: cs.takeWhile isNamePart) :=
      .cons hc (.kstar _ cs)
    rw [List.cons_append, List.takeWhile_append_dropWhile] at hp
    obtain ⟨d, z, rfl, hd⟩ := Rule.exists_cons_of_mem hz
    obtain rfl := (List.cons_prefix_cons.1 hp).1
    rw [Rule.initialOf_letter hc] at hd
    exact hlongest.length_le _ hp (mem_name_of_letter hz hd.symm)
  first := hfirst

theorem closesBefore_scanBlockComment (depth : Nat) (t : Text) :
    Nesting (depth + 1) (scanBlockComment depth t).1 0 ∨
      (∃ n, Nesting (depth + 1) (scanBlockComment depth t).1 (n + 1)) ∧
        (scanBlockComment depth t).2 = [] := by
  fun_induction scanBlockComment depth t with
  | case1 depth => exact .inr ⟨⟨depth, .done⟩, rfl⟩
  | case2 depth cs inside rest h ih =>
    rw [h] at ih
    obtain hclosed | ⟨⟨n, hopen⟩, hrest⟩ := ih
    · exact .inl (.opens hclosed)
    · exact .inr ⟨⟨n, .opens hopen⟩, hrest⟩
  | case3 cs => exact .inl (.closes .done)
  | case4 depth cs inside rest h ih =>
    rw [h] at ih
    obtain hclosed | ⟨⟨n, hopen⟩, hrest⟩ := ih
    · exact .inl (.closes hclosed)
    · exact .inr ⟨⟨n, .closes hopen⟩, hrest⟩
  | case5 depth c cs hopen hclose hclose' inside rest h ih =>
    rw [h] at ih
    have hprefix : c :: inside <+: c :: cs := by
      rw [← scanBlockComment_append depth cs, h]
      exact List.cons_prefix_cons.2 ⟨rfl, List.prefix_append _ _⟩
    have hopens : ¬ "/*".toList <+: c :: inside := fun hp => by
      obtain ⟨t, ht⟩ := hp.trans hprefix
      obtain ⟨rfl, rfl⟩ : '/' = c ∧ '*' :: t = cs := by simpa using ht
      exact hopen t rfl rfl
    have hcloses : ¬ "*/".toList <+: c :: inside := fun hp => by
      obtain ⟨t, ht⟩ := hp.trans hprefix
      obtain ⟨rfl, rfl⟩ : '*' = c ∧ '/' :: t = cs := by simpa using ht
      cases depth with
      | zero => exact hclose t rfl rfl rfl
      | succ depth => exact hclose' depth t rfl rfl rfl
    obtain hclosed | ⟨⟨n, hopen⟩, hrest⟩ := ih
    · exact .inl (.char hopens hcloses hclosed)
    · exact .inr ⟨⟨n, .char hopens hcloses hopen⟩, hrest⟩

theorem wordKind_cases (word : Text) :
    (wordKind word, word) ∈ spellings ∨
      wordKind word = .ident (String.ofList word) ∧
        ∀ kind, (kind, word) ∈ spellings → (Rule.fixed kind).initial ≠ .letter := by
  have hkeyword {keyword : String} (h : String.ofList word = keyword) : word = keyword.toList := by
    simp [← h]
  have hletter : ∀ p ∈ spellings, (Rule.fixed p.1).initial = .letter →
      p.2 ∈ ["const".toList, "true".toList, "false".toList] := by decide
  unfold wordKind
  split
  · rename_i h
    rw [hkeyword h]
    exact .inl (by decide)
  · rename_i h
    rw [hkeyword h]
    exact .inl (by decide)
  · rename_i h
    rw [hkeyword h]
    exact .inl (by decide)
  · rename_i hconst htrue hfalse
    refine .inr ⟨rfl, fun kind hmem hinitial => ?_⟩
    have := hletter _ hmem hinitial
    simp only [List.mem_cons, List.not_mem_nil, or_false] at this
    rcases this with rfl | rfl | rfl
    · exact hconst (by simp)
    · exact htrue (by simp)
    · exact hfalse (by simp)

theorem lexeme_word {c : Char} (hc : isNameStart c = true) (cs : Text) :
    Lexeme ⟨.token (wordKind (c :: cs.takeWhile isNamePart)), c :: cs.takeWhile isNamePart⟩
      (cs.dropWhile isNamePart) := by
  have hother {other : Rule} {z : Text} (hz : c :: z ∈ other.language) :
      other.initial = .letter ∧ (other = .name ∨ ∃ kind, other = .fixed kind) := by
    obtain ⟨d, z, hcons, hd⟩ := Rule.exists_cons_of_mem hz
    obtain ⟨rfl, rfl⟩ := List.cons.inj hcons
    have := other.initial_cases
    rw [← hd, Rule.initialOf_letter hc] at this
    exact ⟨by rw [← hd, Rule.initialOf_letter hc], this⟩
  rcases wordKind_cases (c :: cs.takeWhile isNamePart) with hword | ⟨hname, hnone⟩
  · have hone : ∀ p ∈ spellings, ∀ q ∈ spellings, p.2 = q.2 → p.1 = q.1 := by decide
    refine .matched (@wins_word c hc cs (.fixed _) hword fun other hz => ?_) .fixed
    obtain ⟨-, rfl | ⟨kind, rfl⟩⟩ := hother hz
    · exact .inr rfl
    · exact .inl (congrArg Rule.fixed (hone _ hz _ hword rfl))
  · rw [hname]
    refine .matched (wins_word hc cs ?_ fun other hz => ?_) .name
    · exact mem_charIn_mul.2 ⟨c, _, hc, mem_charIn_kstar.2 fun _ => List.mem_takeWhile_imp, rfl⟩
    · obtain ⟨hletter, rfl | ⟨kind, rfl⟩⟩ := hother hz
      · exact .inl rfl
      · exact absurd hletter (hnone kind hz)

theorem lexeme_unexpected {c : Char} {cs : Text} (hline : ∀ y, c = '/' → cs = '/' :: y → False)
    (hblock : ∀ y, c = '/' → cs = '*' :: y → False)
    (hother : c ≠ '/' → Rule.initialOf c = .other) : Lexeme ⟨.unexpected c, [c]⟩ cs := by
  refine .unexpected fun rule x hp hx => ?_
  obtain ⟨d, y, rfl, hd⟩ := Rule.exists_cons_of_mem hx
  obtain ⟨rfl, t, rfl⟩ := List.cons_prefix_cons.1 hp
  have hrule := rule.initial_cases
  rw [← hd] at hrule
  by_cases hslash : d = '/'
  · subst hslash
    rcases hrule with rfl | rfl
    · obtain ⟨_, _, -, hy, h⟩ := mem_charIn_mul.1 hx
      obtain ⟨-, rfl⟩ := List.cons.inj h
      obtain ⟨c, z, hc, -, rfl⟩ := mem_charIn_mul.1 hy
      obtain rfl : c = '/' := by simpa using hc
      exact hline (z ++ t) rfl rfl
    · obtain ⟨-, rfl⟩ := List.cons.inj (hx : '/' :: y = ['/', '*'])
      exact hblock t rfl rfl
  · rwa [hother hslash] at hrule

/-- The segment that is split off is the one that the rules prescribe. -/
theorem lexeme_first (c : Char) (cs : Text) : Lexeme (first c cs).1 (first c cs).2 := by
  unfold first
  split
  · rename_i hc
    exact .matched (wins_blank hc cs) .blank
  split
  · rename_i hc
    exact lexeme_word hc cs
  split
  · rename_i hc
    have hwf := Numeral.scan_wellFormed hc cs
    refine .matched (wins_number hc cs) ?_
    rcases (Numeral.scan c cs).1.isRounding_value with ⟨hlt, hnearest⟩ | ⟨hle, hinfinite⟩
    · simp only [hnearest.finite, if_true]
      exact .number hwf hlt hnearest
    · simp only [hinfinite, Bool.false_eq_true, if_false]
      exact .overRange hwf hle
  · rename_i hblank hname hdigit
    fun_cases scanMark c cs with
    | case1 cs => exact .matched (wins_lineComment cs) .lineComment
    | case2 cs inside rest h =>
      refine .matched (wins_blockComment (inside ++ rest)) (.blockComment ?_)
      simpa [ClosesBefore, h] using closesBefore_scanBlockComment 0 cs
    | case3 cs => exact .matched (wins_fatArrow cs) .fixed
    | case4 cs hcs => exact .matched (wins_mark (by decide) fun _ => hcs) .fixed
    | case5 | case6 | case7 | case8 | case9 | case10 | case11 =>
      exact .matched (wins_mark (by decide) (by simp)) .fixed
    | case12 c cs hline hblock _ heq hplus hquestion hcolon hleft hright hcomma hsemi =>
      refine lexeme_unexpected hline hblock fun hslash => ?_
      have hmark : c ∉ ['=', '+', '?', ':', '(', ')', ',', ';'] := by
        simpa using ⟨heq, hplus, hquestion, hcolon, hleft, hright, hcomma, hsemi⟩
      simp [Rule.initialOf, hblank, hname, hdigit, hslash, hmark]

/-! ## Partitions -/

/-- The segments cover the text, and each is the one that the rules prescribe at its place. -/
structure IsPartition (segments : List Segment) (t : Text) : Prop where
  covers : segments.flatMap (·.text) = t
  lexeme : ∀ before s after, segments = before ++ s :: after →
    s.text ≠ [] ∧ Lexeme s (after.flatMap (·.text))

theorem isPartition_nil : IsPartition [] [] := ⟨rfl, by simp⟩

theorem isPartition_cons {s : Segment} {ss : List Segment} {t : Text} :
    IsPartition (s :: ss) t ↔
      ∃ rest, t = s.text ++ rest ∧ s.text ≠ [] ∧ Lexeme s rest ∧ IsPartition ss rest := by
  constructor
  · rintro ⟨rfl, h⟩
    refine ⟨ss.flatMap (·.text), by simp, (h [] s ss rfl).1, (h [] s ss rfl).2, rfl, ?_⟩
    rintro before s' after rfl
    exact h (s :: before) s' after rfl
  · rintro ⟨rest, rfl, hne, hlexeme, rfl, h⟩
    refine ⟨by simp, fun before s' after he => ?_⟩
    cases before with
    | nil =>
      obtain ⟨rfl, rfl⟩ := List.cons.inj he
      exact ⟨hne, hlexeme⟩
    | cons b before =>
      obtain ⟨-, rfl⟩ := List.cons.inj he
      exact h before s' after rfl

theorem split_nil : split [] = [] := by rw [split]

theorem split_cons (c : Char) (cs : Text) :
    split (c :: cs) = (first c cs).1 :: split (first c cs).2 := by rw [split]

theorem isPartition_split (t : Text) : IsPartition (split t) t := by
  fun_induction split t with
  | case1 => exact isPartition_nil
  | case2 c cs ih =>
    exact isPartition_cons.2 ⟨_, (first_append c cs).symm, first_text_ne_nil c cs,
      lexeme_first c cs, ih⟩

/-- A text has no other partition. -/
theorem IsPartition.eq_split {segments : List Segment} {t : Text} (h : IsPartition segments t) :
    segments = split t := by
  induction segments generalizing t with
  | nil =>
    obtain rfl : [] = t := h.covers
    exact split_nil.symm
  | cons s ss ih =>
    obtain ⟨rest, rfl, hne, hlexeme, hrest⟩ := isPartition_cons.1 h
    cases ht : s.text ++ rest with
    | nil => simp [hne] at ht
    | cons c cs =>
      have happend := first_append c cs
      have hs : s = (first c cs).1 := hlexeme.unique (lexeme_first c cs) (by rw [ht, happend])
      have hrest' : rest = (first c cs).2 := by
        rw [← happend, ← hs, List.append_cancel_left_eq] at ht
        exact ht
      rw [split_cons, ← hs, ← hrest', ih hrest]

/-! ## Pieces of a text -/

theorem Wins.cut {rule : Rule} {x y z : Text} (h : Wins rule x (y ++ z)) : Wins rule x y where
  matched := h.matched
  longest other w hw hmem := by
    refine h.longest other w (hw.trans ?_) hmem
    rw [← List.append_assoc]
    exact List.prefix_append _ z
  first := h.first

theorem ClosesBefore.cut {x y z : Text} (h : ClosesBefore x (y ++ z)) : ClosesBefore x y :=
  h.imp_right (And.imp_right fun hend => (List.append_eq_nil_iff.1 hend).1)

/-- The text after a segment may end earlier. -/
theorem Lexeme.cut {s : Segment} {y z : Text} (h : Lexeme s (y ++ z)) : Lexeme s y := by
  cases h with
  | matched hwins hmade =>
    cases hmade with
    | blank => exact .matched hwins.cut .blank
    | lineComment => exact .matched hwins.cut .lineComment
    | blockComment hcloses =>
      rw [← List.append_assoc] at hwins
      exact .matched hwins.cut (.blockComment hcloses.cut)
    | name => exact .matched hwins.cut .name
    | fixed => exact .matched hwins.cut .fixed
    | number hn hlt hnearest => exact .matched hwins.cut (.number hn hlt hnearest)
    | overRange hn hle => exact .matched hwins.cut (.overRange hn hle)
  | @unexpected c _ hnone =>
    refine .unexpected fun rule x hx => hnone rule x (hx.trans ?_)
    exact List.prefix_append (c :: y) z

/-- Segments that follow one another in a text are the segments of their own text. -/
theorem split_flatMap_text {t : Text} {before inside after : List Segment}
    (h : split t = before ++ inside ++ after) : split (inside.flatMap (·.text)) = inside := by
  refine (IsPartition.eq_split ⟨rfl, ?_⟩).symm
  rintro before' s after' rfl
  have hs := (isPartition_split t).lexeme (before ++ before') s (after' ++ after) (by simp [h])
  rw [List.flatMap_append] at hs
  exact ⟨hs.1, hs.2.cut⟩

end ArrowLang
