import ArrowLang.Proofs.Checking
import ArrowLang.Proofs.Grammar.Complete
import ArrowLang.Proofs.Lexing.Tokens

/-!
# Printed types read back

A type is printed as a program writes it. If its parameters have names that a program can give
them, the text falls into the tokens of an annotation for that very type, whatever comes after it
that does not lengthen its last word. So a parameter that is annotated with the printed type gets
the type back, with all its names, and no two types are printed alike.
-/

namespace ArrowLang

open Segment Grammar

/-! ## Types with proper names -/

/-- A name that a program can use: a word that is no keyword. -/
def isName (x : String) : Bool :=
  x.toList.head?.any isNameStart && x.toList.all isNamePart &&
    !(["const", "true", "false"].contains x)

mutual

/-- All parameters of a type, at any depth, have names that a program can use. -/
def Ty.named : Ty → Bool
  | .boolean | .number => true
  | .function ps r => Param.allNamed ps && r.named

def Param.allNamed : List Param → Bool
  | [] => true
  | ⟨x, t⟩ :: ps => isName x && t.named && Param.allNamed ps

end

/-! ## Spelling -/

/-- The token that a segment is, without its place. -/
def Segment.tokenKind? (s : Segment) : Option Token.Kind :=
  match s.kind with
  | .token kind => some kind
  | _ => none

/-- Before `rest`, the text `x` falls into tokens of the kinds `w`, with blanks between them. -/
def Spells (x : Text) (w : List Token.Kind) (rest : Text) : Prop :=
  ∃ ss, split (x ++ rest) = ss ++ split rest ∧ (∀ s ∈ ss, s.Clean) ∧ ss.filterMap tokenKind? = w

theorem Spells.append {x y rest : Text} {v w : List Token.Kind} (hx : Spells x v (y ++ rest))
    (hy : Spells y w rest) : Spells (x ++ y) (v ++ w) rest := by
  obtain ⟨ss, hss, hclean, rfl⟩ := hx
  obtain ⟨ss', hss', hclean', rfl⟩ := hy
  refine ⟨ss ++ ss', by rw [List.append_assoc, hss, hss', List.append_assoc], ?_, by simp⟩
  intro s hs
  exact (List.mem_append.1 hs).elim (hclean s) (hclean' s)

theorem spells_nil (rest : Text) : Spells [] [] rest := ⟨[], rfl, by simp, rfl⟩

/-- One more segment at the front. -/
theorem Spells.cons {y rest : Text} {w : List Token.Kind} (h : Spells y w rest) (s : Segment)
    (hs : s.Clean) {c : Char} {cs : Text} (hfirst : first c cs = (s, y ++ rest)) :
    Spells (s.text ++ y) (s.tokenKind?.toList ++ w) rest := by
  obtain ⟨ss, hss, hall, rfl⟩ := h
  refine ⟨s :: ss, ?_, List.forall_mem_cons.2 ⟨hs, hall⟩, ?_⟩
  · have happend := first_append c cs
    rw [hfirst] at happend
    rw [List.append_assoc, happend, split_cons, hfirst, hss, List.cons_append]
  · cases hkind : s.tokenKind? <;> simp [hkind]

theorem Spells.mark {c : Char} {y rest : Text} {w : List Token.Kind} (h : Spells y w rest)
    (k : Token.Kind) (hfirst : ∀ t, first c t = (⟨.token k, [c]⟩, t)) :
    Spells (c :: y) (k :: w) rest :=
  h.cons ⟨.token k, [c]⟩ (by simp [Clean]) (hfirst _)

theorem Spells.fatArrow {y rest : Text} {w : List Token.Kind} (h : Spells y w rest) :
    Spells ('=' :: '>' :: y) (.fatArrow :: w) rest :=
  h.cons ⟨.token .fatArrow, ['=', '>']⟩ (by simp [Clean])
    (show first '=' ('>' :: (y ++ rest)) = _ from rfl)

/-- A run of characters of a class ends where it is followed by none of the class. -/
theorem takeWhile_dropWhile_append {p : Char → Bool} {x rest : Text} (hx : ∀ c ∈ x, p c = true)
    (hrest : ∀ c ∈ rest.head?, p c = false) :
    (x ++ rest).takeWhile p = x ∧ (x ++ rest).dropWhile p = rest := by
  have htake : (x ++ rest).takeWhile p = x := by
    rw [List.takeWhile_append_of_pos hx]
    cases rest with
    | nil => simp
    | cons c rest => simp [hrest c rfl]
  have happend := List.takeWhile_append_dropWhile (p := p) (l := x ++ rest)
  rw [htake, List.append_cancel_left_eq] at happend
  exact ⟨htake, happend⟩

theorem Spells.space {y rest : Text} {w : List Token.Kind} (h : Spells y w rest)
    (hy : ∀ c ∈ (y ++ rest).head?, isBlank c = false) : Spells (' ' :: y) w rest := by
  obtain ⟨htake, hdrop⟩ := takeWhile_dropWhile_append (x := []) (by simp) hy
  have hfirst : first ' ' (y ++ rest) = (⟨.blank, [' ']⟩, y ++ rest) := by
    rw [List.nil_append] at htake hdrop
    rw [first, if_pos (by decide), htake, hdrop]
  exact h.cons ⟨.blank, [' ']⟩ (by simp [Clean]) hfirst

/-- What follows does not lengthen a word. -/
def EndsWord (rest : Text) : Prop := ∀ c ∈ rest.head?, isNamePart c = false

theorem exists_cons_of_isName {x : String} (hx : isName x = true) : ∃ c cs, x.toList = c :: cs ∧
    isNameStart c = true ∧ (∀ d ∈ cs, isNamePart d = true) ∧ wordKind x.toList = .ident x := by
  simp only [isName, Bool.and_eq_true, Bool.not_eq_true'] at hx
  obtain ⟨⟨hstart, hpart⟩, hkeyword⟩ := hx
  have hword : wordKind x.toList = .ident x := by
    unfold wordKind
    rw [String.ofList_toList]
    split <;> simp_all
  cases hlist : x.toList with
  | nil => simp [hlist] at hstart
  | cons c cs => exact ⟨c, cs, rfl, by simp_all, by simp_all, hlist ▸ hword⟩

theorem spells_name {x : String} (hx : isName x = true) {rest : Text} (h : EndsWord rest) :
    Spells x.toList [.ident x] rest := by
  obtain ⟨c, cs, hlist, hc, hcs, hword⟩ := exists_cons_of_isName hx
  obtain ⟨htake, hdrop⟩ := takeWhile_dropWhile_append hcs h
  have hfirst : first c (cs ++ rest) = (⟨.token (.ident x), x.toList⟩, rest) := by
    rw [first, if_neg (by simp [Rule.not_isBlank (.inl hc)]), if_pos hc]
    simp only [htake, hdrop, ← hlist, hword]
  have hspells := (spells_nil rest).cons ⟨.token (.ident x), x.toList⟩ (by simp [Clean]) hfirst
  rwa [List.append_nil] at hspells

/-! ## Types -/

/-! No blank is printed before a type or a name, so a space before it is a segment of its own. -/

theorem isBlank_head_render (T : Ty) (rest : Text) :
    ∀ c ∈ (T.render.toList ++ rest).head?, isBlank c = false := by
  cases T <;> simp [Ty.render] <;> decide

theorem isBlank_head_renderAll {p : Param} {ps : List Param}
    (h : Param.allNamed (p :: ps) = true) (rest : Text) :
    ∀ c ∈ ((", ".intercalate (Param.renderAll (p :: ps))).toList ++ rest).head?,
      isBlank c = false := by
  obtain ⟨x, t⟩ := p
  rw [Param.allNamed, Bool.and_eq_true, Bool.and_eq_true] at h
  obtain ⟨c, cs, hlist, hc, -⟩ := exists_cons_of_isName h.1.1
  cases ps <;> simp [Param.renderAll, hlist, Rule.not_isBlank (.inl hc)]

/-- A parameter is printed with what is printed after it. -/
theorem spells_param {x : String} (hx : isName x = true) {t : Ty} {v w : List Token.Kind}
    {y rest : Text} (ht : Spells t.render.toList v (y ++ rest)) (hy : Spells y w rest) :
    Spells (x.toList ++ ':' :: ' ' :: (t.render.toList ++ y)) (.ident x :: .colon :: (v ++ w))
      rest := by
  have htype := (ht.append hy).space (by simpa using isBlank_head_render t (y ++ rest))
  have hcolon := htype.mark (c := ':') .colon fun _ => rfl
  exact (spells_name hx (by simp [EndsWord]; decide)).append hcolon

mutual

theorem Ty.spells_render : ∀ {T : Ty}, T.named = true → ∀ rest : Text, EndsWord rest →
    ∃ w, Annotation w T ∧ Spells T.render.toList w rest
  | .boolean, _, rest, hrest => ⟨_, .boolean, spells_name (x := "boolean") (by decide) hrest⟩
  | .number, _, rest, hrest => ⟨_, .number, spells_name (x := "number") (by decide) hrest⟩
  | .function ps r, h, rest, hrest => by
    simp only [Ty.named, Bool.and_eq_true] at h
    obtain ⟨v, hr, hv⟩ := Ty.spells_render h.2 rest hrest
    have harrow := (hv.space (isBlank_head_render r rest)).fatArrow
    have hresult := (harrow.space (by simp; decide)).mark (c := ')') .rightParen fun _ => rfl
    obtain ⟨u, hps, hu⟩ := Param.spells_renderAll h.1 (' ' :: '=' :: '>' :: ' ' ::
      (r.render.toList ++ rest))
    refine ⟨_, .function hps hr, ?_⟩
    simpa [Ty.render] using (hu.append hresult).mark (c := '(') .leftParen fun _ => rfl

theorem Param.spells_renderAll : ∀ {ps : List Param}, Param.allNamed ps = true →
    ∀ rest : Text, ∃ w, Params w ps ∧
      Spells (", ".intercalate (Param.renderAll ps)).toList w (')' :: rest)
  | [], _, rest => ⟨[], .nil, spells_nil _⟩
  | [⟨x, t⟩], h, rest => by
    simp only [Param.allNamed, Bool.and_eq_true] at h
    obtain ⟨w, ht, hw⟩ := Ty.spells_render h.1.2 (')' :: rest) (by simp [EndsWord]; decide)
    refine ⟨_, .last ht, ?_⟩
    simpa [Param.renderAll] using spells_param h.1.1 (y := []) hw (spells_nil _)
  | ⟨x, t⟩ :: ⟨x', t'⟩ :: ps, h, rest => by
    rw [Param.allNamed, Bool.and_eq_true, Bool.and_eq_true] at h
    obtain ⟨v, hps, hv⟩ := Param.spells_renderAll h.2 rest
    have hcomma := (hv.space (isBlank_head_renderAll h.2 (')' :: rest))).mark (c := ',') .comma
      fun _ => rfl
    obtain ⟨w, ht, hw⟩ := Ty.spells_render h.1.2 (',' :: ' ' ::
      ((", ".intercalate (Param.renderAll (⟨x', t'⟩ :: ps))).toList ++ ')' :: rest))
      (by simp [EndsWord]; decide)
    refine ⟨_, .cons ht hps, ?_⟩
    simpa [Param.renderAll, String.intercalate_cons_cons] using spells_param h.1.1 hw hcomma

end

/-! ## Reading back -/

theorem Segment.map_kind_located (offset : Nat) (ss : List Segment) :
    ((located offset ss).filterMap token?).map (·.kind) = ss.filterMap tokenKind? := by
  induction ss generalizing offset with
  | nil => rfl
  | cons s ss ih =>
    obtain ⟨kind, text⟩ := s
    cases kind <;> simp [located, token?, tokenKind?, List.filterMap_cons, ih]

/-- A text that spells the tokens of statements is a term. -/
theorem Spells.exists_read {t : Text} {w : List Token.Kind} {u : Shape} (h : Spells t w [])
    (hu : Statements w u) : ∃ T, Term.read t = .ok T ∧ T.shape = u := by
  obtain ⟨ss, hss, hclean, rfl⟩ := h
  obtain rfl : split t = ss := by simpa [split_nil] using hss
  have heof := eof_not_mem_located 0 t
  rw [map_kind_located] at heof
  have hkinds : ((located 0 (split t)).filterMap token? ++
      [Token.mk .eof ⟨t.size, t.size⟩]).map (·.kind) =
        (split t).filterMap tokenKind? ++ [.eof] := by
    rw [List.map_append, map_kind_located]
    rfl
  obtain ⟨T, hparse, hshape⟩ := (parse_iff_statements hkinds heof).2 hu
  exact ⟨T, Term.read_eq_ok_iff.2 ⟨hclean, hparse⟩, hshape⟩

/-- The function that gives back its argument, of type `T`. -/
def Ty.identity (T : Ty) : String := "(x: " ++ T.render ++ ") => x"

theorem Ty.exists_read_identity {T : Ty} (h : T.named = true) :
    ∃ t, Term.read T.identity.toList = .ok t ∧ t.shape = .func [⟨"x", T⟩] (.var "x") := by
  have hx : isName "x" = true := by decide
  have hname : Spells "x".toList [.ident "x"] [] := spells_name hx (by simp [EndsWord])
  have hbody := (hname.space (by simp; decide)).fatArrow.space (by simp; decide)
  obtain ⟨w, hT, hw⟩ := Ty.spells_render h ") => x".toList (by simp [EndsWord]; decide)
  have hparam := spells_param hx hw (hbody.mark (c := ')') .rightParen fun _ => rfl)
  have htext := hparam.mark (c := '(') .leftParen fun _ => rfl
  have hfunc := Operand.arrow (.last (x := "x") hT)
    (.sum (.operand (.closed (.atom (.var (x := "x"))))))
  exact Spells.exists_read (by simpa [Ty.identity] using htext)
    (by simpa using .last (.sum (.operand hfunc)))

theorem check_of_shape_identity {t : Term} {T : Ty}
    (h : t.shape = .func [⟨"x", T⟩] (.var "x")) :
    t.check .empty = .ok (.function [⟨"x", T⟩] T) := by
  cases t with
  | func n ps b =>
    obtain ⟨hps, hb⟩ := Shape.func.inj h
    cases b with
    | var m y =>
      obtain rfl := Shape.var.inj hb
      rw [Term.check_func, Term.check_var, hps, Env.lookup_extend]
      simp [Param.bindings]
    | _ => simp [Term.shape] at hb
  | _ => simp [Term.shape] at h

/-- The printed type of a parameter is read back as the type itself, so no two types are printed
alike. -/
theorem render_reads_back {T : Ty} (h : T.named = true) :
    (∃ t, Term.read T.identity.toList = .ok t ∧
      (t.typecheck .empty).1 = .ok (.function [⟨"x", T⟩] T)) ∧
    ∀ U : Ty, U.named = true → U.render = T.render → U = T := by
  obtain ⟨t, hread, hshape⟩ := T.exists_read_identity h
  refine ⟨⟨t, hread, check_of_shape_identity hshape⟩, fun U hU hrender => ?_⟩
  obtain ⟨t', hread', hshape'⟩ := U.exists_read_identity hU
  have hsame : t' = t := by
    rw [Ty.identity, hrender, ← Ty.identity, hread] at hread'
    exact (Except.ok.inj hread').symm
  simp_all

/-- Parameters may be called as types are, and two of a list may have one name. -/
theorem render_reads_back_names :
    ∃ T : Ty, T = .function [⟨"boolean", .number⟩, ⟨"boolean", .function [⟨"$", .number⟩] .number⟩]
        (.function [] .boolean) ∧
      T.named = true ∧ T.identity =
        "(x: (boolean: number, boolean: ($: number) => number) => () => boolean) => x" ∧
      ∃ t, Term.read T.identity.toList = .ok t ∧
        (t.typecheck .empty).1 = .ok (.function [⟨"x", T⟩] T) :=
  ⟨_, rfl, by decide, by decide +kernel, (render_reads_back (by decide)).1⟩

end ArrowLang
