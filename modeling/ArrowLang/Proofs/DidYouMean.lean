import ArrowLang.Diagnostic.OfError
import ArrowLang.Proofs.Checking.UnknownNames
import ArrowLang.Proofs.SourceEdit
import ArrowLang.Proofs.Spelling.Closest

/-!
# Did you mean another name?

The diagnostic of an unknown name may suggest one that is in scope. A program that follows the
suggestion is read as the same term but for that name, and its check gets past the place where the
name was unknown (`suggestion_mends_program`).
-/

namespace ArrowLang

open Segment

/-! ## What is suggested -/

def Diagnostic.suggestion? (d : Diagnostic) : Option Suggestion := d.help.bind (·.suggestion)

/-- What is suggested for an unknown name is a name in scope, in its place. -/
theorem TypeError.suggestion_of_unknown {e : TypeError} {x : String} {inScope : List String}
    {s : Suggestion} (he : e.cause = .unknownVariable x inScope)
    (hs : e.diagnostic.suggestion? = some s) :
    s = ⟨e.term.span, s.replacement⟩ ∧ s.replacement ∈ inScope := by
  rw [diagnostic, he] at hs
  simp only [withSpelling] at hs
  split at hs
  · rename_i closest hclosest
    cases hs
    exact ⟨rfl, Spelling.mem_of_closest? hclosest⟩
  · split at hs <;> cases hs

/-! ## Names that a program binds -/

namespace Written

open Token

theorem Params.ident_mem {ts : List Token} {ps : List ParamDecl} (h : Params ts ps) :
    ∀ x ∈ ps.map ParamDecl.name, Kind.ident x ∈ ts.map (·.kind) := by
  cases h with
  | nil => simp
  | last _ => simp
  | cons _ hps =>
    simp only [List.map_cons, List.forall_mem_cons]
    refine ⟨by simp, fun x hx => ?_⟩
    have := hps.ident_mem x hx
    simp [this]

mutual

/-- A name that a term binds is among its tokens. -/
theorem Expr.ident_mem {i j k : Nat} {ts : List Token} {t : Term} {x : String} :
    Expr i ts t j → x ∈ t.head.binds k → Kind.ident x ∈ ts.map (·.kind)
  | .sum hsum => hsum.ident_mem
  | .cond .. => by simp [Term.head, Head.binds]

theorem Sum.ident_mem {o : Bool} {i j k : Nat} {ts : List Token} {t : Term} {x : String} :
    Sum o i ts t j → x ∈ t.head.binds k → Kind.ident x ∈ ts.map (·.kind)
  | .operand hop => hop.ident_mem
  | .add .. => by simp [Term.head, Head.binds]

theorem Operand.ident_mem {o : Bool} {i j k : Nat} {ts : List Token} {t : Term} {x : String} :
    Operand o i ts t j → x ∈ t.head.binds k → Kind.ident x ∈ ts.map (·.kind)
  | .closed hpost => hpost.ident_mem
  | .arrow hps _ => fun hx => by
    have := hps.ident_mem x (by simpa [Term.head, Head.binds, ParamDecl.map_name_toParams] using hx)
    simp [this]

theorem Postfix.ident_mem {i j k : Nat} {ts : List Token} {t : Term} {x : String} :
    Postfix i ts t j → x ∈ t.head.binds k → Kind.ident x ∈ ts.map (·.kind)
  | .atom hatom => hatom.ident_mem
  | .call .. => by simp [Term.head, Head.binds]

theorem Atom.ident_mem {i j k : Nat} {ts : List Token} {t : Term} {x : String} :
    Atom i ts t j → x ∈ t.head.binds k → Kind.ident x ∈ ts.map (·.kind)
  | .number | .bool | .var => by simp [Term.head, Head.binds]
  | .paren hexpr => fun hx => by
    have := hexpr.ident_mem (by simpa using hx)
    simp [this]

end

theorem Statements.ident_mem {i j k : Nat} {ts : List Token} {t : Term} {x : String}
    (h : Statements i ts t j) (hx : x ∈ t.head.binds k) : Kind.ident x ∈ ts.map (·.kind) := by
  cases h with
  | last hexpr => exact hexpr.ident_mem hx
  | seq => simp [Term.head, Head.binds] at hx
  | const =>
    simp only [Term.head, Head.binds] at hx
    split at hx <;> simp_all

end Written

/-- All names that a program binds are names that it can use. -/
theorem isName_of_binds {t : Text} {T n : Term} {k : Nat} {x : String} (hT : Term.read t = .ok T)
    (hn : n.Within T) (hx : x ∈ n.head.binds k) : isName x = true := by
  obtain ⟨us, i, j, hus, hwritten⟩ := (part_of_read hT).within hn
  obtain ⟨a, ha, hkind⟩ := List.mem_map.1 (hwritten.ident_mem hx)
  obtain ⟨kind, span⟩ := a
  obtain rfl : kind = .ident x := hkind
  exact isName_of_mem_tokens (hus.subset ha)

/-! ## Programs that follow a suggestion -/

/-- A suggestion for an unknown name is a correct edit. The new text is read as the same term, node
by node, but for the name of the one variable that the error is about. The check of that term comes
to no unknown name at this node, and it enters at least as many nodes as the first check did. -/
theorem suggestion_mends_program {t : Text} {T : Term} {c : Checker} {e : TypeError} {x : String}
    {inScope : List String} {s : Suggestion} (hT : Term.read t = .ok T)
    (herror : (c.check .empty T).1 = .error e) (he : e.cause = .unknownVariable x inScope)
    (hs : e.diagnostic.suggestion? = some s) :
    e.term.Within T ∧ e.term.head = .var x ∧ T.ids.Nodup ∧
    ∃ t' T', s.edit? t = some t' ∧ (Token.lex t').errors = [] ∧ Term.read t' = .ok T' ∧
      T.Like (Term.Renamed e.term.id s.replacement) T' ∧
      (∀ e' y names, (c.check .empty T').1 = .error e' → e'.cause = .unknownVariable y names →
        e'.term.id ≠ e.term.id) ∧
      (c.check .empty T).2.visited ≤ (c.check .empty T').2.visited := by
  obtain ⟨hwithin, hhead⟩ := Term.within_of_unknown herror he
  obtain ⟨hspan, hmem⟩ := TypeError.suggestion_of_unknown he hs
  have hname : isName s.replacement = true := by
    obtain hempty | ⟨n, k, hn, hbinds⟩ := Term.exists_binds_of_unknown herror he hmem
    · simp [Env.names, Env.empty] at hempty
    · exact isName_of_binds hT hn hbinds
  have hnodup : T.ids.Nodup := by
    obtain ⟨-, us, vs, k, -, -, hwritten⟩ := read_eq_ok_iff_written.1 hT
    exact hwritten.nodup_ids
  obtain ⟨t', T', U, hedited, hT', hedit, hlike⟩ := read_replace hT hwithin hhead hname
  have hmends := hedit.mends hnodup herror he rfl hmem
  -- the check of what is read is that of the edited term
  have hstep : Traced.InStep Eq _ (U.infer .empty) (T'.infer .empty) :=
    simulation_spans.infer ⟨rfl, hlike⟩
  refine ⟨hwithin, hhead, hnodup, t', T', hspan ▸ hedited, ?_, hT', ?_, ?_, ?_⟩
  · rw [lex_of_clean (read_eq_ok_iff_written.1 hT').1]
  · exact (hedit.like hnodup).trans hlike fun i a b b' hab hb => hb ▸ hab
  · intro e' y names herror' hcause hid
    have hagree := hstep.result
    rw [show (T'.infer .empty).result = .error e' from herror'] at hagree
    obtain ⟨e₁, hU, hcause₁, hid₁⟩ := hagree.exists_error
    exact hmends.passes e₁ hU ⟨hid₁.trans hid, y, names, hcause₁.trans hcause⟩
  · rw [Checker.check_eq, Checker.check_eq]
    exact Nat.add_le_add_left (hstep.visits ▸ hmends.visits) c.visited

/-- The unknown name stands in parentheses with a comment, and the new program has another error. -/
theorem suggestion_mends_program_paren : ∃ T T',
    Term.read "const sum = true; (n: number) => n + (/* é */ sun)".toList = .ok T ∧
      (Checker.new.check .empty T).1 = .error
        ⟨.unknownVariable "sun" ["n", "sum"], .var ⟨2, ⟨37, 51⟩⟩ "sun"⟩ ∧
      Term.read "const sum = true; (n: number) => n + sum".toList = .ok T' ∧
      T.Like (Term.Renamed 2 "sum") T' ∧
      (∀ e' y names, (Checker.new.check .empty T').1 = .error e' →
        e'.cause = .unknownVariable y names → e'.term.id ≠ 2) ∧
      (Checker.new.check .empty T).2.visited ≤ (Checker.new.check .empty T').2.visited := by
  let sun : Term := .var ⟨2, ⟨37, 51⟩⟩ "sun"
  let body : Term := .add ⟨3, ⟨33, 51⟩⟩ (.var ⟨1, ⟨33, 34⟩⟩ "n") sun
  let T : Term := .const ⟨5, ⟨0, 51⟩⟩ "sum" (.bool ⟨0, ⟨12, 16⟩⟩ true)
    (.func ⟨4, ⟨18, 51⟩⟩ [⟨"n", .number ⟨22, 28⟩, ⟨19, 28⟩⟩] body)
  have hT : Term.read "const sum = true; (n: number) => n + (/* é */ sun)".toList = .ok T := by
    with_unfolding_all rfl
  have herror : (Checker.new.check .empty T).1 =
      .error ⟨.unknownVariable "sun" ["n", "sum"], sun⟩ := by
    with_unfolding_all rfl
  have hs : (TypeError.diagnostic ⟨.unknownVariable "sun" ["n", "sum"], sun⟩).suggestion? =
      some ⟨⟨37, 51⟩, "sum"⟩ := by
    decide +kernel
  have hedit : Suggestion.edit? ⟨⟨37, 51⟩, "sum"⟩
      "const sum = true; (n: number) => n + (/* é */ sun)".toList =
      some "const sum = true; (n: number) => n + sum".toList := by
    decide +kernel
  obtain ⟨-, -, -, t', T', ht', -, hT', hlike, hpasses, hvisits⟩ :=
    suggestion_mends_program hT herror rfl hs
  obtain rfl := Option.some.inj (hedit.symm.trans ht')
  exact ⟨T, T', hT, herror, hT', hlike, hpasses, hvisits⟩

end ArrowLang
