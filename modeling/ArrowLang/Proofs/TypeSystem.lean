import Mathlib.Logic.Function.Basic
import ArrowLang.Proofs.Checking
import ArrowLang.Proofs.Subterms
import ArrowLang.Proofs.TypeEquality

/-!
# The type system

`HasType` gives the typing rules over a flat partial map from names to types. Conversion between
types that differ only in names of parameters is a rule of its own and can be used anywhere, so the
rules do not follow the term. The checker decides them: what it finds is derivable, and whatever is
derivable differs from what it finds only by a last conversion.
-/

namespace ArrowLang

/-! ## Contexts -/

abbrev Context := String → Option Ty

namespace Context

def bind (Γ : Context) (x : String) (T : Ty) : Context := Function.update Γ x (some T)

/-- Binds from left to right, so that the last binding of a name counts. -/
def extend (Γ : Context) (bs : List (String × Ty)) : Context :=
  bs.foldl (fun Δ b => Δ.bind b.1 b.2) Γ

theorem extend_apply (Γ : Context) (bs : List (String × Ty)) (x : String) :
    Γ.extend bs x = (bs.reverse.lookup x).or (Γ x) := by
  induction bs generalizing Γ with
  | nil => simp [extend]
  | cons b bs ih =>
    obtain ⟨y, T⟩ := b
    have hstep : Γ.extend ((y, T) :: bs) = (Γ.bind y T).extend bs := rfl
    rw [hstep, ih, List.reverse_cons, List.lookup_append, Option.or_assoc]
    congr 1
    by_cases h : x = y
    · simp [bind, h]
    · have hxy : (x == y) = false := by simpa using h
      simp [bind, Function.update_of_ne h, List.lookup_cons, hxy]

/-- Both bind the same names, each to types that differ at most in names of parameters. -/
def Same (Γ Δ : Context) : Prop := ∀ x, Option.Rel (fun T U => T.same U = true) (Γ x) (Δ x)

theorem Same.refl (Γ : Context) : Γ.Same Γ := by
  intro x
  cases Γ x with
  | none => exact .none
  | some T => exact .some (Ty.same_refl T)

variable {Γ Δ : Context} {x : String} {T U : Ty}

theorem Same.bind (h : Γ.Same Δ) (hT : T.same U = true) : (Γ.bind x T).Same (Δ.bind x U) := by
  intro y
  by_cases hy : y = x
  · subst hy
    simpa [Context.bind] using Option.Rel.some hT
  · simpa [Context.bind, hy] using h y

theorem Same.extend (h : Γ.Same Δ) (bs : List (String × Ty)) :
    (Γ.extend bs).Same (Δ.extend bs) := by
  induction bs generalizing Γ Δ with
  | nil => exact h
  | cons b bs ih => exact ih (h.bind (Ty.same_refl b.2))

end Context

namespace Env

theorem lookup_bind_eq (env : Env) (x : String) (T : Ty) :
    (env.bind x T).lookup = Context.bind env.lookup x T := by
  funext y
  simp [lookup_bind, Context.bind, Function.update_apply]

theorem lookup_extend_eq (env : Env) (bs : List (String × Ty)) :
    (env.extend bs).lookup = Context.extend env.lookup bs := by
  funext y
  rw [lookup_extend, Context.extend_apply]

end Env

/-! ## Rules -/

/-- `HasType Γ t T`: the term `t` can be given the type `T` where names have the types of `Γ`. -/
inductive HasType : Context → Term → Ty → Prop where
  | bool {Γ n v} : HasType Γ (.bool n v) .boolean
  | number {Γ n v} : HasType Γ (.number n v) .number
  | var {Γ n x T} : Γ x = some T → HasType Γ (.var n x) T
  | add {Γ n l r} : HasType Γ l .number → HasType Γ r .number → HasType Γ (.add n l r) .number
  | cond {Γ n c y e T} : HasType Γ c .boolean → HasType Γ y T → HasType Γ e T →
      HasType Γ (.cond n c y e) T
  | func {Γ n ps b R} : HasType (Γ.extend (Param.bindings (ParamDecl.toParams ps))) b R →
      HasType Γ (.func n ps b) (.function (ParamDecl.toParams ps) R)
  | call {Γ n f as ps R} : HasType Γ f (.function ps R) → as.length = ps.length →
      (∀ (i : Nat) (a : Term) (p : Param), as[i]? = some a → ps[i]? = some p →
        HasType Γ a p.type) →
      HasType Γ (.call n f as) R
  | seq {Γ n b r S T} : HasType Γ b S → HasType Γ r T → HasType Γ (.seq n b r) T
  | const {Γ n x i r S T} : HasType Γ i S → HasType (Γ.bind x S) r T →
      HasType Γ (.const n x i r) T
  | conv {Γ t T U} : HasType Γ t T → T.same U = true → HasType Γ t U

namespace Term

open TypeError

/-- Arguments pass exactly if each has a type that its parameter takes. -/
theorem checkArgs_eq_ok_iff {env : Env} {k : Nat} {as : List Term} {ps : List Param}
    (hlen : as.length = ps.length) :
    checkArgs env k as ps = .ok () ↔
      ∀ (i : Nat) (a : Term) (p : Param), as[i]? = some a → ps[i]? = some p →
        ∃ T, a.check env = .ok T ∧ T.same p.type = true := by
  induction as generalizing k ps with
  | nil => simp
  | cons a as ih =>
    cases ps with
    | nil => simp at hlen
    | cons p ps =>
      simp only [checkArgs_cons, bind_eq_ok_iff, ite_error_eq_ok_iff, ih (by simpa using hlen)]
      constructor
      · rintro ⟨T, hT, hsame, hrest⟩ i a' p' ha hp
        cases i with
        | zero =>
          obtain rfl : a = a' := by simpa using ha
          obtain rfl : p = p' := by simpa using hp
          exact ⟨T, hT, hsame⟩
        | succ i => exact hrest i a' p' (by simpa using ha) (by simpa using hp)
      · intro h
        obtain ⟨T, hT, hsame⟩ := h 0 a p rfl rfl
        exact ⟨T, hT, hsame, fun i a' p' ha hp => h (i + 1) a' p' ha hp⟩

/-- What the checker finds is derivable. -/
theorem hasType_of_check {env : Env} {t : Term} {T : Ty} (h : t.check env = .ok T) :
    HasType env.lookup t T := by
  induction t using children_induction generalizing env T with
  | step t ih =>
    cases t with
    | bool n v =>
      obtain rfl : Ty.boolean = T := by simpa using h
      exact .bool
    | number n v =>
      obtain rfl : Ty.number = T := by simpa using h
      exact .number
    | var n x =>
      rw [check_var] at h
      cases hx : env.lookup x with
      | none => simp [hx] at h
      | some U =>
        obtain rfl : U = T := by simpa [hx] using h
        exact .var hx
    | add n l r =>
      simp only [check_add, bind_eq_ok_iff, ite_error_eq_ok_iff, Ty.same_number] at h
      obtain ⟨_, hl, rfl, _, hr, rfl, ⟨⟩⟩ := h
      exact .add (ih l (by simp [children]) hl) (ih r (by simp [children]) hr)
    | cond n c y e =>
      simp only [check_cond, bind_eq_ok_iff, ite_error_eq_ok_iff, Ty.same_boolean] at h
      obtain ⟨_, hc, rfl, yes, hy, no, he, hsame, ⟨⟩⟩ := h
      exact .cond (ih c (by simp [children]) hc) (ih y (by simp [children]) hy)
        (.conv (ih e (by simp [children]) he) (Ty.same_symm hsame))
    | func n ps b =>
      simp only [check_func, bind_eq_ok_iff] at h
      obtain ⟨R, hb, ⟨⟩⟩ := h
      have hbody := ih b (by simp [children]) hb
      rw [Env.lookup_extend_eq] at hbody
      exact .func hbody
    | call n f as =>
      simp only [check_call, bind_eq_ok_iff] at h
      obtain ⟨F, hf, h⟩ := h
      cases F with
      | boolean | number => simp at h
      | function ps R =>
        simp only [ite_error_eq_ok_iff, bind_eq_ok_iff] at h
        obtain ⟨hlen, _, hargs, ⟨⟩⟩ := h
        refine .call (ih f (by simp [children]) hf) hlen fun i a p ha hp => ?_
        obtain ⟨A, hA, hsame⟩ := (checkArgs_eq_ok_iff hlen).1 hargs i a p ha hp
        have hmem : a ∈ as := List.mem_of_getElem? ha
        exact .conv (ih a (by simp [children, hmem]) hA) hsame
    | seq n b r =>
      simp only [check_seq, bind_eq_ok_iff] at h
      obtain ⟨S, hb, hr⟩ := h
      exact .seq (ih b (by simp [children]) hb) (ih r (by simp [children]) hr)
    | const n x i r =>
      simp only [check_const, bind_eq_ok_iff] at h
      obtain ⟨S, hi, hr⟩ := h
      have hrest := ih r (by simp [children]) hr
      rw [Env.lookup_bind_eq] at hrest
      exact .const (ih i (by simp [children]) hi) hrest

end Term

/-- The checker finds what is derivable, up to names of parameters. The environment need only agree
with the context up to such names: a conversion may have changed the type of a constant before it
was bound. -/
theorem HasType.exists_check {Γ : Context} {t : Term} {T : Ty} (h : HasType Γ t T) :
    ∀ env : Env, Context.Same env.lookup Γ → ∃ U, t.check env = .ok U ∧ U.same T = true := by
  induction h with
  | bool => exact fun env _ => ⟨.boolean, by simp⟩
  | number => exact fun env _ => ⟨.number, by simp⟩
  | @var Γ n x T hx =>
    intro env henv
    have hrel := henv x
    rw [hx] at hrel
    cases henvx : env.lookup x with
    | none => rw [henvx] at hrel; cases hrel
    | some U =>
      rw [henvx] at hrel
      cases hrel with
      | some hsame => exact ⟨U, by simp [Term.check_var, henvx], hsame⟩
  | add _ _ ihl ihr =>
    intro env henv
    obtain ⟨L, hl, hL⟩ := ihl env henv
    obtain ⟨R, hr, hR⟩ := ihr env henv
    exact ⟨.number, by simp [Term.check_add, hl, hL, hr, hR], Ty.same_refl _⟩
  | cond _ _ _ ihc ihy ihe =>
    intro env henv
    obtain ⟨C, hc, hC⟩ := ihc env henv
    obtain ⟨Y, hy, hY⟩ := ihy env henv
    obtain ⟨E, he, hE⟩ := ihe env henv
    have hYE : Y.same E = true := Ty.same_trans hY (Ty.same_symm hE)
    exact ⟨Y, by simp [Term.check_cond, hc, hC, hy, he, hYE], hY⟩
  | @func Γ n ps b R _ ih =>
    intro env henv
    have hext := henv.extend (Param.bindings (ParamDecl.toParams ps))
    rw [← Env.lookup_extend_eq] at hext
    obtain ⟨U, hb, hU⟩ := ih _ hext
    exact ⟨.function (ParamDecl.toParams ps) U, by simp [Term.check_func, hb], by
      simp [Ty.same, hU]⟩
  | @call Γ n f as ps R _ hlen _ ihf iha =>
    intro env henv
    obtain ⟨F, hf, hF⟩ := ihf env henv
    obtain ⟨qs, S, rfl, hqs, hS⟩ := Ty.same_function.1 hF
    obtain ⟨hqlen, hqtypes⟩ := Param.sameTypes_iff_getElem.1 hqs
    -- the checker takes the parameters of the callee as it finds them, the rule up to conversion
    have hargs : Term.checkArgs env 0 as qs = .ok () := by
      refine (Term.checkArgs_eq_ok_iff (hlen.trans hqlen.symm)).2 fun i a q ha hq => ?_
      have hi : i < ps.length := by
        rw [← hqlen]
        exact (List.getElem?_eq_some_iff.1 hq).1
      obtain ⟨A, hA, hsame⟩ := iha i a ps[i] ha (List.getElem?_eq_getElem hi) env henv
      exact ⟨A, hA, Ty.same_trans hsame
        (Ty.same_symm (hqtypes i q ps[i] hq (List.getElem?_eq_getElem hi)))⟩
    exact ⟨S, by simp [Term.check_call, hf, hlen, hqlen, hargs], hS⟩
  | seq _ _ ihb ihr =>
    intro env henv
    obtain ⟨S, hb, _⟩ := ihb env henv
    obtain ⟨U, hr, hU⟩ := ihr env henv
    exact ⟨U, by simp [Term.check_seq, hb, hr], hU⟩
  | @const Γ n x i r S T _ _ ihi ihr =>
    intro env henv
    obtain ⟨I, hi, hI⟩ := ihi env henv
    have hbind := henv.bind (x := x) hI
    rw [← Env.lookup_bind_eq] at hbind
    obtain ⟨U, hr, hU⟩ := ihr _ hbind
    exact ⟨U, by simp [Term.check_const, hi, hr], hU⟩
  | conv _ hsame ih =>
    intro env henv
    obtain ⟨U, ht, hU⟩ := ih env henv
    exact ⟨U, ht, Ty.same_trans hU hsame⟩

/-- A type is derivable exactly if the checker finds a type that differs from it at most in names of
parameters. -/
theorem hasType_iff_typecheck (env : Env) (t : Term) (T : Ty) :
    HasType env.lookup t T ↔ ∃ U, (t.typecheck env).1 = .ok U ∧ U.same T = true := by
  constructor
  · intro h
    exact h.exists_check env (.refl _)
  · rintro ⟨U, hU, hsame⟩
    exact .conv (Term.hasType_of_check hU) hsame

end ArrowLang
