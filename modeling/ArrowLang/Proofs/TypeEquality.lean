import ArrowLang.Ty

/-!
# Types up to names of parameters

`Ty.renamed x` gives the name `x` to every parameter of a type, at every depth. Two types are the
same exactly if they become equal by it, so sameness is an equivalence and a congruence.
-/

namespace ArrowLang

mutual

/-- The type with `x` for the name of each of its parameters. -/
def Ty.renamed (x : String) : Ty → Ty
  | .boolean => .boolean
  | .number => .number
  | .function ps r => .function (Param.renamedAll x ps) (r.renamed x)

def Param.renamedAll (x : String) : List Param → List Param
  | [] => []
  | ⟨_, t⟩ :: ps => ⟨x, t.renamed x⟩ :: Param.renamedAll x ps

end

mutual

theorem Ty.same_iff_renamed_eq (x : String) :
    ∀ a b : Ty, a.same b = true ↔ a.renamed x = b.renamed x
  | .boolean, b => by cases b <;> simp [Ty.same, Ty.renamed]
  | .number, b => by cases b <;> simp [Ty.same, Ty.renamed]
  | .function ps r, b => by
    cases b with
    | boolean | number => simp [Ty.same, Ty.renamed]
    | function qs s =>
      simp [Ty.same, Ty.renamed, Param.sameTypes_iff_renamedAll_eq x ps qs,
        Ty.same_iff_renamed_eq x r s]

theorem Param.sameTypes_iff_renamedAll_eq (x : String) :
    ∀ ps qs : List Param,
      Param.sameTypes ps qs = true ↔ Param.renamedAll x ps = Param.renamedAll x qs
  | [], [] => by simp [Param.sameTypes]
  | [], ⟨_, _⟩ :: _ => by simp [Param.sameTypes, Param.renamedAll]
  | ⟨_, _⟩ :: _, [] => by simp [Param.sameTypes, Param.renamedAll]
  | ⟨_, t⟩ :: ps, ⟨_, u⟩ :: qs => by
    simp [Param.sameTypes, Param.renamedAll, Ty.same_iff_renamed_eq x t u,
      Param.sameTypes_iff_renamedAll_eq x ps qs]

end

namespace Ty

variable {a b c : Ty}

@[simp] theorem same_refl (a : Ty) : a.same a = true :=
  (same_iff_renamed_eq "" a a).2 rfl

theorem same_symm (h : a.same b = true) : b.same a = true :=
  (same_iff_renamed_eq "" b a).2 ((same_iff_renamed_eq "" a b).1 h).symm

theorem same_trans (h : a.same b = true) (g : b.same c = true) : a.same c = true :=
  (same_iff_renamed_eq "" a c).2
    (((same_iff_renamed_eq "" a b).1 h).trans ((same_iff_renamed_eq "" b c).1 g))

@[simp] theorem same_boolean : a.same .boolean = true ↔ a = .boolean := by
  cases a <;> simp [same]

@[simp] theorem same_number : a.same .number = true ↔ a = .number := by
  cases a <;> simp [same]

/-- Only a function type is the same as a function type. -/
theorem same_function {ps : List Param} {r : Ty} :
    a.same (.function ps r) = true ↔
      ∃ qs s, a = .function qs s ∧ Param.sameTypes qs ps = true ∧ s.same r = true := by
  constructor
  · intro h
    cases a with
    | boolean | number => simp [same] at h
    | function qs s => exact ⟨qs, s, rfl, by simpa [same] using h⟩
  · rintro ⟨qs, s, rfl, hps, hr⟩
    simp [same, hps, hr]

end Ty

namespace Param

@[simp] theorem sameTypes_refl (ps : List Param) : sameTypes ps ps = true :=
  (sameTypes_iff_renamedAll_eq "" ps ps).2 rfl

/-- As many parameters, with the same type at each position. -/
theorem sameTypes_iff_getElem {ps qs : List Param} :
    sameTypes ps qs = true ↔ ps.length = qs.length ∧
      ∀ (i : Nat) (p q : Param), ps[i]? = some p → qs[i]? = some q →
        p.type.same q.type = true := by
  induction ps generalizing qs with
  | nil => cases qs <;> simp [sameTypes]
  | cons p ps ih =>
    cases qs with
    | nil => simp [sameTypes]
    | cons q qs =>
      obtain ⟨x, t⟩ := p
      obtain ⟨y, u⟩ := q
      simp only [sameTypes, Bool.and_eq_true, ih, List.length_cons, Nat.add_right_cancel_iff]
      constructor
      · rintro ⟨hpq, hlen, hrest⟩
        refine ⟨hlen, fun i p' q' hp hq => ?_⟩
        cases i with
        | zero =>
          obtain rfl : _ = p' := by simpa using hp
          obtain rfl : _ = q' := by simpa using hq
          exact hpq
        | succ i => exact hrest i p' q' (by simpa using hp) (by simpa using hq)
      · rintro ⟨hlen, hall⟩
        exact ⟨hall 0 _ _ rfl rfl, hlen, fun i p' q' hp hq => hall (i + 1) p' q' hp hq⟩

/-- Parameter lists that differ at one position are the same if the types there are. -/
theorem sameTypes_replace (ps qs : List Param) (x y : String) (a b : Ty) :
    sameTypes (ps ++ ⟨x, a⟩ :: qs) (ps ++ ⟨y, b⟩ :: qs) = a.same b := by
  induction ps with
  | nil => simp [sameTypes]
  | cons p ps ih =>
    obtain ⟨_, t⟩ := p
    simp [sameTypes, ih]

end Param

/-! ## Replacing a component -/

/-- A type with a hole in the place of one of its components, at any depth. -/
inductive Ty.Context where
  | hole
  | param (before : List Param) (name : String) (context : Context) (after : List Param)
      (result : Ty)
  | result (params : List Param) (context : Context)

/-- The type with `a` in the hole. -/
def Ty.Context.fill (a : Ty) : Context → Ty
  | hole => a
  | param before name c after r => .function (before ++ ⟨name, c.fill a⟩ :: after) r
  | result ps c => .function ps (c.fill a)

/-- Types in the same context are the same exactly if their components in the hole are. -/
theorem Ty.Context.same_fill (c : Context) (a b : Ty) :
    (c.fill a).same (c.fill b) = a.same b := by
  induction c with
  | hole => rfl
  | param before name c after r ih => simp [fill, same, Param.sameTypes_replace, ih]
  | result ps c ih => simp [fill, same, ih]

/-- Two types are the same exactly if they become equal when all their parameters get one name.
This is an equivalence, and a component may be replaced by one that is the same. -/
theorem Ty.same_up_to_names :
    (∀ (x : String) (a b : Ty), a.same b = true ↔ a.renamed x = b.renamed x) ∧
      Equivalence (fun a b : Ty => a.same b = true) ∧
      ∀ (c : Ty.Context) (a b : Ty), (c.fill a).same (c.fill b) = a.same b :=
  ⟨same_iff_renamed_eq, ⟨same_refl, same_symm, same_trans⟩, Ty.Context.same_fill⟩

end ArrowLang
