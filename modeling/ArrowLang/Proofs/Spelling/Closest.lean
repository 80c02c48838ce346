import ArrowLang.Proofs.Spelling.Distance

/-!
# The name that was meant

`Spelling.closest?` finds the first of the nearest candidates, if it is near enough
(`finds_first_nearest`). It passes over candidates with too different a length and does not look at
their distance. That loses nothing, since texts are at least as far apart as their lengths.
-/

namespace ArrowLang.Spelling

variable {name c y z : String} {candidates read : List String} {i j : Nat}
  {best : Option (String × Nat)}

def distance (name c : String) : Nat := editDistance name.toList c.toList

/-- The lengths of two names differ by at most their distance. -/
theorem length_sub_add_le_distance (name c : String) :
    (name.length - c.length) + (c.length - name.length) ≤ distance name c := by
  have hright := length_le_add_editDistance name.toList c.toList
  have hleft := length_le_add_editDistance c.toList name.toList
  rw [editDistance_comm] at hleft
  simp only [String.length_toList] at hright hleft
  unfold distance
  omega

/-! ## Without a look at lengths -/

/-- As `better`, but the length of a candidate does not matter. -/
def betterOfAll (name : String) (best : Option (String × Nat)) (candidate : String) :
    Option (String × Nat) :=
  if candidate = name then best
  else
    let distance := editDistance name.toList candidate.toList
    let isBetter := match best with
      | some (_, least) => distance < least
      | none => true
    if distance ≤ limit name.length && isBetter then some (candidate, distance) else best

def closestOfAll? (name : String) (candidates : List String) : Option String :=
  (candidates.foldl (betterOfAll name) none).map Prod.fst

/-- A candidate that is not looked at has a distance past the limit. -/
theorem better_eq_betterOfAll : better = betterOfAll := by
  funext name best c
  have hlength := length_sub_add_le_distance name c
  unfold better betterOfAll
  by_cases hname : c = name
  · simp [hname]
  · by_cases hfar : (name.length - c.length) + (c.length - name.length) > limit name.length
    · have hpast : ¬ editDistance name.toList c.toList ≤ limit name.length :=
        Nat.not_le_of_lt (Nat.lt_of_lt_of_le hfar hlength)
      simp [hname, hfar, hpast]
    · cases best <;> simp [hname, hfar]

theorem closestOfAll?_eq (name : String) (candidates : List String) :
    closestOfAll? name candidates = closest? name candidates := by
  rw [closestOfAll?, closest?, better_eq_betterOfAll]

/-- A candidate is kept if it is near enough and nearer than the one kept before. -/
theorem better_new_or_old (name : String) (best : Option (String × Nat)) (c : String) :
    (c ≠ name ∧ distance name c ≤ limit name.length ∧ (∀ p ∈ best, distance name c < p.2) ∧
      better name best c = some (c, distance name c)) ∨
    ((c ≠ name → limit name.length < distance name c ∨ ∃ p ∈ best, p.2 ≤ distance name c) ∧
      better name best c = best) := by
  rw [better_eq_betterOfAll]
  unfold betterOfAll distance
  cases best <;> grind

/-! ## The first of the nearest -/

/-- The candidate at `i` is the first of those nearest to a name, the name itself left out. -/
structure FirstNearest (name : String) (candidates : List String) (i : Nat) (y : String) :
    Prop where
  get : candidates[i]? = some y
  ne : y ≠ name
  le : ∀ c ∈ candidates, c ≠ name → distance name y ≤ distance name c
  lt : ∀ c ∈ candidates.take i, c ≠ name → distance name y < distance name c

namespace FirstNearest

theorem not_lt (hy : FirstNearest name candidates i y) (hz : FirstNearest name candidates j z) :
    ¬ i < j := by
  intro hij
  have hmem : y ∈ candidates.take j :=
    List.mem_of_getElem? ((List.getElem?_take_of_lt hij).trans hy.get)
  have hlt := hz.lt y hmem hy.ne
  have hle := hy.le z (List.mem_of_getElem? hz.get) hz.ne
  omega

theorem unique (hy : FirstNearest name candidates i y) (hz : FirstNearest name candidates j z) :
    y = z := by
  obtain rfl : i = j := by
    have := hy.not_lt hz
    have := hz.not_lt hy
    omega
  exact Option.some.inj (hy.get.symm.trans hz.get)

theorem concat (h : FirstNearest name read i y)
    (hc : c ≠ name → distance name y ≤ distance name c) : FirstNearest name (read ++ [c]) i y where
  get := by
    obtain ⟨hi, -⟩ := List.getElem?_eq_some_iff.1 h.get
    rw [List.getElem?_append_left hi, h.get]
  ne := h.ne
  le := by simpa [or_imp, forall_and] using ⟨h.le, hc⟩
  lt := by
    obtain ⟨hi, -⟩ := List.getElem?_eq_some_iff.1 h.get
    rw [List.take_append_of_le_length (Nat.le_of_lt hi)]
    exact h.lt

theorem of_forall_lt (hc : c ≠ name)
    (hlt : ∀ d ∈ read, d ≠ name → distance name c < distance name d) :
    FirstNearest name (read ++ [c]) read.length c where
  get := List.getElem?_concat_length
  ne := hc
  le := by
    simpa [or_imp, forall_and] using fun d hd hne => Nat.le_of_lt (hlt d hd hne)
  lt := by simpa using hlt

end FirstNearest

/-! ## The run -/

/-- What is kept after some candidates: the first nearest of them with its distance, if one is near
enough. -/
def Kept (name : String) (read : List String) : Option (String × Nat) → Prop
  | none => ∀ c ∈ read, c ≠ name → limit name.length < distance name c
  | some (y, d) =>
    d = distance name y ∧ d ≤ limit name.length ∧ ∃ i, FirstNearest name read i y

theorem Kept.better (h : Kept name read best) (c : String) :
    Kept name (read ++ [c]) (better name best c) := by
  obtain ⟨hne, hlimit, hnearer, heq⟩ | ⟨hfar, heq⟩ := better_new_or_old name best c
  all_goals rw [heq]
  · refine ⟨rfl, hlimit, read.length, .of_forall_lt hne fun d hd hdne => ?_⟩
    cases best with
    | none => exact Nat.lt_of_le_of_lt hlimit (h d hd hdne)
    | some p =>
      obtain ⟨hdistance, -, i, hfirst⟩ := h
      exact Nat.lt_of_lt_of_le (hnearer p rfl) (hdistance ▸ hfirst.le d hd hdne)
  · cases best with
    | none =>
      have hc : c ≠ name → limit name.length < distance name c := by simpa using hfar
      simpa [Kept, or_imp, forall_and] using ⟨h, hc⟩
    | some p =>
      obtain ⟨hdistance, hlimit, i, hfirst⟩ := h
      refine ⟨hdistance, hlimit, i, hfirst.concat fun hne => ?_⟩
      have hc : limit name.length < distance name c ∨ p.2 ≤ distance name c := by
        simpa using hfar hne
      omega

theorem kept_foldl (name : String) (candidates : List String) :
    Kept name candidates (candidates.foldl (Spelling.better name) none) := by
  induction candidates using List.reverseRecOn with
  | nil => simp [Kept]
  | append_singleton read c ih =>
    rw [List.foldl_concat]
    exact ih.better c

theorem far_of_closest?_eq_none (h : closest? name candidates = none) :
    ∀ c ∈ candidates, c ≠ name → limit name.length < distance name c := by
  have hkept := kept_foldl name candidates
  rw [Option.map_eq_none_iff.1 h] at hkept
  exact hkept

theorem firstNearest_of_closest? (h : closest? name candidates = some y) :
    distance name y ≤ limit name.length ∧ ∃ i, FirstNearest name candidates i y := by
  have hkept := kept_foldl name candidates
  obtain ⟨⟨y, d⟩, hfold, rfl⟩ := Option.map_eq_some_iff.1 h
  rw [hfold] at hkept
  obtain ⟨rfl, hlimit, hfirst⟩ := hkept
  exact ⟨hlimit, hfirst⟩

theorem mem_of_closest? (h : closest? name candidates = some y) : y ∈ candidates := by
  obtain ⟨-, i, hfirst⟩ := firstNearest_of_closest? h
  exact List.mem_of_getElem? hfirst.get

theorem closest?_eq_none_iff : closest? name candidates = none ↔
    ∀ c ∈ candidates, c ≠ name → limit name.length < distance name c := by
  refine ⟨far_of_closest?_eq_none, fun hfar => ?_⟩
  cases h : closest? name candidates with
  | none => rfl
  | some y =>
    obtain ⟨hlimit, i, hfirst⟩ := firstNearest_of_closest? h
    have := hfar y (mem_of_closest? h) hfirst.ne
    omega

theorem closest?_eq_some_iff : closest? name candidates = some y ↔
    distance name y ≤ limit name.length ∧ ∃ i, FirstNearest name candidates i y := by
  refine ⟨firstNearest_of_closest?, ?_⟩
  rintro ⟨hlimit, i, hfirst⟩
  cases h : closest? name candidates with
  | none =>
    have := far_of_closest?_eq_none h y (List.mem_of_getElem? hfirst.get) hfirst.ne
    omega
  | some z =>
    obtain ⟨-, j, hz⟩ := firstNearest_of_closest? h
    rw [hz.unique hfirst]

/-- No name is found if all candidates but the name itself are too far from it, and else the first
of those nearest to it. Names within the limit are never too long or too short to be looked at, so
the result is the same without a look at lengths. -/
theorem finds_first_nearest (name : String) (candidates : List String) :
    let most := if name.length ≤ 2 then 1 else if name.length ≤ 5 then 2 else 3
    (closest? name candidates = none ↔
      ∀ c ∈ candidates, c ≠ name → most < editDistance name.toList c.toList) ∧
    (∀ y, closest? name candidates = some y ↔
      editDistance name.toList y.toList ≤ most ∧ ∃ i, FirstNearest name candidates i y) ∧
    (∀ c : String, editDistance name.toList c.toList ≤ most →
      (name.length - c.length) + (c.length - name.length) ≤ most) ∧
    closestOfAll? name candidates = closest? name candidates :=
  ⟨closest?_eq_none_iff, fun _ => closest?_eq_some_iff,
    fun c => Nat.le_trans (length_sub_add_le_distance name c), closestOfAll?_eq name candidates⟩

end ArrowLang.Spelling
