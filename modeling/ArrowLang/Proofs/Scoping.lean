import ArrowLang.Proofs.ByteOrder
import ArrowLang.Proofs.Checking.UnknownNames
import ArrowLang.Proofs.Sorting
import ArrowLang.Proofs.VisitOrder

/-!
# Environments as lists of bindings

An environment that is built in steps stands for the list of the bindings of all steps. The last
binding of a name gives its type, and the names in scope are the names of the list, each once. They
are sorted by the last step that binds them, the latest first, and by their bytes within a step.
-/

namespace ArrowLang

/-! ## Lists without doubles -/

namespace Ordered

variable {α : Type} [DecidableEq α]

theorem eraseDups_filter (p : α → Bool) (as : List α) :
    (as.filter p).eraseDups = as.eraseDups.filter p := by
  match as with
  | [] => rfl
  | a :: as =>
    rw [List.eraseDups_cons, List.filter_cons, List.filter_cons, ← eraseDups_filter p,
      List.filter_filter]
    split
    next =>
      rw [List.eraseDups_cons, List.filter_filter]
      simp only [Bool.and_comm]
    next ha =>
      -- an item that the filter drops is dropped with all its doubles
      congr 1
      refine List.filter_congr fun b _ => ?_
      by_cases hb : b = a <;> simp [hb, ha]
termination_by as.length
decreasing_by exact Nat.lt_succ_of_le (List.length_filter_le _ _)

theorem eraseDups_cons (a : α) (as : List α) :
    (a :: as).eraseDups = a :: as.eraseDups.filter (· != a) := by
  rw [List.eraseDups_cons, eraseDups_filter]
  rfl

theorem eraseDups_sublist (as : List α) : as.eraseDups.Sublist as := by
  induction as with
  | nil => exact .slnil
  | cons a as ih =>
    rw [eraseDups_cons]
    exact (List.filter_sublist.trans ih).cons_cons a

theorem nodup_eraseDups (as : List α) : as.eraseDups.Nodup := by
  induction as with
  | nil => exact .nil
  | cons a as ih =>
    rw [eraseDups_cons]
    exact List.nodup_cons.2 ⟨by simp, ih.filter _⟩

theorem eraseDups_append (as bs : List α) :
    (as ++ bs).eraseDups = as.eraseDups ++ bs.eraseDups.filter (· ∉ as) := by
  rw [List.eraseDups_append, List.removeAll, ← eraseDups_filter]
  simp

end Ordered

namespace Env

/-! ## Steps -/

/-- A way to get from an environment to the next. -/
inductive Step where
  | extend (bindings : List (String × Ty))
  | bind (name : String) (type : Ty)

def Step.bindings : Step → List (String × Ty)
  | .extend bs => bs
  | .bind x T => [(x, T)]

def Step.names (s : Step) : List String := s.bindings.map Prod.fst

def Step.apply (env : Env) : Step → Env
  | .extend bs => env.extend bs
  | .bind x T => env.bind x T

/-- The environment that steps lead to from the empty one. -/
def ofSteps (steps : List Step) : Env := steps.foldl Step.apply .empty

/-- All bindings of the steps, in the order in which they are made. -/
def Step.all (steps : List Step) : List (String × Ty) := steps.flatMap Step.bindings

/-- The step with the number `i` is the last one that binds a name. -/
structure BoundAt (steps : List Step) (i : Nat) (x : String) : Prop where
  binds : ∃ s, steps[i]? = some s ∧ x ∈ s.names
  last : ∀ j s, i < j → steps[j]? = some s → x ∉ s.names

theorem ofSteps_concat (steps : List Step) (s : Step) :
    ofSteps (steps ++ [s]) = (ofSteps steps).extend s.bindings := by
  rw [ofSteps, List.foldl_append]
  cases s <;> rfl

theorem Step.all_concat (steps : List Step) (s : Step) :
    all (steps ++ [s]) = all steps ++ s.bindings := by
  simp [all]

/-- A further step takes over the names that it binds. -/
theorem boundAt_concat {steps : List Step} {s : Step} {i : Nat} {x : String} :
    BoundAt (steps ++ [s]) i x ↔
      x ∈ s.names ∧ i = steps.length ∨ x ∉ s.names ∧ BoundAt steps i x := by
  constructor
  · rintro ⟨⟨s', hs', hx⟩, hlast⟩
    have hi : i < (steps ++ [s]).length := (List.getElem?_eq_some_iff.1 hs').1
    rw [List.length_append, List.length_singleton] at hi
    rcases Nat.lt_or_eq_of_le (Nat.le_of_lt_succ hi) with hlt | rfl
    · rw [List.getElem?_append_left hlt] at hs'
      refine .inr ⟨hlast steps.length s hlt (by simp), ⟨s', hs', hx⟩, fun j r hj hr => ?_⟩
      have hjlt : j < steps.length := (List.getElem?_eq_some_iff.1 hr).1
      exact hlast j r hj (by rw [List.getElem?_append_left hjlt, hr])
    · obtain rfl : s = s' := by simpa using hs'
      exact .inl ⟨hx, rfl⟩
  · rintro (⟨hx, rfl⟩ | ⟨hx, ⟨s', hs', hx'⟩, hlast⟩)
    · refine ⟨⟨s, by simp, hx⟩, fun j r hj hr => ?_⟩
      have hj' : j < (steps ++ [s]).length := (List.getElem?_eq_some_iff.1 hr).1
      rw [List.length_append, List.length_singleton] at hj'
      omega
    · have hi : i < steps.length := (List.getElem?_eq_some_iff.1 hs').1
      refine ⟨⟨s', by rw [List.getElem?_append_left hi, hs'], hx'⟩, fun j r hj hr => ?_⟩
      rcases Nat.lt_or_ge j steps.length with hjlt | hjge
      · rw [List.getElem?_append_left hjlt] at hr
        exact hlast j r hj hr
      · rw [List.getElem?_append_right hjge] at hr
        obtain rfl : r = s := List.mem_singleton.1 (List.mem_of_getElem? hr)
        exact hx

theorem BoundAt.unique {steps : List Step} {i j : Nat} {x : String} (h : BoundAt steps i x)
    (h' : BoundAt steps j x) : i = j := by
  obtain ⟨s, hs, hx⟩ := h.binds
  obtain ⟨s', hs', hx'⟩ := h'.binds
  rcases Nat.lt_trichotomy i j with hlt | heq | hgt
  · exact absurd hx' (h.last j s' hlt hs')
  · exact heq
  · exact absurd hx (h'.last i s hgt hs)

theorem BoundAt.lt_length {steps : List Step} {i : Nat} {x : String} (h : BoundAt steps i x) :
    i < steps.length := by
  obtain ⟨s, hs, -⟩ := h.binds
  exact (List.getElem?_eq_some_iff.1 hs).1

/-! ## Types and depth -/

theorem lookup_ofSteps (steps : List Step) (x : String) :
    (ofSteps steps).lookup x = (Step.all steps).reverse.lookup x := by
  induction steps using List.reverseRecOn with
  | nil => rfl
  | append_singleton steps s ih =>
    rw [ofSteps_concat, lookup_extend, ih, Step.all_concat, List.reverse_append,
      List.lookup_append]

theorem lookup_reverse_eq_some_iff {bs : List (String × Ty)} {x : String} {T : Ty} :
    bs.reverse.lookup x = some T ↔
      ∃ l r, bs = l ++ (x, T) :: r ∧ x ∉ r.map Prod.fst := by
  rw [List.lookup_eq_some_iff]
  constructor
  · rintro ⟨l, r, hbs, hl⟩
    refine ⟨r.reverse, l.reverse, ?_, fun hx => ?_⟩
    · rw [← List.reverse_reverse bs, hbs]
      simp
    · obtain ⟨p, hp, rfl⟩ := List.mem_map.1 hx
      exact absurd rfl (bne_iff_ne.1 (hl p (List.mem_reverse.1 hp)))
  · rintro ⟨l, r, rfl, hr⟩
    refine ⟨r.reverse, l.reverse, by simp, fun p hp => ?_⟩
    rw [bne_iff_ne]
    rintro rfl
    exact hr (List.mem_map_of_mem (List.mem_reverse.1 hp))

theorem depth_ofSteps (steps : List Step) :
    (ofSteps steps).depth = steps.countP (!·.bindings.isEmpty) := by
  induction steps using List.reverseRecOn with
  | nil => rfl
  | append_singleton steps s ih =>
    rw [ofSteps_concat, depth_extend, ih, List.countP_append]
    cases hs : s.bindings <;> simp [hs]

/-! ## Names -/

/-- The names in scope, where `keys` lists the names of each frame in some order. -/
def namesBy (keys : List (String × Ty) → List String) (env : Env) : List String :=
  (env.frames.flatMap fun frame => Ordered.sort (· ≤ ·) (keys frame)).eraseDups

/-- The names of one frame, sorted. -/
def frameNames (names : List String) : List String := (Ordered.sort (· ≤ ·) names).eraseDups

theorem mem_frameNames {names : List String} {x : String} : x ∈ frameNames names ↔ x ∈ names := by
  rw [frameNames, List.mem_eraseDups, (Ordered.sort_perm _ _).mem_iff]

/-- Each name of a frame comes once, in strictly ascending order. -/
theorem frameNames_pairwise (names : List String) : (frameNames names).Pairwise (· < ·) := by
  have hsorted : (Ordered.sort (· ≤ ·) names).Pairwise fun a b => decide (a ≤ b) = true :=
    Ordered.sort_pairwise (by simpa using le_total) (by simpa using fun a b c => le_trans) names
  refine ((hsorted.sublist (Ordered.eraseDups_sublist _)).and (Ordered.nodup_eraseDups _)).imp ?_
  rintro a b ⟨hle, hne⟩
  exact lt_of_le_of_ne (of_decide_eq_true hle) hne

/-- It makes no difference how a frame lists its names. -/
theorem frameNames_congr {names names' : List String} (h : ∀ x, x ∈ names ↔ x ∈ names') :
    frameNames names = frameNames names' := by
  refine (frameNames_pairwise names).eq_of_mem_iff (frameNames_pairwise names') fun x => ?_
  rw [mem_frameNames, mem_frameNames, h]

theorem namesBy_cons (keys : List (String × Ty) → List String) (frame : List (String × Ty))
    (frames : List (List (String × Ty))) :
    namesBy keys ⟨frame :: frames⟩ =
      frameNames (keys frame) ++ (namesBy keys ⟨frames⟩).filter (· ∉ keys frame) := by
  rw [namesBy, List.flatMap_cons, Ordered.eraseDups_append]
  simp only [(Ordered.sort_perm _ (keys frame)).mem_iff]
  rfl

/-- The names in scope do not depend on how each frame lists its own. -/
theorem namesBy_eq_names {keys : List (String × Ty) → List String}
    (hkeys : ∀ frame x, x ∈ keys frame ↔ x ∈ frame.map Prod.fst) (env : Env) :
    env.namesBy keys = env.names := by
  have hnames : env.names = env.namesBy (List.map Prod.fst) := rfl
  obtain ⟨frames⟩ := env
  rw [hnames]
  clear hnames
  induction frames with
  | nil => rfl
  | cons frame frames ih =>
    rw [namesBy_cons, namesBy_cons, ih, frameNames_congr (hkeys frame)]
    simp only [hkeys]

/-- The names of an extension come before the names that it does not hide. -/
theorem names_extend (env : Env) (bs : List (String × Ty)) :
    (env.extend bs).names =
      frameNames (bs.map Prod.fst) ++ env.names.filter (· ∉ bs.map Prod.fst) := by
  cases bs with
  | nil => simp [extend, frameNames, Ordered.sort]
  | cons b bs =>
    have hreverse (x : String) :
        x ∈ (b :: bs).reverse.map Prod.fst ↔ x ∈ (b :: bs).map Prod.fst := by
      rw [List.map_reverse, List.mem_reverse]
    rw [extend, if_neg (by simp)]
    change namesBy (List.map Prod.fst) _ = _
    rw [namesBy_cons, frameNames_congr hreverse]
    simp only [hreverse]
    rfl

/-- The name `x` is bound in a later step than `y`, or they are bound in one step in their order. -/
def Precedes (steps : List Step) (x y : String) : Prop :=
  ∃ i j, BoundAt steps i x ∧ BoundAt steps j y ∧ (j < i ∨ i = j ∧ x < y)

theorem exists_boundAt {steps : List Step} {x : String} (h : x ∈ (ofSteps steps).names) :
    ∃ i, BoundAt steps i x := by
  induction steps using List.reverseRecOn with
  | nil => cases h
  | append_singleton steps s ih =>
    by_cases hx : x ∈ s.names
    · exact ⟨steps.length, boundAt_concat.2 (.inl ⟨hx, rfl⟩)⟩
    · rw [ofSteps_concat, mem_names_extend] at h
      obtain ⟨i, hi⟩ := ih (h.resolve_left hx)
      exact ⟨i, boundAt_concat.2 (.inr ⟨hx, hi⟩)⟩

/-- The names in scope are sorted by the step that binds them. -/
theorem names_pairwise (steps : List Step) :
    (ofSteps steps).names.Pairwise (Precedes steps) := by
  induction steps using List.reverseRecOn with
  | nil => exact .nil
  | append_singleton steps s ih =>
    have hnew {x : String} (hx : x ∈ s.names) : BoundAt (steps ++ [s]) steps.length x :=
      boundAt_concat.2 (.inl ⟨hx, rfl⟩)
    have hold {i : Nat} {x : String} (hx : x ∉ s.names) (hi : BoundAt steps i x) :
        BoundAt (steps ++ [s]) i x :=
      boundAt_concat.2 (.inr ⟨hx, hi⟩)
    rw [ofSteps_concat, names_extend]
    refine List.pairwise_append.2 ⟨?_, ?_, ?_⟩
    · refine (frameNames_pairwise _).imp_of_mem fun {x y} hx hy hlt => ?_
      exact ⟨_, _, hnew (mem_frameNames.1 hx), hnew (mem_frameNames.1 hy), .inr ⟨rfl, hlt⟩⟩
    · refine (ih.filter _).imp_of_mem fun {x y} hx hy hxy => ?_
      obtain ⟨i, j, hi, hj, hij⟩ := hxy
      exact ⟨i, j, hold (of_decide_eq_true (List.mem_filter.1 hx).2) hi,
        hold (of_decide_eq_true (List.mem_filter.1 hy).2) hj, hij⟩
    · intro x hx y hy
      obtain ⟨hy, hys⟩ := List.mem_filter.1 hy
      obtain ⟨j, hj⟩ := exists_boundAt hy
      exact ⟨_, j, hnew (mem_frameNames.1 hx), hold (of_decide_eq_true hys) hj, .inl hj.lt_length⟩

theorem nodup_names (env : Env) : env.names.Nodup := Ordered.nodup_eraseDups _

theorem BoundAt.mem_names {steps : List Step} {i : Nat} {x : String} (h : BoundAt steps i x) :
    x ∈ (ofSteps steps).names := by
  induction steps using List.reverseRecOn with
  | nil => exact absurd h.lt_length (Nat.not_lt_zero i)
  | append_singleton steps s ih =>
    rw [ofSteps_concat, mem_names_extend]
    exact (boundAt_concat.1 h).imp (·.1) fun h => ih h.2

/-- Where two names stand among the names in scope. -/
theorem idxOf_lt_iff {steps : List Step} {i j : Nat} {x y : String} (hx : BoundAt steps i x)
    (hy : BoundAt steps j y) :
    (ofSteps steps).names.idxOf x < (ofSteps steps).names.idxOf y ↔ j < i ∨ i = j ∧ x < y := by
  have hprecedes {i j : Nat} {x y : String} (hx : BoundAt steps i x) (hy : BoundAt steps j y)
      (hlt : (ofSteps steps).names.idxOf x < (ofSteps steps).names.idxOf y) :
      j < i ∨ i = j ∧ x < y := by
    have hpair := List.pairwise_iff_getElem.1 (names_pairwise steps) _ _
      (List.idxOf_lt_length_iff.2 hx.mem_names) (List.idxOf_lt_length_iff.2 hy.mem_names) hlt
    rw [List.getElem_idxOf, List.getElem_idxOf] at hpair
    obtain ⟨i', j', hi', hj', hij⟩ := hpair
    rwa [hx.unique hi', hy.unique hj']
  refine ⟨hprecedes hx hy, fun h => ?_⟩
  rcases Nat.lt_trichotomy ((ofSteps steps).names.idxOf x) ((ofSteps steps).names.idxOf y) with
    hlt | heq | hgt
  · exact hlt
  · -- names in one place are one name
    obtain rfl : x = y := (List.idxOf_inj hx.mem_names).1 heq
    rcases h with hij | ⟨-, hlt⟩
    · exact absurd hij (hx.unique hy ▸ Nat.lt_irrefl _)
    · exact absurd hlt (lt_irrefl x)
  · rcases h, hprecedes hy hx hgt with ⟨hij | ⟨hij, hxy⟩, hji | ⟨hji, hyx⟩⟩
    · omega
    · omega
    · omega
    · exact absurd hxy (lt_asymm hyx)

end Env

/-- What steps build from the empty environment is the list of all their bindings: the last binding
of a name gives its type, and the names in scope are those of the list, each once. A name that is
bound in a later step comes before one of an earlier step, and names of one step are in the order of
their bytes, in whatever order a frame lists them. -/
theorem env_is_list_of_bindings (steps : List Env.Step) :
    let env := Env.ofSteps steps
    let bindings := Env.Step.all steps
    (∀ x T, env.lookup x = some T ↔
      ∃ l r, bindings = l ++ (x, T) :: r ∧ x ∉ r.map Prod.fst) ∧
    (∀ x, env.lookup x = none ↔ x ∉ bindings.map Prod.fst) ∧
    (∀ x, env.contains x = true ↔ ∃ T, env.lookup x = some T) ∧
    env.names.Nodup ∧ (∀ x, x ∈ env.names ↔ x ∈ bindings.map Prod.fst) ∧
    (∀ x ∈ env.names, ∃ i, Env.BoundAt steps i x) ∧
    (∀ i j x y, Env.BoundAt steps i x → Env.BoundAt steps j y →
      (env.names.idxOf x < env.names.idxOf y ↔
        j < i ∨ i = j ∧ List.Lex (· < ·) (Utf8.bytes x) (Utf8.bytes y))) ∧
    (∀ keys : List (String × Ty) → List String,
      (∀ frame x, x ∈ keys frame ↔ x ∈ frame.map Prod.fst) → env.namesBy keys = env.names) ∧
    env.depth = steps.countP (!·.bindings.isEmpty) := by
  intro env bindings
  have hnone (x : String) : env.lookup x = none ↔ x ∉ bindings.map Prod.fst := by
    rw [Env.lookup_ofSteps, lookup_eq_none_iff_map_fst, List.map_reverse, List.mem_reverse]
  refine ⟨fun x T => ?_, hnone, fun x => Option.isSome_iff_exists, env.nodup_names, fun x => ?_,
    fun x => Env.exists_boundAt, fun i j x y hx hy => ?_,
    fun keys hkeys => Env.namesBy_eq_names hkeys env, Env.depth_ofSteps steps⟩
  · rw [Env.lookup_ofSteps, Env.lookup_reverse_eq_some_iff]
  · rw [Env.mem_names, ne_eq, hnone, not_not]
  · rw [Env.idxOf_lt_iff hx hy, Utf8.lt_iff_bytes]

/-- A name that is bound twice in one step, a name of two bytes and a step without bindings. -/
theorem env_is_list_of_bindings_repeated :
    let steps : List Env.Step :=
      [.extend [("é", .number), ("z", .number), ("é", .boolean)], .extend [], .bind "y" .number]
    let env := Env.ofSteps steps
    Env.BoundAt steps 0 "é" ∧ Env.BoundAt steps 0 "z" ∧ Env.BoundAt steps 2 "y" ∧
      env.lookup "é" = some .boolean ∧
      env.names.idxOf "y" < env.names.idxOf "z" ∧ env.names.idxOf "z" < env.names.idxOf "é" ∧
      env.namesBy (fun frame => (frame.map Prod.fst).reverse) = env.names ∧ env.depth = 2 := by
  intro steps env
  obtain ⟨htype, -, -, -, -, -, horder, hkeys, hdepth⟩ := env_is_list_of_bindings steps
  have hfirst (x : String) (hx : x = "é" ∨ x = "z") : Env.BoundAt steps 0 x := by
    refine ⟨⟨_, rfl, ?_⟩, fun j s hj hs => ?_⟩
    · rcases hx with rfl | rfl <;> decide
    · have hj' : j < 3 := (List.getElem?_eq_some_iff.1 hs).1
      obtain rfl | rfl : j = 1 ∨ j = 2 := by omega
      · cases hs
        rcases hx with rfl | rfl <;> decide
      · cases hs
        rcases hx with rfl | rfl <;> decide
  have hlast : Env.BoundAt steps 2 "y" := by
    refine ⟨⟨_, rfl, by decide⟩, fun j s hj hs => ?_⟩
    have hj' : j < 3 := (List.getElem?_eq_some_iff.1 hs).1
    omega
  have hacute := hfirst "é" (.inl rfl)
  have hz := hfirst "z" (.inr rfl)
  refine ⟨hacute, hz, hlast,
    (htype _ _).2 ⟨[("é", .number), ("z", .number)], [("y", .number)], rfl, by decide⟩,
    (horder _ _ _ _ hlast hz).2 (.inl (by decide)),
    (horder _ _ _ _ hz hacute).2 (.inr ⟨rfl, by decide +kernel⟩), hkeys _ (by simp), hdepth⟩

end ArrowLang
