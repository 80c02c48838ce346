import Mathlib.Data.List.DropRight
import Mathlib.Data.List.SplitBy
import ArrowLang.Proofs.Snippet.Layout

/-!
# The row of marks below a line

The marks of a line are painted one over another into slots, and the end of the row that no mark
covers is cut off. A slot holds the role of the last mark that covers it, and as secondary marks are
painted first, it is primary wherever a primary mark covers it (`lastRole_eq_primary_iff`). So a row
only depends on which columns the labels cover (`Underlines`), not on their order, and the whole of
what is shown for labels can be told from them (`snippet_marks_labelled_columns`).
-/

namespace ArrowLang

/-- What is left of a list without the end on which `p` holds: all up to the last element on which
it does not. -/
theorem getElem?_rdropWhile {α : Type} {p : α → Bool} {l : List α} {i : Nat} {a : α} :
    (l.rdropWhile p)[i]? = some a ↔
      l[i]? = some a ∧ ∃ j b, i ≤ j ∧ l[j]? = some b ∧ p b = false := by
  induction l using List.reverseRecOn with
  | nil => simp
  | append_singleton l x ih =>
    rw [List.rdropWhile_concat]
    cases hx : p x with
    | true =>
      rw [if_pos rfl, ih]
      constructor
      · rintro ⟨hi, j, b, hij, hj, hb⟩
        exact ⟨by grind, j, b, hij, by grind, hb⟩
      · rintro ⟨hi, j, b, hij, hj, hb⟩
        have hlt : j < l.length := by
          by_contra hge
          grind
        exact ⟨by grind, j, b, hij, by grind, hb⟩
    | false =>
      rw [if_neg (by simp)]
      exact ⟨fun hi => ⟨hi, l.length, x, by grind, by simp, hx⟩, And.left⟩

namespace Mark

variable {marks : List Mark} {m : Mark} {rs : List (Option Role)}

/-! ## Painting -/

def covers (m : Mark) (column : Nat) : Bool := m.start ≤ column && column < m.stop

theorem before_total (a b : Mark) : before a b = true ∨ before b a = true := by
  unfold before
  cases a.role <;> cases b.role <;> simp <;> omega

theorem before_trans (a b c : Mark) (hab : before a b = true) (hbc : before b c = true) :
    before a c = true := by
  unfold before at *
  cases ha : a.role <;> cases hb : b.role <;> cases hc : c.role <;> simp_all <;> omega

/-- No secondary mark comes after a primary one. -/
theorem inOrder_pairwise (marks : List Mark) :
    (inOrder marks).Pairwise fun a b => a.role = .primary → b.role = .primary := by
  refine (Ordered.sort_pairwise before_total before_trans marks).imp fun {a b} hab ha => ?_
  unfold before at hab
  cases hb : b.role <;> simp_all

/-- A mark fills the slots of the columns that it covers. -/
theorem getElem?_paint? {slots slots' : List (Option Role)} (h : paint? slots m = some slots')
    (i : Nat) : slots'[i]? =
      slots[i]?.map fun slot => if m.covers (i + 1) then some m.role else slot := by
  simp only [paint?, Option.bind_eq_bind, Option.bind_eq_some_iff, Prod.exists,
    slots?_eq_some_iff] at h
  obtain ⟨_, _, ⟨hstart, hstop, rfl, rfl⟩, hslots⟩ := h
  obtain rfl := Option.some.inj hslots
  have hcovers : (m.start - 1 ≤ i && i < m.stop - 1) = m.covers (i + 1) := by
    rw [Bool.eq_iff_iff]
    simp only [covers, Bool.and_eq_true, decide_eq_true_eq]
    omega
  simp only [List.getElem?_mapIdx, hcovers]

/-- In the end a slot holds the role of the last mark that covers it. -/
theorem getElem?_foldlM_paint? {slots slots' : List (Option Role)}
    (h : marks.foldlM paint? slots = some slots') (i : Nat) : slots'[i]? = slots[i]?.map fun slot =>
      ((marks.reverse.find? (·.covers (i + 1))).map (·.role)).or slot := by
  induction marks generalizing slots with
  | nil =>
    obtain rfl := Option.some.inj h
    simp
  | cons m marks ih =>
    rw [List.foldlM_cons, Option.bind_eq_bind, Option.bind_eq_some_iff] at h
    obtain ⟨painted, hpainted, hrest⟩ := h
    rw [ih hrest, getElem?_paint? hpainted, List.reverse_cons, List.find?_append, Option.map_map]
    congr 1
    funext slot
    cases marks.reverse.find? (·.covers (i + 1)) with
    | some m' => rfl
    | none => by_cases hm : m.covers (i + 1) <;> simp [hm]

/-- The role of the last mark that is painted on a column. -/
def lastRole (marks : List Mark) (column : Nat) : Option Role :=
  ((inOrder marks).reverse.find? (·.covers column)).map (·.role)

theorem lastRole_eq_none_iff {column : Nat} :
    lastRole marks column = none ↔ ∀ m ∈ marks, m.covers column = false := by
  simp [lastRole]

theorem exists_of_lastRole {column : Nat} {role : Role} (h : lastRole marks column = some role) :
    ∃ m ∈ marks, m.role = role ∧ m.covers column = true := by
  obtain ⟨m, hm, hrole⟩ := Option.map_eq_some_iff.1 h
  have hmem : m ∈ inOrder marks := List.mem_reverse.1 (List.mem_of_find?_eq_some hm)
  exact ⟨m, mem_inOrder.1 hmem, hrole, List.find?_some (p := fun m : Mark => m.covers column) hm⟩

theorem lastRole_eq_primary_iff {column : Nat} :
    lastRole marks column = some .primary ↔
      ∃ m ∈ marks, m.role = .primary ∧ m.covers column = true := by
  constructor
  · exact exists_of_lastRole
  · rintro ⟨m, hm, hrole, hcovers⟩
    have hmem : m ∈ (inOrder marks).reverse := List.mem_reverse.2 (mem_inOrder.2 hm)
    obtain ⟨last, hlast⟩ : ∃ last, (inOrder marks).reverse.find? (·.covers column) = some last :=
      Option.isSome_iff_exists.1 (List.find?_isSome.2 ⟨m, hmem, hcovers⟩)
    -- the last one is this mark, or it is painted after it and so is primary, too
    obtain ⟨-, later, earlier, hsplit, hlater⟩ := List.find?_eq_some_iff_append.1 hlast
    have horder := List.pairwise_reverse.2 (inOrder_pairwise marks)
    rw [hsplit, List.pairwise_append, List.pairwise_cons] at horder
    rw [hsplit, List.mem_append, List.mem_cons] at hmem
    rw [lastRole, hlast, Option.map_some, Option.some.injEq]
    rcases hmem with hmem | rfl | hmem
    · have := hlater m hmem
      simp [hcovers] at this
    · exact hrole
    · exact horder.2.1.1 m hmem hrole

theorem lastRole_eq_secondary_iff {column : Nat} :
    lastRole marks column = some .secondary ↔
      (¬ ∃ m ∈ marks, m.role = .primary ∧ m.covers column = true) ∧
        ∃ m ∈ marks, m.role = .secondary ∧ m.covers column = true := by
  rw [← lastRole_eq_primary_iff]
  cases hlast : lastRole marks column with
  | none =>
    have := lastRole_eq_none_iff.1 hlast
    grind
  | some role =>
    cases role with
    | primary => simp
    | secondary => simpa using exists_of_lastRole hlast

/-! ## Rows -/

theorem le_foldl_max (w : Nat) : w ≤ marks.foldl (fun w m => max w m.stop) w := by
  induction marks generalizing w with
  | nil => simp
  | cons k marks ih => exact (Nat.le_max_left w k.stop).trans (ih _)

/-- No mark goes on past the slots. -/
theorem stop_le_foldl_max (hm : m ∈ marks) (w : Nat) :
    m.stop ≤ marks.foldl (fun w m => max w m.stop) w := by
  induction marks generalizing w with
  | nil => cases hm
  | cons k marks ih =>
    rcases List.mem_cons.1 hm with rfl | hm
    · exact (Nat.le_max_right w m.stop).trans (le_foldl_max _)
    · exact ih hm _

/-- The row goes up to the last column that is marked. -/
theorem getElem?_roles? (h : roles? marks = some rs) {role : Option Role} {i : Nat} :
    rs[i]? = some role ↔
      role = lastRole marks (i + 1) ∧ ∃ j, i ≤ j ∧ (lastRole marks (j + 1)).isSome := by
  let width := marks.foldl (fun w m => max w m.stop) 1
  simp only [roles?, Option.bind_eq_bind, Option.bind_eq_some_iff] at h
  obtain ⟨painted, hfold, hrs⟩ := h
  have hpainted (j : Nat) :
      painted[j]? = if j < width then some (lastRole marks (j + 1)) else none := by
    rw [getElem?_foldlM_paint? hfold, List.getElem?_replicate]
    split <;> simp [lastRole]
  -- a slot that is marked is there
  have hwidth (j : Nat) (hj : (lastRole marks (j + 1)).isSome) : j < width := by
    obtain ⟨role, hrole⟩ := Option.isSome_iff_exists.1 hj
    obtain ⟨m, hm, -, hcovers⟩ := exists_of_lastRole hrole
    have hstop := stop_le_foldl_max hm 1
    simp only [covers, Bool.and_eq_true, decide_eq_true_eq] at hcovers
    omega
  obtain rfl : painted.rdropWhile (·.isNone) = rs := Option.some.inj hrs
  rw [getElem?_rdropWhile]
  constructor
  · rintro ⟨hi, j, b, hij, hj, hb⟩
    simp only [hpainted, Option.ite_none_right_eq_some, Option.some.injEq] at hi hj
    obtain ⟨-, rfl⟩ := hj
    exact ⟨hi.2.symm, j, hij, by simpa [Option.isSome_iff_ne_none] using hb⟩
  · rintro ⟨rfl, j, hij, hj⟩
    have hlt := hwidth j hj
    have hi : i < width := by omega
    exact ⟨by simp [hpainted, hi], j, lastRole marks (j + 1), hij, by simp [hpainted, hlt],
      by simpa [Option.isSome_iff_ne_none] using hj⟩

theorem lt_length_roles?_iff (h : roles? marks = some rs) {i : Nat} :
    i < rs.length ↔ ∃ j, i ≤ j ∧ (lastRole marks (j + 1)).isSome := by
  constructor
  · intro hi
    exact ((getElem?_roles? h).1 (List.getElem?_eq_getElem hi)).2
  · intro hj
    exact (List.getElem?_eq_some_iff.1 ((getElem?_roles? h).2 ⟨rfl, hj⟩)).1

theorem lastRole_congr {marks' : List Mark} (h : ∀ m, m ∈ marks ↔ m ∈ marks') (column : Nat) :
    lastRole marks column = lastRole marks' column := by
  cases hlast : lastRole marks' column with
  | none =>
    rw [lastRole_eq_none_iff] at hlast ⊢
    simpa only [h] using hlast
  | some role =>
    cases role with
    | primary =>
      rw [lastRole_eq_primary_iff] at hlast ⊢
      simpa only [h] using hlast
    | secondary =>
      rw [lastRole_eq_secondary_iff] at hlast ⊢
      simpa only [h] using hlast

/-- It makes no difference in which order the marks are given. -/
theorem roles?_congr {marks' : List Mark} {rs' : List (Option Role)} (h : roles? marks = some rs)
    (h' : roles? marks' = some rs') (hmem : ∀ m, m ∈ marks ↔ m ∈ marks') : rs = rs' := by
  refine List.ext_getElem? fun i => Option.ext fun role => ?_
  simp only [getElem?_roles? h, getElem?_roles? h', lastRole_congr hmem]

theorem messages_perm (marks : List Mark) : (messages marks).Perm
    (marks.filterMap fun m => m.message.map fun text => (m.start, m.role, text)) :=
  (Ordered.sort_perm _ _).trans ((Ordered.sort_perm before marks).filterMap _)

end Mark

/-! ## Columns of labels -/

namespace Label

/-- The column at which a label starts. -/
def column? (map : LineMap) (l : Label) : Option Nat :=
  (map.position? l.span.start).map (·.column)

/-- The message of a label with the column where it starts. -/
def messageAt? (map : LineMap) (l : Label) : Option (Nat × Role × String) :=
  l.message.bind fun text => (l.column? map).map fun column => (column, l.role, text)

/-- The column before which a label from `first` to `last` stops on its first line. -/
def stop (map : LineMap) (first last : Position) : Nat :=
  if last.line = first.line then last.column else (map.lineText first.line).length + 1

/-- A label covers columns of the line on which it starts, at least one. -/
def Covers (map : LineMap) (l : Label) (line column : Nat) : Prop :=
  ∃ first ∈ map.position? l.span.start, ∃ last ∈ map.position? l.span.stop,
    first.line = line ∧ first.column ≤ column ∧
      column < max (stop map first last) (first.column + 1)

instance (map : LineMap) (l : Label) (line column : Nat) : Decidable (l.Covers map line column) :=
  inferInstanceAs (Decidable (∃ _ ∈ _, _))

/-- The mark of a label covers the columns that the label does. -/
theorem covers_iff {map : LineMap} {l : Label} {m : Mark} (h : Mark.ofLabel? map l = some m)
    (line column : Nat) : m.line = line ∧ m.covers column = true ↔ l.Covers map line column := by
  obtain ⟨first, last, stop, hfirst, hlast, hstop, -, rfl⟩ := Mark.ofLabel?_eq_some_iff.1 h
  obtain rfl : Label.stop map first last = stop := by
    rw [Mark.stop?] at hstop
    rw [Label.stop]
    split at hstop
    next hline => rw [if_pos hline, Option.some.inj hstop]
    next hline => rw [if_neg hline, (Offset.add?_eq_some_iff.1 hstop).2]
  simp [Covers, hfirst, hlast, Mark.covers]

end Label

/-- A row of marks below a line: in every column up to the last one that a label covers, it shows
whether a primary label covers the column, or else a secondary one, or none. -/
structure Underlines (map : LineMap) (labels : List Label) (line : Nat) (row : Text) : Prop where
  primary : ∀ i, row[i]? = some '^' ↔
    ∃ l ∈ labels, l.role = .primary ∧ l.Covers map line (i + 1)
  secondary : ∀ i, row[i]? = some '-' ↔
    (¬ ∃ l ∈ labels, l.role = .primary ∧ l.Covers map line (i + 1)) ∧
      ∃ l ∈ labels, l.role = .secondary ∧ l.Covers map line (i + 1)
  blank : ∀ i, row[i]? = some ' ' ↔
    (¬ ∃ l ∈ labels, l.Covers map line (i + 1)) ∧ ∃ j > i, ∃ l ∈ labels, l.Covers map line (j + 1)
  length : ∀ i, i < row.length ↔ ∃ j ≥ i, ∃ l ∈ labels, l.Covers map line (j + 1)

namespace Snippet

variable {map : LineMap} {labels : List Label} {marks : List Mark} {n : Nat}

/-- The marks that start on a line. -/
def marksOn (marks : List Mark) (n : Nat) : List Mark := marks.filter (·.line == n)

/-- The row of marks below a line. -/
def rowText (marks : List Mark) (n : Nat) : Text :=
  ((Mark.roles? (marksOn marks n)).getD []).map symbol

theorem exists_marksOn_iff (h : labels.mapM (Mark.ofLabel? map) = some marks) (p : Role → Prop)
    (column : Nat) : (∃ m ∈ marksOn marks n, p m.role ∧ m.covers column = true) ↔
      ∃ l ∈ labels, p l.role ∧ l.Covers map n column := by
  have hrole {l : Label} {m : Mark} (h : Mark.ofLabel? map l = some m) : m.role = l.role := by
    obtain ⟨-, -, -, -, -, -, -, rfl⟩ := Mark.ofLabel?_eq_some_iff.1 h
    rfl
  simp only [marksOn, List.mem_filter, beq_iff_eq]
  constructor
  · rintro ⟨m, ⟨hm, hline⟩, hp, hcovers⟩
    obtain ⟨l, hl, hmark⟩ := (mem_iff_of_mapM h).1 hm
    exact ⟨l, hl, hrole hmark ▸ hp, (Label.covers_iff hmark n column).1 ⟨hline, hcovers⟩⟩
  · rintro ⟨l, hl, hp, hcovers⟩
    obtain ⟨m, hm, hmark⟩ := exists_mem_of_mapM h hl
    obtain ⟨hline, hcovers⟩ := (Label.covers_iff hmark n column).2 hcovers
    exact ⟨m, ⟨hm, hline⟩, (hrole hmark).symm ▸ hp, hcovers⟩

theorem exists_roles? {t : Text} (h : labels.mapM (Mark.ofLabel? (.ofText t)) = some marks)
    (n : Nat) : ∃ rs, Mark.roles? (marksOn marks n) = some rs :=
  Option.isSome_iff_exists.1
    (Mark.isSome_roles? fun m hm => Mark.bounds_of_mapM h m (List.mem_filter.1 hm).1)

theorem symbol_injective : Function.Injective symbol := by
  rintro (_ | _ | _) (_ | _ | _) h <;> first | rfl | cases h

theorem getElem?_map_symbol {rs : List (Option Role)} (h : Mark.roles? marks = some rs) (i : Nat)
    (role : Option Role) : (rs.map symbol)[i]? = some (symbol role) ↔
      role = Mark.lastRole marks (i + 1) ∧
        ∃ j, i ≤ j ∧ (Mark.lastRole marks (j + 1)).isSome := by
  rw [List.getElem?_map, Option.map_eq_some_iff, ← Mark.getElem?_roles? h]
  constructor
  · rintro ⟨role', hrole, hsymbol⟩
    exact symbol_injective hsymbol ▸ hrole
  · intro hrole
    exact ⟨role, hrole, rfl⟩

theorem getElem?_map_symbol_some {rs : List (Option Role)} (h : Mark.roles? marks = some rs)
    (i : Nat) (role : Role) : (rs.map symbol)[i]? = some (symbol (some role)) ↔
      Mark.lastRole marks (i + 1) = some role := by
  rw [getElem?_map_symbol h]
  constructor
  · exact fun hrole => hrole.1.symm
  · intro hrole
    exact ⟨hrole.symm, i, Nat.le_refl i, by simp [hrole]⟩

theorem isSome_lastRole_iff (h : labels.mapM (Mark.ofLabel? map) = some marks) (column : Nat) :
    (Mark.lastRole (marksOn marks n) column).isSome ↔ ∃ l ∈ labels, l.Covers map n column := by
  rw [Option.isSome_iff_ne_none, ne_eq, Mark.lastRole_eq_none_iff]
  simpa using exists_marksOn_iff h (fun _ => True) column

theorem underlines_rowText {t : Text}
    (h : labels.mapM (Mark.ofLabel? (.ofText t)) = some marks) (n : Nat) :
    Underlines (.ofText t) labels n (rowText marks n) := by
  obtain ⟨rs, hrs⟩ := exists_roles? h n
  rw [rowText, hrs, Option.getD_some]
  refine ⟨fun i => ?_, fun i => ?_, fun i => ?_, fun i => ?_⟩
  · rw [← exists_marksOn_iff h (· = .primary), ← Mark.lastRole_eq_primary_iff]
    exact getElem?_map_symbol_some hrs i .primary
  · rw [← exists_marksOn_iff h (· = .primary), ← exists_marksOn_iff h (· = .secondary),
      ← Mark.lastRole_eq_secondary_iff]
    exact getElem?_map_symbol_some hrs i .secondary
  · simp only [← isSome_lastRole_iff h]
    refine (getElem?_map_symbol hrs i none).trans ⟨?_, ?_⟩
    · rintro ⟨hnone, j, hij, hj⟩
      refine ⟨by simp [← hnone], j, ?_, hj⟩
      rcases Nat.eq_or_lt_of_le hij with rfl | hlt
      · simp [← hnone] at hj
      · exact hlt
    · rintro ⟨hnone, j, hij, hj⟩
      rw [Option.not_isSome_iff_eq_none] at hnone
      exact ⟨hnone.symm, j, Nat.le_of_lt hij, hj⟩
  · simp only [← isSome_lastRole_iff h, ge_iff_le, ← Mark.lt_length_roles?_iff hrs,
      List.length_map]

/-! ## Texts of rows -/

@[simp] theorem text_ofRole (role : Role) (text : String) :
    (ofRole role text).text = text.toList := by
  cases role <;> rfl

theorem text_run (group : List (Option Role)) : (run group).text = group.map symbol := by
  unfold run
  split <;> simp

theorem text_underline (rs : List (Option Role)) :
    (underline rs).flatMap (·.text) = rs.map symbol := by
  simp only [underline, List.flatMap_map, text_run]
  rw [List.flatMap_def, ← List.map_flatten, List.flatten_splitBy]

/-- The rows below a line: the marks, with a single message after them or else each message on a row
of its own, the rightmost first, below the column where its label starts. -/
def marksText (gutter : Nat) (row : Text) : List (Nat × Role × String) → Text
  | [] => marginText gutter row
  | [(_, _, text)] => marginText gutter (row ++ ' ' :: text.toList)
  | several => marginText gutter row ++ several.reverse.flatMap fun (column, _, text) =>
    marginText gutter (List.replicate (column - 1) ' ' ++ '|' :: ' ' :: text.toList)

theorem render_markRows? {gutter : Nat} {rows : List Row} {rs : List (Option Role)}
    (h : markRows? gutter marks = some rows) (hrs : Mark.roles? marks = some rs) :
    rows.flatMap (Row.render false) =
      marksText gutter (rs.map symbol) (Mark.messages marks) := by
  have hrow : Row.render false (margin gutter ++ .plain " " :: underline rs) =
      marginText gutter (rs.map symbol) :=
    render_margin (by simp [text_underline])
  rw [markRows?, hrs, Option.bind_eq_bind, Option.bind_some] at h
  obtain rfl := Option.some.inj h
  split
  next hnil => simp [hnil, marksText, hrow]
  next column role text hone =>
    have hrow' : Row.render false (margin gutter ++ (.plain " " :: underline rs ++
        [.plain " ", ofRole role text])) =
        marginText gutter (rs.map symbol ++ ' ' :: text.toList) :=
      render_margin (by simp [text_underline])
    simpa [hone, marksText] using hrow'
  next several hnil hone =>
    have hmessage (p : Nat × Role × String) : Row.render false (margin gutter ++
        [.plain (" " ++ spaces (p.1 - 1)), ofRole p.2.1 "|", .plain " ", ofRole p.2.1 p.2.2]) =
        marginText gutter (List.replicate (p.1 - 1) ' ' ++ '|' :: ' ' :: p.2.2.toList) :=
      render_margin (by simp)
    rw [marksText, List.flatMap_cons, hrow, List.flatMap_map]
    · simp only [hmessage]
    · exact hnil
    · exact hone

/-- A row of dots after a line stands for lines that are left out before the next one. -/
def dotsText (gutter n : Nat) : Option Nat → Text
  | some next => if next > n + 1 then List.replicate gutter ' ' ++ " ...\n".toList else []
  | none => []

/-- Lines of the source, each with the row of marks and the messages below it. -/
def linesText (map : LineMap) (gutter : Nat) (messages : Nat → List (Nat × Role × String)) :
    List (Nat × Text) → Text
  | [] => []
  | (n, row) :: rest =>
    numberedText gutter n (map.lineText n) ++ marksText gutter row (messages n) ++
      dotsText gutter n (rest.head?.map Prod.fst) ++ linesText map gutter messages rest

theorem lineRows?_cons_eq_some_iff {gutter : Nat} {ns : List Nat} {rows : List Row} :
    lineRows? map gutter marks (n :: ns) = some rows ↔
      ∃ below others, markRows? gutter (marksOn marks n) = some below ∧
        lineRows? map gutter marks ns = some others ∧
        rows = (numbered gutter n ++ [.plain (" " ++ String.ofList (map.lineText n))]) ::
          below ++ dots gutter n ns.head? ++ others := by
  simp only [lineRows?, Option.bind_eq_bind, Option.bind_eq_some_iff]
  constructor
  · rintro ⟨below, hbelow, others, hothers, hrows⟩
    exact ⟨below, others, hbelow, hothers, (Option.some.inj hrows).symm⟩
  · rintro ⟨below, others, hbelow, hothers, rfl⟩
    exact ⟨below, hbelow, others, hothers, rfl⟩

theorem render_dots (gutter n : Nat) (next : Option Nat) :
    (dots gutter n next).flatMap (Row.render false) = dotsText gutter n next := by
  have hdots : Row.render false [.plain (spaces gutter ++ " "), .colored .blue "..."] =
      List.replicate gutter ' ' ++ " ...\n".toList := by
    simp [Row.render_false]
  cases next with
  | none => rfl
  | some next =>
    rw [dots, dotsText]
    split
    · rw [List.flatMap_cons, List.flatMap_nil, List.append_nil, hdots]
    · rfl

theorem render_lineRows? {t : Text} {gutter : Nat} {ns : List Nat} {rows : List Row}
    (hmarks : labels.mapM (Mark.ofLabel? (.ofText t)) = some marks)
    (h : lineRows? map gutter marks ns = some rows) : rows.flatMap (Row.render false) =
      linesText map gutter (fun n => Mark.messages (marksOn marks n))
        (ns.map fun n => (n, rowText marks n)) := by
  induction ns generalizing rows with
  | nil =>
    obtain rfl := Option.some.inj h
    rfl
  | cons n ns ih =>
    obtain ⟨below, others, hbelow, hothers, rfl⟩ := lineRows?_cons_eq_some_iff.1 h
    obtain ⟨rs, hrs⟩ := exists_roles? hmarks n
    have hsource : Row.render false (numbered gutter n ++
        [.plain (" " ++ String.ofList (map.lineText n))]) =
        numberedText gutter n (map.lineText n) :=
      render_numbered (by simp)
    have hnext : (ns.map fun n => (n, rowText marks n)).head?.map Prod.fst = ns.head? := by
      cases ns <;> rfl
    have hrow : rowText marks n = rs.map symbol := by rw [rowText, hrs, Option.getD_some]
    rw [List.cons_append, List.cons_append, List.flatMap_cons, List.flatMap_append,
      List.flatMap_append, hsource, render_markRows? hbelow hrs, render_dots, ih hothers,
      List.map_cons, linesText, hnext, hrow]
    simp only [List.append_assoc]

/-! ## Shown lines -/

theorem mem_shown {t : Text} {d : Diagnostic} {n : Nat} :
    n ∈ shown (.ofText t) d ↔ ∃ l ∈ d.labels, l.line? (.ofText t) = some n := by
  simp only [shown, List.mem_filter, List.any_eq_true, beq_iff_eq]
  refine ⟨And.right, fun h => ⟨?_, h⟩⟩
  obtain ⟨l, -, hline⟩ := h
  obtain ⟨p, hp, rfl⟩ := Option.map_eq_some_iff.1 hline
  have hbounds := LineMap.bounds_of_position? hp
  exact List.mem_map.2 ⟨p.line - 1, List.mem_range.2 (by omega), by omega⟩

theorem shown_pairwise (map : LineMap) (d : Diagnostic) : (shown map d).Pairwise (· < ·) := by
  refine List.Pairwise.filter _ (List.pairwise_map.2 ?_)
  exact List.pairwise_lt_range.imp fun h => Nat.succ_lt_succ h

theorem shown_congr {map : LineMap} {d d' : Diagnostic}
    (h : ∀ l, l ∈ d.labels ↔ l ∈ d'.labels) : shown map d = shown map d' := by
  refine List.filter_congr fun n _ => ?_
  rw [Bool.eq_iff_iff]
  simp only [List.any_eq_true, h]

theorem rowText_congr {t : Text} {labels labels' : List Label} {marks marks' : List Mark}
    (h : labels.mapM (Mark.ofLabel? (.ofText t)) = some marks)
    (h' : labels'.mapM (Mark.ofLabel? (.ofText t)) = some marks')
    (hmem : ∀ l, l ∈ labels ↔ l ∈ labels') (n : Nat) : rowText marks n = rowText marks' n := by
  obtain ⟨rs, hrs⟩ := exists_roles? h n
  obtain ⟨rs', hrs'⟩ := exists_roles? h' n
  obtain rfl : rs = rs' := Mark.roles?_congr hrs hrs' fun m => by
    simp only [marksOn, List.mem_filter, mem_iff_of_mapM h, mem_iff_of_mapM h', hmem]
  rw [rowText, rowText, hrs, hrs']

theorem filterMap_marksOn (h : labels.mapM (Mark.ofLabel? map) = some marks) (n : Nat) :
    ((marksOn marks n).filterMap fun m => m.message.map fun text => (m.start, m.role, text)) =
      (labels.filter (·.line? map == some n)).filterMap (·.messageAt? map) := by
  induction labels generalizing marks with
  | nil =>
    obtain rfl := Option.some.inj h
    rfl
  | cons l labels ih =>
    simp only [List.mapM_cons, Option.bind_eq_bind, Option.bind_eq_some_iff] at h
    obtain ⟨m, hm, rest, hrest, hmarks⟩ := h
    obtain rfl := Option.some.inj hmarks
    have hline := line?_of_ofLabel? hm
    have hmessage : (m.message.map fun text => (m.start, m.role, text)) = l.messageAt? map := by
      obtain ⟨first, -, -, hfirst, -, -, -, rfl⟩ := Mark.ofLabel?_eq_some_iff.1 hm
      simp [Label.messageAt?, Label.column?, hfirst, Option.map_eq_bind]
    have hrest := ih hrest
    rw [marksOn] at hrest ⊢
    by_cases hn : m.line = n
    · simp [hn, hline, List.filterMap_cons, hmessage, hrest]
    · simp [hn, hline, hrest]

end Snippet

open Snippet

/-- With colours off, the lines on which labels start are shown once each and in order, with dots
between two of them that do not follow each other. Below each of them a row marks the columns that
labels cover, and it does not matter in which order the labels are given. Every message is below the
line of its label, once. Notes and help follow; only a suggestion that cannot be shown leaves the
diagnostic without a text. -/
theorem snippet_marks_labelled_columns {t : Text} {d : Diagnostic} (hlabels : d.labels ≠ [])
    (hcolumns : ∀ l ∈ d.labels, (Mark.ofLabel? (.ofText t) l).isSome) :
    ∃ rows : List (Nat × Text), (rows.map Prod.fst).Pairwise (· < ·) ∧
      (∀ n, n ∈ rows.map Prod.fst ↔ ∃ l ∈ d.labels, l.line? (.ofText t) = some n) ∧
      (∀ p ∈ rows, Underlines (.ofText t) d.labels p.1 p.2) ∧
      ∀ labels, labels.Perm d.labels → ∀ file, ∃ span position messages,
        { d with labels := labels }.primarySpan? = some span ∧
        (LineMap.ofText t).position? span.start = some position ∧
        (∀ n, (messages n).Perm ((labels.filter (·.line? (.ofText t) == some n)).filterMap
          (·.messageAt? (.ofText t)))) ∧
        ((foot? (.ofText t) { d with labels := labels }).isSome ↔
          ∀ s, d.help.bind (·.suggestion) = some s → (replaced? (.ofText t) s).isSome) ∧
        { d with labels := labels }.render? false (.ofText t) file =
          (foot? (.ofText t) { d with labels := labels }).map fun foot =>
            (head (.ofText t) file { d with labels := labels } position).flatMap
              (Row.render false) ++
            linesText (.ofText t) (gutter (.ofText t) { d with labels := labels }) messages rows ++
            foot.flatMap (Row.render false) := by
  obtain ⟨marks, hmarks⟩ := Option.isSome_iff_exists.1 (isSome_mapM_iff.2 hcolumns)
  have hfst (ns : List Nat) : (ns.map fun n => (n, rowText marks n)).map Prod.fst = ns := by
    simp [Function.comp_def]
  refine ⟨(shown (.ofText t) d).map fun n => (n, rowText marks n), ?_, ?_, ?_, ?_⟩
  · rw [hfst]
    exact shown_pairwise _ d
  · intro n
    rw [hfst, mem_shown]
  · rintro ⟨n, row⟩ hmem
    obtain ⟨n, -, ⟨rfl, rfl⟩⟩ := List.mem_map.1 hmem
    exact underlines_rowText hmarks n
  · intro labels hperm file
    have hmem : ∀ l, l ∈ labels ↔ l ∈ d.labels := fun l => hperm.mem_iff
    have hshown : shown (.ofText t) { d with labels := labels } = shown (.ofText t) d :=
      shown_congr hmem
    obtain ⟨marks', hmarks'⟩ : ∃ marks', labels.mapM (Mark.ofLabel? (.ofText t)) = some marks' :=
      Option.isSome_iff_exists.1 (isSome_mapM_iff.2 fun l hl => hcolumns l ((hmem l).1 hl))
    obtain ⟨span, hspan⟩ : ∃ span, { d with labels := labels }.primarySpan? = some span := by
      refine Option.ne_none_iff_exists'.1 fun hnone => hlabels ?_
      have hnil : labels = [] := primarySpan?_eq_none_iff.1 hnone
      exact List.perm_nil.1 (hnil ▸ hperm.symm)
    obtain ⟨position, hposition⟩ := Diagnostic.exists_position_of_primarySpan? hspan hmarks'
    obtain ⟨source, hsource⟩ := Option.isSome_iff_exists.1 (isSome_lineRows?
      (Mark.bounds_of_mapM hmarks') (.ofText t) (gutter (.ofText t) { d with labels := labels })
      (shown (.ofText t) { d with labels := labels }))
    refine ⟨span, position, fun n => Mark.messages (marksOn marks' n), hspan, hposition,
      fun n => ?_, ?_, ?_⟩
    · rw [← filterMap_marksOn hmarks' n]
      exact Mark.messages_perm _
    · rw [isSome_foot?_iff]
    · have hrows := rows?_of_primarySpan? hspan hmarks' file
      have htext := render_lineRows? hmarks' hsource
      simp only [hshown, ← rowText_congr hmarks hmarks' fun l => (hmem l).symm] at htext
      rw [hposition, Option.bind_some, hsource, Option.bind_some] at hrows
      simp only [Diagnostic.render?, hrows, Option.bind_eq_bind, Option.map_eq_bind,
        Option.bind_assoc, Function.comp_apply, Option.bind_some, List.flatMap_append, htext]
      rfl

/-- A primary label over a secondary one, on to the next line, and a label out of order at the end
of the text. -/
theorem snippet_marks_labelled_columns_overlap :
    let t : Text := "abcd\né\n\nxy".toList
    let d := (((Diagnostic.error "m").withSecondary ⟨0, 3⟩ "s").withPrimary ⟨2, 7⟩
      "p").withSecondary ⟨11, 9⟩ "r"
    (∀ l ∈ d.labels, (Mark.ofLabel? (.ofText t) l).isSome) ∧
      ∃ (rows : List (Nat × Text)) (row : Text), (1, row) ∈ rows ∧ row[1]? = some '-' ∧
        row[2]? = some '^' ∧ row[3]? = some '^' ∧ 2 ∉ rows.map Prod.fst ∧
        4 ∈ rows.map Prod.fst ∧ ∃ messages,
          (messages 1).Perm [(1, .secondary, "s"), (3, .primary, "p")] ∧
          d.render? false (.ofText t) "f" = some (
            (head (.ofText t) "f" d ⟨1, 3⟩).flatMap (Row.render false) ++
            linesText (.ofText t) (gutter (.ofText t) d) messages rows) := by
  intro t d
  have hcolumns : ∀ l ∈ d.labels, (Mark.ofLabel? (.ofText t) l).isSome := by decide +kernel
  obtain ⟨rows, -, hlines, hrows, hrender⟩ :=
    snippet_marks_labelled_columns (List.cons_ne_nil _ _) hcolumns
  obtain ⟨span, position, messages, hspan, hposition, hmessages, -, htext⟩ :=
    hrender d.labels (.refl _) "f"
  obtain rfl : (⟨2, 7⟩ : Span) = span := Option.some.inj hspan
  obtain rfl : position = ⟨1, 3⟩ := Option.some.inj (hposition.symm.trans (by decide +kernel))
  have hfirst : 1 ∈ rows.map Prod.fst := (hlines 1).2 (by decide +kernel)
  have hfourth : 4 ∈ rows.map Prod.fst := (hlines 4).2 (by decide +kernel)
  have hsecond : 2 ∉ rows.map Prod.fst := fun h => absurd ((hlines 2).1 h) (by decide +kernel)
  obtain ⟨⟨n, row⟩, hrow, rfl⟩ := List.mem_map.1 hfirst
  have hmarks : Underlines (.ofText t) d.labels 1 row := hrows _ hrow
  have hperm : (messages 1).Perm [(1, .secondary, "s"), (3, .primary, "p")] :=
    (hmessages 1).trans (.of_eq (by decide +kernel))
  have hfoot : foot? (.ofText t) d = some [] := rfl
  exact ⟨hcolumns, rows, row, hrow, (hmarks.secondary 1).2 (by decide +kernel),
    (hmarks.primary 2).2 (by decide +kernel), (hmarks.primary 3).2 (by decide +kernel), hsecond,
    hfourth, messages, hperm, by simpa [hfoot] using htext⟩

end ArrowLang
