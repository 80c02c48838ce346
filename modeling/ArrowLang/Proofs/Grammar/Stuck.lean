import ArrowLang.Proofs.Grammar.Plain

/-!
# Where reading gets stuck

Where reading fails, what was passed can still be completed to a word of the grammar, and nothing
can that goes on with the token of the error: the parser would take the same way up to that token
and fail there again. `Stuck` says both, for the function that failed, and it is carried over to the
function that called it by one rule for each way to go on. Single tokens and types come first, and
the lookahead after an opening parenthesis.
-/

namespace ArrowLang

open Cursor Outcome Grammar

/-- The kinds of some tokens and of the end of the file after them. -/
def stream (ts : List Token) : List Token.Kind := ts.map (·.kind) ++ [.eof]

theorem stream_cons (t : Token) (ts : List Token) : stream (t :: ts) = t.kind :: stream ts := rfl

theorem stream_eq_kind_cons (ts : List Token) (e : Span) (i : Nat) :
    ∃ w, stream ts = Cursor.kind ⟨ts, e, i⟩ :: w := by
  cases ts <;> exact ⟨_, rfl⟩

theorem kind_eq_of_take_stream {n : Nat} {ts : List Token} {f : Cursor} (hn : 0 < n)
    (h : (stream ts).take n = (stream f.ahead).take n) (e : Span) (i : Nat) :
    Cursor.kind ⟨ts, e, i⟩ = f.kind := by
  obtain ⟨n, rfl⟩ := Nat.exists_eq_add_one.2 hn
  obtain ⟨v, hv⟩ := stream_eq_kind_cons ts e i
  obtain ⟨w, hw⟩ := stream_eq_kind_cons f.ahead f.eof f.nextId
  rw [hv, hw] at h
  simpa using (List.cons.inj h).1

namespace Reading

/-- Reading came to an error. -/
def Fails {α : Type} (x : Reading α) : Prop := ∃ e r, x = ⟨.error e, r⟩

theorem Fails.bind {α β : Type} {x : Reading α} (h : x.Fails) (f : α → Cursor → Reading β) :
    (x.bind f).Fails := by
  obtain ⟨e, r, rfl⟩ := h
  exact ⟨e, r, rfl⟩

end Reading

namespace Parse

open Reading

/-- The parenthesis before the error opens what may be an arrow function without parameters. -/
structure EmptyParens (X : List Token.Kind → Prop) (e : ParseError) (u : List Token) (f : Cursor) :
    Prop where
  cause : e.cause = .unexpected .expression .rightParen
  kind : f.kind = .rightParen
  /-- Any expression could stand in the place of the parenthesis. -/
  opens : ∃ v a, u = v ++ [⟨.leftParen, a⟩] ∧
    ∀ w, Derives .expr w → ∃ z, X (v.map (·.kind) ++ w ++ z)

/-- Reading words of `X` from `s` stops with the error `e` at `f`, after the tokens `u`. The next
`n` tokens settle that it does. -/
structure Stuck {α : Type} (X : List Token.Kind → Prop) (run : Cursor → Reading α) (s : Cursor)
    (e : ParseError) (u : List Token) (f : Cursor) (n : Nat) : Prop where
  passes : s.Passes u f
  span : e.span = f.span
  completes : ∃ z, X (u.map (·.kind) ++ z)
  dead : ∀ k a, (stream k).take n = (stream f.ahead).take n → (run ⟨u ++ k, a, s.nextId⟩).Fails
  lookahead : n = 1 ∨ n = 2 ∧ EmptyParens X e u f

/-- Reading words of `X` from `s` stops with the error `e` at the earliest token. -/
def StuckAt {α : Type} (X : List Token.Kind → Prop) (run : Cursor → Reading α) (s : Cursor)
    (e : ParseError) : Prop :=
  ∃ u f n, Stuck X run s e u f n

section

variable {α β : Type} {X Y : List Token.Kind → Prop} {run : Cursor → Reading α}
  {run' : Cursor → Reading β} {s q f : Cursor} {e : ParseError} {u v : List Token} {n : Nat}

theorem Stuck.pos (h : Stuck X run s e u f n) : 0 < n := by
  obtain rfl | ⟨rfl, -⟩ := h.lookahead <;> decide

theorem Stuck.kind_append (h : Stuck X run s e u f n) {k : List Token}
    (hk : (stream k).take n = (stream f.ahead).take n) (a : Span) (i : Nat) :
    Cursor.kind ⟨u ++ k, a, i⟩ = s.kind := by
  cases u with
  | nil =>
    rw [List.nil_append, kind_eq_of_take_stream h.pos hk a i]
    simp [Cursor.kind, h.passes.ahead]
  | cons => simp [Cursor.kind, h.passes.ahead]

/-- The token at `s` fits nothing. -/
theorem StuckAt.here (hX : ∃ w, X w) (hspan : e.span = s.span)
    (hrun : ∀ k a, Cursor.kind ⟨k, a, s.nextId⟩ = s.kind → (run ⟨k, a, s.nextId⟩).Fails) :
    StuckAt X run s e :=
  ⟨[], s, 1, passes_nil s, hspan, hX,
    fun k a hk => hrun k a (kind_eq_of_take_stream Nat.one_pos hk ..), .inl rfl⟩

/-- A function that passes `v` and then reads from `q` is stuck where reading from `q` is. -/
theorem Stuck.after (h : Stuck X run q e u f n) (hv : s.Passes v q)
    (hX : ∀ w, X w → ∃ z, Y (v.map (·.kind) ++ w ++ z))
    (hrun : ∀ k a, (stream k).take n = (stream f.ahead).take n →
      (run ⟨u ++ k, a, q.nextId⟩).Fails → (run' ⟨v ++ (u ++ k), a, s.nextId⟩).Fails) :
    Stuck Y run' s e (v ++ u) f n := by
  refine ⟨hv.trans h.passes, h.span, ?_, fun k a hk => ?_, ?_⟩
  · obtain ⟨z, hz⟩ := h.completes
    obtain ⟨z', hz'⟩ := hX _ hz
    exact ⟨z ++ z', by simpa using hz'⟩
  · rw [List.append_assoc]
    exact hrun k a hk (h.dead k a hk)
  · obtain hn | ⟨hn, hcause, hkind, w, a, hu, hw⟩ := h.lookahead
    · exact .inl hn
    · refine .inr ⟨hn, hcause, hkind, v ++ w, a, by simp [hu], fun x hx => ?_⟩
      obtain ⟨z, hz⟩ := hw x hx
      obtain ⟨z', hz'⟩ := hX _ hz
      exact ⟨z ++ z', by simpa using hz'⟩

theorem StuckAt.after (h : StuckAt X run q e) (hv : s.Passes v q)
    (hX : ∀ w, X w → ∃ z, Y (v.map (·.kind) ++ w ++ z))
    (hrun : ∀ k a, Cursor.kind ⟨k, a, q.nextId⟩ = q.kind → (run ⟨k, a, q.nextId⟩).Fails →
      (run' ⟨v ++ k, a, s.nextId⟩).Fails) : StuckAt Y run' s e := by
  obtain ⟨u, f, n, h⟩ := h
  exact ⟨v ++ u, f, n, h.after hv hX fun k a hk => hrun _ a (h.kind_append hk a _)⟩

theorem StuckAt.mono (h : StuckAt X run s e) (hX : ∀ w, X w → Y w) : StuckAt Y run s e :=
  h.after (passes_nil s) (fun w hw => ⟨[], by simpa using hX w hw⟩) fun _ _ _ hfail => hfail

/-- Reading from `s` passes `v` and gives `a`, and it does so again wherever `v` is followed by a
token of the same kind. -/
structure Replays (run : Cursor → Reading α) (s : Cursor) (v : List Token) (a : α) (q : Cursor) :
    Prop where
  passes : s.Passes v q
  again : ∀ k b, Cursor.kind ⟨k, b, q.nextId⟩ = q.kind →
    run ⟨v ++ k, b, s.nextId⟩ = ⟨.ok a, ⟨k, b, q.nextId⟩⟩

theorem StuckAt.bind {g : α → Cursor → Reading β} (h : StuckAt X run s e)
    (hX : ∀ w, X w → ∃ z, Y (w ++ z)) : StuckAt Y (fun s => (run s).bind g) s e :=
  h.after (passes_nil s) hX fun _ _ _ hfail => hfail.bind g

theorem Replays.bind {g : α → Cursor → Reading β} {a : α} (h : Replays run s v a q)
    (hq : StuckAt (fun w => Y (v.map (·.kind) ++ w)) (g a) q e) :
    StuckAt Y (fun s => (run s).bind g) s e := by
  refine hq.after h.passes (fun w hw => ⟨[], by simpa using hw⟩) fun k b hk hfail => ?_
  rwa [h.again k b hk]

/-! The same where the next step knows where the first one started. -/

theorem StuckAt.bind_start {g : Nat → α → Cursor → Reading β} (h : StuckAt X run s e)
    (hX : ∀ w, X w → ∃ z, Y (w ++ z)) : StuckAt Y (fun s => (run s).bind (g s.span.start)) s e :=
  h.after (passes_nil s) hX fun _ _ _ hfail => hfail.bind _

theorem Replays.bind_start {g : Nat → α → Cursor → Reading β} {a : α} (h : Replays run s v a q)
    (hv : v ≠ []) (hq : StuckAt (fun w => Y (v.map (·.kind) ++ w)) (g s.span.start a) q e) :
    StuckAt Y (fun s => (run s).bind (g s.span.start)) s e := by
  refine hq.after h.passes (fun w hw => ⟨[], by simpa using hw⟩) fun k b hk hfail => ?_
  have hstart : (Cursor.span ⟨v ++ k, b, s.nextId⟩).start = s.span.start := by
    rw [start_eq_of_passes h.passes hv]
    exact start_eq_of_passes (r := ⟨k, b, 0⟩) ⟨rfl, rfl⟩ hv
  rwa [hstart, h.again k b hk]

/-- A function that goes on as `g` for this kind of token. -/
theorem StuckAt.of_kind {g : Cursor → Reading α} (h : StuckAt Y g s e)
    (hrun : ∀ k b, Cursor.kind ⟨k, b, s.nextId⟩ = s.kind →
      run ⟨k, b, s.nextId⟩ = g ⟨k, b, s.nextId⟩) : StuckAt Y run s e := by
  refine h.after (passes_nil s) (fun w hw => ⟨[], by simpa using hw⟩) fun k b hk hfail => ?_
  rwa [List.nil_append, hrun k b hk]

/-- A function that reads a token and goes on. -/
theorem StuckAt.token {t : Token} {ts : List Token} {g : Cursor → Reading α}
    (h : StuckAt (fun w => Y (t.kind :: w)) g { s with ahead := ts } e) (hs : s.ahead = t :: ts)
    (hrun : ∀ k b, run ⟨t :: k, b, s.nextId⟩ = g ⟨k, b, s.nextId⟩) : StuckAt Y run s e := by
  refine h.after (passes_of_ahead hs) (fun w hw => ⟨[], by simpa using hw⟩) fun k b _ hfail => ?_
  rwa [List.singleton_append, hrun]

end

/-! ## Single tokens -/

theorem expect_stuck {s r : Cursor} {k : Token.Kind} {e : ParseError} (hk : k ≠ .eof)
    (h : (s.expect k).reading = ⟨.error e, r⟩) :
    StuckAt (· = [k]) (fun s => (s.expect k).reading) s e := by
  have hne : s.kind ≠ k := by
    intro he
    obtain ⟨ts, hs⟩ := exists_ahead_of_kind hk he
    simp [reading_expect, hs] at h
  rw [expect_of_kind_ne hne] at h
  cases h
  refine .here ⟨_, rfl⟩ rfl fun ts a hts => ?_
  exact ⟨_, _, expect_of_kind_ne (hts ▸ hne)⟩

theorem expect_replays {s r : Cursor} {k : Token.Kind} {a : Span}
    (h : (s.expect k).reading = ⟨.ok a, r⟩) :
    Replays (fun s => (s.expect k).reading) s [⟨k, a⟩] a r := by
  obtain ⟨hpass, hid⟩ := passes_of_expect h
  exact ⟨hpass, fun k b _ => by simp [hid]⟩

theorem expectName_stuck {s r : Cursor} {e : ParseError}
    (h : s.expectName.reading = ⟨.error e, r⟩) :
    StuckAt (fun w => ∃ x, w = [.ident x]) (fun s => s.expectName.reading) s e := by
  have hne : ∀ x, s.kind ≠ .ident x := by
    intro x he
    obtain ⟨ts, hs⟩ := exists_ahead_of_kind (by simp) he
    simp [reading_expectName, hs] at h
  rw [expectName_of_kind_ne hne] at h
  cases h
  refine .here ⟨_, "", rfl⟩ rfl fun ts a hts => ?_
  exact ⟨_, _, expectName_of_kind_ne (hts ▸ hne)⟩

theorem expectName_replays {s r : Cursor} {x : String} (h : s.expectName.reading = ⟨.ok x, r⟩) :
    Replays (fun s => s.expectName.reading) s [⟨.ident x, s.span⟩] x r := by
  obtain ⟨hpass, hid⟩ := passes_of_expectName h
  exact ⟨hpass, fun k b _ => by simp [hid]⟩

/-! ## Types -/

/-- Words of `N` with the parenthesis that closes them. -/
def Closed (N : Symbol) (w : List Token.Kind) : Prop := ∃ v, Derives N v ∧ w = v ++ [.rightParen]

theorem typeExpr_replays {s r : Cursor} {T : TypeExpr} (h : (typeExpr s).reading = ⟨.ok T, r⟩) :
    ∃ v, Replays (fun s => (typeExpr s).reading) s v T r ∧ Derives .type (v.map (·.kind)) := by
  obtain ⟨v, hv, hid, hann⟩ := typeExpr_written h
  exact ⟨v, ⟨hv, fun k b _ => by rw [hid, hann.reads]⟩, hann.shape.derives⟩

theorem params_replays {s r : Cursor} {ps : List ParamDecl}
    (h : (params s).reading = ⟨.ok ps, r⟩) :
    ∃ v, Replays (fun s => (params s).reading) s v ps r ∧ Closed .params (v.map (·.kind)) := by
  obtain ⟨v, b, hv, hid, hps⟩ := params_written h
  refine ⟨_, ⟨hv, fun k c _ => ?_⟩, _, hps.shape.derives, by simp⟩
  rw [List.append_assoc, List.singleton_append, hid, hps.reads]

theorem typeExpr_fails {s : Cursor} (hbool : s.kind ≠ .ident "boolean")
    (hnum : s.kind ≠ .ident "number") (hopen : s.kind ≠ .leftParen) :
    ∃ c r, (typeExpr s).reading = ⟨.error ⟨c, s.span⟩, r⟩ := by
  rw [reading_typeExpr]
  split
  · rename_i x a ts hs
    have hx := kind_of_ahead hs
    rw [if_neg fun h : x = "boolean" => hbool (h ▸ hx),
      if_neg fun h : x = "number" => hnum (h ▸ hx)]
    exact ⟨_, _, by rw [Cursor.span, hs]; rfl⟩
  · rename_i hs
    exact absurd (kind_of_ahead hs) hopen
  · exact ⟨_, _, rfl⟩

mutual

theorem typeExpr_stuck {s r : Cursor} {e : ParseError}
    (h : (typeExpr s).reading = ⟨.error e, r⟩) :
    StuckAt (Derives .type) (fun s => (typeExpr s).reading) s e := by
  by_cases hopen : s.kind = .leftParen
  · obtain ⟨ts, hs⟩ := exists_ahead_of_kind (by decide) hopen
    have hlt := left_lt_of_cons hs
    rw [reading_typeExpr, hs] at h
    refine StuckAt.token (g := functionType s.span) ?_ hs fun k b => reading_typeExpr _
    obtain hps | ⟨ps, r₁, hps, h⟩ := Reading.bind_eq_error_iff.1 h
    · refine (params_stuck hps).bind ?_
      rintro _ ⟨v, hv, rfl⟩
      exact ⟨[.fatArrow, .ident "boolean"], by simpa using hv.functionType .booleanType⟩
    have hle := left_le_of_reading hps
    obtain ⟨u, hu, w, hw, hu'⟩ := params_replays hps
    refine hu.bind ?_
    obtain harrow | ⟨c, r₂, harrow, h⟩ := Reading.bind_eq_error_iff.1 h
    · refine (expect_stuck (by decide) harrow).bind ?_
      rintro _ rfl
      exact ⟨[.ident "boolean"], by simpa [hu'] using hw.functionType .booleanType⟩
    have hlt' := (passes_of_expect harrow).1.left_lt
    refine (expect_replays harrow).bind ?_
    obtain hresult | ⟨T, r₃, hresult, h⟩ := Reading.bind_eq_error_iff.1 h
    · refine (typeExpr_stuck hresult).bind fun v hv => ⟨[], ?_⟩
      simpa [hu'] using hw.functionType hv
    · cases h
  · have hname (x : String) (hx : x = "boolean" ∨ x = "number") : s.kind ≠ .ident x := by
      intro he
      obtain ⟨ts, hs⟩ := exists_ahead_of_kind (by simp) he
      rw [reading_typeExpr, hs] at h
      obtain rfl | rfl := hx <;> simp at h
    have hbool := hname _ (.inl rfl)
    have hnum := hname _ (.inr rfl)
    obtain ⟨c, r', hfail⟩ := typeExpr_fails hbool hnum hopen
    rw [hfail] at h
    cases h
    refine .here ⟨_, .booleanType⟩ rfl fun k a hk => ?_
    obtain ⟨c, r, hfail⟩ := typeExpr_fails (hk ▸ hbool) (hk ▸ hnum) (hk ▸ hopen)
    exact ⟨_, r, hfail⟩
termination_by 2 * s.left

theorem params_stuck {s r : Cursor} {e : ParseError}
    (h : (params s).reading = ⟨.error e, r⟩) :
    StuckAt (Closed .params) (fun s => (params s).reading) s e := by
  have hclose : s.kind ≠ .rightParen := by
    intro he
    obtain ⟨ts, hs⟩ := exists_ahead_of_kind (by decide) he
    rw [reading_params, hs] at h
    cases h
  rw [params_of_kind_ne hclose] at h
  refine StuckAt.of_kind (g := someParams) ?_ fun k b hk => params_of_kind_ne (hk ▸ hclose)
  obtain hname | ⟨x, r₁, hname, h⟩ := Reading.bind_eq_error_iff.1 h
  · refine (expectName_stuck hname).bind_start (g := paramType) ?_
    rintro _ ⟨x, rfl⟩
    exact ⟨[.colon, .ident "boolean", .rightParen], _, .params (.oneDecl .booleanType), rfl⟩
  have hlt := (passes_of_expectName hname).1.left_lt
  refine (expectName_replays hname).bind_start (g := paramType) (by simp) ?_
  obtain hcolon | ⟨c, r₂, hcolon, h⟩ := Reading.bind_eq_error_iff.1 h
  · refine (expect_stuck (by decide) hcolon).bind ?_
    rintro _ rfl
    exact ⟨[.ident "boolean", .rightParen], _, .params (.oneDecl .booleanType), rfl⟩
  have hlt' := (passes_of_expect hcolon).1.left_lt
  refine (expect_replays hcolon).bind ?_
  obtain hT | ⟨T, r₃, hT, h⟩ := Reading.bind_eq_error_iff.1 h
  · refine (typeExpr_stuck hT).bind fun w hw => ?_
    exact ⟨[.rightParen], _, .params (.oneDecl (x := x) hw), by simp⟩
  have hle := left_le_of_reading hT
  obtain ⟨v, hv, hv'⟩ := typeExpr_replays hT
  refine hv.bind ?_
  by_cases hcomma : r₃.kind = .comma
  · obtain ⟨ts, hs⟩ := exists_ahead_of_kind (by decide) hcomma
    have hlt'' := left_lt_of_cons hs
    simp only [moreParams, hs] at h
    obtain hps | ⟨ps, r₄, hps, h⟩ := Reading.bind_eq_error_iff.1 h
    · refine StuckAt.token ((params_stuck hps).bind ?_) hs fun k b => rfl
      rintro _ ⟨w, hw, rfl⟩
      exact ⟨[], _, hv'.cons_params (x := x) hw, by simp⟩
    · cases h
  · rw [moreParams_of_kind_ne hcomma] at h
    obtain hclose | ⟨c, r₄, hclose, h⟩ := Reading.bind_eq_error_iff.1 h
    · refine StuckAt.of_kind ((expect_stuck (by decide) hclose).bind ?_)
        fun k b hk => moreParams_of_kind_ne (hk ▸ hcomma)
      rintro _ rfl
      exact ⟨[], _, .params (.oneDecl (x := x) hv'), by simp⟩
    · cases h
termination_by 2 * s.left + 1

end

/-! ## Lookahead -/

theorem take_one_stream (ts : List Token) (e : Span) (i : Nat) :
    (stream ts).take 1 = [Cursor.kind ⟨ts, e, i⟩] := by
  cases ts <;> rfl

theorem startsArrow_iff_take {ts : List Token} : startsArrow ts = true ↔
    (stream ts).take 2 = [.rightParen, .fatArrow] ∨
      ∃ x, (stream ts).take 2 = [.ident x, .colon] := by
  obtain _ | ⟨t, _ | ⟨t', ts⟩⟩ := ts <;> simp [startsArrow_iff, stream]

theorem startsArrow_congr {ts us : List Token} (h : (stream ts).take 2 = (stream us).take 2) :
    startsArrow ts = startsArrow us := by
  rw [Bool.eq_iff_iff, startsArrow_iff_take, startsArrow_iff_take, h]

theorem startsArrow_eq_false {ts : List Token} {e : Span} {i : Nat}
    (hclose : Cursor.kind ⟨ts, e, i⟩ ≠ .rightParen)
    (hname : ∀ x, Cursor.kind ⟨ts, e, i⟩ ≠ .ident x) : startsArrow ts = false := by
  unfold startsArrow
  split
  · exact absurd rfl hclose
  · exact absurd rfl (hname _)
  · rfl

theorem startsArrow_append {u ts us : List Token} (hu : u ≠ [])
    (h : (stream ts).take 1 = (stream us).take 1) :
    startsArrow (u ++ ts) = startsArrow (u ++ us) := by
  apply startsArrow_congr
  cases u with
  | nil => contradiction
  | cons t u =>
    cases u with
    | nil => simpa [stream_cons] using h
    | cons => simp [stream_cons]

/-- What is read after an opening parenthesis starts the same way when it is read again. -/
theorem Stuck.startsArrow_append {α : Type} {X : List Token.Kind → Prop} {run : Cursor → Reading α}
    {s f : Cursor} {e : ParseError} {u k : List Token} {n : Nat} (h : Stuck X run s e u f n)
    (hu : u = [] → f.kind ≠ .rightParen ∧ ∀ x, f.kind ≠ .ident x)
    (hk : (stream k).take n = (stream f.ahead).take n) :
    startsArrow (u ++ k) = startsArrow s.ahead := by
  have hkind := kind_eq_of_take_stream h.pos hk
  rw [h.passes.ahead]
  by_cases hnil : u = []
  · obtain ⟨hclose, hname⟩ := hu hnil
    subst hnil
    rw [List.nil_append, List.nil_append,
      startsArrow_eq_false (e := f.eof) (i := f.nextId) hclose hname]
    rw [← hkind f.eof f.nextId] at hclose
    exact startsArrow_eq_false hclose fun x => hkind f.eof f.nextId ▸ hname x
  · apply Parse.startsArrow_append hnil
    rw [take_one_stream k f.eof f.nextId, take_one_stream f.ahead f.eof f.nextId, hkind]

/-- Where nothing is passed, no token of the kind that is refused starts anything. -/
theorem Stuck.kind_ne_of_ok {α : Type} {X : List Token.Kind → Prop} {run : Cursor → Reading α}
    {s f r : Cursor} {e : ParseError} {n : Nat} (h : Stuck X run s e [] f n) {k : List Token}
    {b : Span} {a : α} (hok : run ⟨k, b, s.nextId⟩ = ⟨.ok a, r⟩) :
    f.kind ≠ Cursor.kind ⟨k, b, s.nextId⟩ := by
  intro hkind
  obtain rfl | ⟨-, -, -, v, c, hv, -⟩ := h.lookahead
  · obtain ⟨e', r', hfail⟩ := h.dead k b (by
      rw [take_one_stream k b s.nextId, take_one_stream f.ahead f.eof f.nextId, ← hkind])
    cases hok.symm.trans hfail
  · simp at hv

end Parse

end ArrowLang
