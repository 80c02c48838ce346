import ArrowLang.Proofs.Grammar.Numbering
import ArrowLang.Proofs.Lexing.Replace

/-!
# One variable for another

All tokens of a variable, its parentheses with it, may give way to a single name. What is written
then is the same term but for the name of that one variable (`Term.Edit`): no arrow is gained or
lost, and no node gets another number. The tokens next to those of the variable are marks, so the
name runs into no word (`Statements.replaceable`).
-/

namespace ArrowLang

/-! ## Terms that differ in a name -/

/-- `t.Edit p y u`: the term `u` is `t` with the name `y` for the variable of the number `p`. The
nodes above the variable may have other spans. -/
inductive Term.Edit (p : Nat) (y : String) : Term → Term → Prop where
  | var {n m : Node} {x : String} : n.id = p → m.id = p → Edit p y (.var n x) (.var m y)
  | child {t u c d : Term} {l r : List Term} : t.id = u.id → t.head = u.head →
      t.children = l ++ c :: r → u.children = l ++ d :: r → Edit p y c d → Edit p y t u

namespace Term

@[simp] theorem head_withSpan (s : Span) (t : Term) : (t.withSpan s).head = t.head := by
  cases t <;> rfl

@[simp] theorem children_withSpan (s : Span) (t : Term) :
    (t.withSpan s).children = t.children := by
  cases t <;> rfl

theorem Edit.withSpan {p : Nat} {y : String} {t u : Term} (h : t.Edit p y u) (s : Span) :
    (t.withSpan s).Edit p y (u.withSpan s) := by
  cases h with
  | var hn hm => exact .var hn hm
  | child hid hhead ht hu hedit =>
    exact .child (by simpa using hid) (by simpa using hhead) (by simpa using ht) (by simpa using hu)
      hedit

theorem Edit.mem_ids {p : Nat} {y : String} {t u : Term} (h : t.Edit p y u) : p ∈ t.ids := by
  induction h with
  | var hn => simp [ids, hn]
  | @child t u c d l r hid hhead ht hu _ ih =>
    rw [ids_eq, ht]
    simp [ih]

/-- Heads that are the same but at the number `p`, where the second is a variable `y`. -/
def Renamed (p : Nat) (y : String) (i : Nat) (h h' : Head) : Prop :=
  h' = if i = p then .var y else h

/-- If numbers tell nodes apart, an edit changes the head of one node. -/
theorem Edit.like {p : Nat} {y : String} {t u : Term} (h : t.Edit p y u) (ht : t.ids.Nodup) :
    t.Like (Renamed p y) u := by
  induction h with
  | var hn hm => exact .of_forall₂ (hn.trans hm.symm) (if_pos hn).symm .nil
  | @child t u c d l r hid hhead hl hr hedit ih =>
    obtain ⟨hc, htp, hrest⟩ := nodup_ids_child ht hl hedit.mem_ids
    have hsame {b : Term} (hb : b ∈ l ++ r) : b.Like (Renamed p y) b :=
      .refl fun i hi a => (if_neg (ne_of_mem_of_not_mem hi (hrest b hb))).symm
    refine .of_forall₂ hid (hhead.symm.trans (if_neg htp).symm) ?_
    rw [hl, hr]
    refine List.rel_append ?_ (.cons (ih hc) ?_)
    · exact List.forall₂_same.2 fun b hb => hsame (List.mem_append_left r hb)
    · exact List.forall₂_same.2 fun b hb => hsame (List.mem_append_right l hb)

/-- A variable in a term that is no variable is in one of its children. -/
theorem Within.exists_child {v t : Term} {x : String} (h : v.Within t) (hv : v.head = .var x)
    (ht : t.head ≠ .var x) : ∃ c ∈ t.children, v.Within c := by
  cases h with
  | refl => exact absurd hv ht
  | child hc hwithin => exact ⟨_, hc, hwithin⟩

end Term

/-! ## Tokens that give way -/

namespace Written

open Token

/-- The tokens `us` write `v` and stand between marks. With a name in their place, `P` holds of the
tokens and the term `t` with that name for `v`. -/
structure Hole (P : List Token → Term → Prop) (t v : Term) (before us after : List Token) :
    Prop where
  written : ∃ i j, Statements i us v j
  mark_before : ∀ a ∈ before.getLast?, a.kind.isMark = true
  mark_after : ∀ a ∈ after.head?, a.kind.isMark = true
  fill : ∀ y a, ∃ u, P (before ++ ⟨.ident y, a⟩ :: after) u ∧ t.Edit v.id y u

/-- Some of the tokens may give way to a name for `v`. -/
def Replaceable (P : List Token → Term → Prop) (ts : List Token) (t v : Term) : Prop :=
  ∃ before us after, ts = before ++ us ++ after ∧ Hole P t v before us after

theorem isMark_head?_append {u v : List Token} (hu : ∀ a ∈ u.head?, a.kind.isMark = true)
    (hv : ∀ a ∈ v.head?, a.kind.isMark = true) : ∀ a ∈ (u ++ v).head?, a.kind.isMark = true := by
  intro a ha
  rw [List.head?_append, Option.mem_def, Option.or_eq_some_iff] at ha
  exact ha.elim (hu a) fun ha => hv a ha.2

namespace Replaceable

variable {P Q : List Token → Term → Prop} {us ts : List Token} {c t v : Term}

/-- A hole in the tokens `us` is one in the tokens around them. -/
theorem frame (h : Replaceable P us c v) (l r : List Token) (hts : ts = l ++ us ++ r)
    (hl : ∀ a ∈ l.getLast?, a.kind.isMark = true) (hr : ∀ a ∈ r.head?, a.kind.isMark = true)
    (hQ : ∀ us d y, P us d → c.Edit v.id y d → ∃ u, Q (l ++ us ++ r) u ∧ t.Edit v.id y u) :
    Replaceable Q ts t v := by
  obtain ⟨before, ws, after, rfl, hhole⟩ := h
  refine ⟨l ++ before, ws, after ++ r, by simp [hts], hhole.written, ?_,
    isMark_head?_append hhole.mark_after hr, ?_⟩
  · intro a ha
    rw [List.getLast?_append, Option.mem_def, Option.or_eq_some_iff] at ha
    exact ha.elim (hhole.mark_before a) fun ha => hl a ha.2
  · intro y a
    obtain ⟨d, hd, hedit⟩ := hhole.fill y a
    obtain ⟨u, hu, hedit'⟩ := hQ _ d y hd hedit
    exact ⟨u, by simpa using hu, hedit'⟩

theorem mono (h : Replaceable P ts t v) (hPQ : ∀ us u, P us u → Q us u) :
    Replaceable Q ts t v := by
  obtain ⟨before, us, after, rfl, hhole⟩ := h
  refine ⟨before, us, after, rfl, { hhole with fill := fun y a => ?_ }⟩
  obtain ⟨u, hu, hedit⟩ := hhole.fill y a
  exact ⟨u, hPQ _ u hu, hedit⟩

end Replaceable

theorem mark_concat (l : List Token) {k : Kind} {a : Span} (hk : k.isMark = true) :
    ∀ b ∈ (l ++ [Token.mk k a]).getLast?, b.kind.isMark = true := by
  simp [hk]

/-- All tokens of a variable may give way. -/
theorem Atom.replaceable_self {i j : Nat} {ts : List Token} {v : Term} {x : String}
    (h : Atom i ts v j) (hx : v.head = .var x) :
    Replaceable (fun us u => Atom i us u j) ts v v := by
  refine ⟨[], ts, [], by simp, ⟨i, j, .last (.sum (.operand (.closed (.atom h))))⟩, by simp,
    by simp, fun y a => ⟨.var ⟨i, a⟩ y, ?_⟩⟩
  obtain ⟨hij, hids⟩ := h.counts
  cases v with
  | var n z =>
    -- a single number is counted
    have hlength := congrArg List.length hids
    rw [List.Ico.length, Term.ids, List.length_singleton] at hlength
    obtain rfl : j = i + 1 := by omega
    have hn : n.id = i := by simpa [Term.ids] using hids
    exact ⟨.var, .var rfl hn.symm⟩
  | _ => cases hx

section

variable {v : Term} {x : String}

mutual

theorem Expr.replaceable {i j : Nat} {ts : List Token} {t : Term} (hx : v.head = .var x) :
    Expr i ts t j → v.Within t → Replaceable (fun us u => Expr i us u j) ts t v
  | .sum hsum, hv => (hsum.replaceable hx hv).mono fun _ _ h => .sum h
  | .cond (a := a) (b := b) (u := u) (v := w) (w := z) (c := c) (y := y) hsum hyes hno, hv => by
    have hcond := hsum.replaceable hx
    have hthen := hyes.replaceable hx
    have helse := hno.replaceable hx
    obtain ⟨d, hd, hvd⟩ := hv.exists_child hx (by simp [Term.head])
    simp only [Term.children, List.mem_cons, List.not_mem_nil, or_false] at hd
    rcases hd with rfl | rfl | rfl
    · refine (hcond hvd).frame [] (⟨.question, a⟩ :: w ++ ⟨.colon, b⟩ :: z) (by simp)
        (by simp) (by simp [Kind.isMark]) fun us e y h hedit => ?_
      refine ⟨_, by simpa using Expr.cond (a := a) (b := b) h hyes hno, ?_⟩
      exact .child (l := []) rfl rfl rfl rfl hedit
    · refine (hthen hvd).frame (u ++ [⟨.question, a⟩]) (⟨.colon, b⟩ :: z) (by simp)
        (mark_concat _ rfl) (by simp [Kind.isMark]) fun us e y h hedit => ?_
      refine ⟨_, by simpa using Expr.cond (a := a) (b := b) hsum h hno, ?_⟩
      exact .child (l := [c]) rfl rfl rfl rfl hedit
    · refine (helse hvd).frame (u ++ ⟨.question, a⟩ :: w ++ [⟨.colon, b⟩]) [] (by simp)
        (mark_concat _ rfl) (by simp) fun us e z h hedit => ?_
      refine ⟨_, by simpa using Expr.cond (a := a) (b := b) hsum hyes h, ?_⟩
      exact .child (l := [c, y]) rfl rfl rfl rfl hedit

theorem Sum.replaceable {o : Bool} {i j : Nat} {ts : List Token} {t : Term}
    (hx : v.head = .var x) :
    Sum o i ts t j → v.Within t → Replaceable (fun us u => Sum o i us u j) ts t v
  | .operand hop, hv => (hop.replaceable hx hv).mono fun _ _ h => .operand h
  | .add (a := a) (u := u) (v := w) (s := s) hsum hop, hv => by
    have hleft := hsum.replaceable hx
    have hright := hop.replaceable hx
    obtain ⟨d, hd, hvd⟩ := hv.exists_child hx (by simp [Term.head])
    simp only [Term.children, List.mem_cons, List.not_mem_nil, or_false] at hd
    rcases hd with rfl | rfl
    · refine (hleft hvd).frame [] (⟨.plus, a⟩ :: w) (by simp) (by simp)
        (by simp [Kind.isMark]) fun us e y h hedit => ?_
      refine ⟨_, by simpa using Sum.add (a := a) h hop, ?_⟩
      exact .child (l := []) rfl rfl rfl rfl hedit
    · refine (hright hvd).frame (u ++ [⟨.plus, a⟩]) [] (by simp) (mark_concat _ rfl)
        (by simp) fun us e y h hedit => ?_
      refine ⟨_, by simpa using Sum.add (a := a) hsum h, ?_⟩
      exact .child (l := [s]) rfl rfl rfl rfl hedit

theorem Operand.replaceable {o : Bool} {i j : Nat} {ts : List Token} {t : Term}
    (hx : v.head = .var x) :
    Operand o i ts t j → v.Within t → Replaceable (fun us u => Operand o i us u j) ts t v
  | .closed hpost, hv => (hpost.replaceable hx hv).mono fun _ _ h => .closed h
  | .arrow (a := a) (b := b) (c := c) (u := u) hps hbody, hv => by
    have hinner := hbody.replaceable hx
    obtain ⟨d, hd, hvd⟩ := hv.exists_child hx (by simp [Term.head])
    obtain rfl := List.mem_singleton.1 hd
    refine (hinner hvd).frame
      (⟨.leftParen, a⟩ :: u ++ [⟨.rightParen, b⟩] ++ [⟨.fatArrow, c⟩]) [] (by simp)
      (mark_concat _ rfl) (by simp) fun us e y h hedit => ?_
    refine ⟨_, by simpa using Operand.arrow (a := a) (b := b) (c := c) hps h, ?_⟩
    exact .child (l := []) rfl rfl rfl rfl hedit

theorem Postfix.replaceable {i j : Nat} {ts : List Token} {t : Term} (hx : v.head = .var x) :
    Postfix i ts t j → v.Within t → Replaceable (fun us u => Postfix i us u j) ts t v
  | .atom hatom, hv => (hatom.replaceable hx hv).mono fun _ _ h => .atom h
  | .call (a := a) (b := b) (u := u) (v := w) (f := f) hpost hargs, hv => by
    have hcallee := hpost.replaceable hx
    obtain ⟨d, hd, hvd⟩ := hv.exists_child hx (by simp [Term.head])
    rcases List.mem_cons.1 hd with rfl | hd
    · refine (hcallee hvd).frame [] (⟨.leftParen, a⟩ :: w ++ [⟨.rightParen, b⟩])
        (by simp) (by simp) (by simp [Kind.isMark]) fun us e y h hedit => ?_
      refine ⟨_, by simpa using Postfix.call (a := a) (b := b) h hargs, ?_⟩
      exact .child (l := []) rfl rfl rfl rfl hedit
    · obtain ⟨l, r, rfl, harg⟩ := hargs.replaceable hx d hd hvd
      refine harg.frame (u ++ [⟨.leftParen, a⟩]) [⟨.rightParen, b⟩] (by simp) (mark_concat _ rfl)
        (by simp [Kind.isMark]) fun us e y h hedit => ?_
      refine ⟨_, by simpa using Postfix.call (a := a) (b := b) hpost h, ?_⟩
      exact .child (l := f :: l) rfl rfl rfl rfl hedit

theorem Atom.replaceable {i j : Nat} {ts : List Token} {t : Term} (hx : v.head = .var x) :
    Atom i ts t j → v.Within t → Replaceable (fun us u => Atom i us u j) ts t v
  | .number, hv | .bool, hv => by
    obtain ⟨c, hc, -⟩ := hv.exists_child hx (by simp [Term.head])
    cases hc
  | .var, hv => by
    cases hv with
    | refl => exact Atom.var.replaceable_self hx
    | child hc => cases hc
  | .paren (a := a) (b := b) hexpr, hv => by
    cases hv with
    | refl => exact (Atom.paren hexpr).replaceable_self hx
    | child hc hvc =>
      rw [Term.children_withSpan] at hc
      refine (hexpr.replaceable hx (.child hc hvc)).frame [⟨.leftParen, a⟩] [⟨.rightParen, b⟩]
        (by simp) (by simp [Kind.isMark]) (by simp [Kind.isMark]) fun us e y h hedit => ?_
      exact ⟨_, .paren h, hedit.withSpan _⟩

theorem Args.replaceable {i j : Nat} {ts : List Token} {as : List Term} (hx : v.head = .var x) :
    Args i ts as j → ∀ t ∈ as, v.Within t →
      ∃ l r, as = l ++ t :: r ∧ Replaceable (fun us u => Args i us (l ++ u :: r) j) ts t v
  | .nil, t, ht, hv => by cases ht
  | .last hexpr, t, ht, hv => by
    have honly := hexpr.replaceable hx
    obtain rfl := List.mem_singleton.1 ht
    exact ⟨[], [], rfl, (honly hv).mono fun _ _ h => .last h⟩
  | .cons (a := a) (u := u) (v := w) (t := s) hexpr hargs, t, ht, hv => by
    have hfirst := hexpr.replaceable hx
    rcases List.mem_cons.1 ht with rfl | ht
    · refine ⟨[], _, rfl, (hfirst hv).frame [] (⟨.comma, a⟩ :: w) (by simp) (by simp)
        (by simp [Kind.isMark]) fun us e y h hedit => ?_⟩
      exact ⟨e, .cons h hargs, hedit⟩
    · obtain ⟨l, r, rfl, harg⟩ := hargs.replaceable hx t ht hv
      refine ⟨s :: l, r, rfl, harg.frame (u ++ [⟨.comma, a⟩]) [] (by simp) (mark_concat _ rfl)
        (by simp) fun us e y h hedit => ?_⟩
      exact ⟨e, by simpa using Args.cons (a := a) hexpr h, hedit⟩

end

/-- The tokens of a variable in a program may give way to any name. -/
theorem Statements.replaceable {i j : Nat} {ts : List Token} {t : Term} (h : Statements i ts t j)
    (hx : v.head = .var x) (hv : v.Within t) :
    Replaceable (fun us u => Statements i us u j) ts t v := by
  induction h with
  | last hexpr => exact (hexpr.replaceable hx hv).mono fun _ _ h => .last h
  | @seq i j k a u w b r hexpr hrest ih =>
    obtain ⟨d, hd, hvd⟩ := hv.exists_child hx (by simp [Term.head])
    simp only [Term.children, List.mem_cons, List.not_mem_nil, or_false] at hd
    rcases hd with rfl | rfl
    · refine (hexpr.replaceable hx hvd).frame [] (⟨.semicolon, a⟩ :: w) (by simp) (by simp)
        (by simp [Kind.isMark]) fun us e y h hedit => ?_
      refine ⟨_, by simpa using Statements.seq (a := a) h hrest, ?_⟩
      exact .child (l := []) rfl rfl rfl rfl hedit
    · refine (ih hvd).frame (u ++ [⟨.semicolon, a⟩]) [] (by simp) (mark_concat _ rfl) (by simp)
        fun us e y h hedit => ?_
      refine ⟨_, by simpa using Statements.seq (a := a) hexpr h, ?_⟩
      exact .child (l := [b]) rfl rfl rfl rfl hedit
  | @const i j k a b c d u w z s r hexpr hrest ih =>
    obtain ⟨e, he, hve⟩ := hv.exists_child hx (by simp [Term.head])
    simp only [Term.children, List.mem_cons, List.not_mem_nil, or_false] at he
    rcases he with rfl | rfl
    · refine (hexpr.replaceable hx hve).frame
        ([⟨.const, a⟩, ⟨.ident z, b⟩] ++ [⟨.equals, c⟩]) (⟨.semicolon, d⟩ :: w) (by simp)
        (mark_concat _ rfl) (by simp [Kind.isMark]) fun us e y h hedit => ?_
      refine ⟨_, by simpa using Statements.const (a := a) (b := b) (c := c) (d := d) h hrest, ?_⟩
      exact .child (l := []) rfl rfl rfl rfl hedit
    · refine (ih hve).frame (⟨.const, a⟩ :: ⟨.ident z, b⟩ :: ⟨.equals, c⟩ :: u ++ [⟨.semicolon, d⟩])
        [] (by simp) (mark_concat _ rfl) (by simp) fun us e y h hedit => ?_
      refine ⟨_, by simpa using Statements.const (a := a) (b := b) (c := c) (d := d) hexpr h, ?_⟩
      exact .child (l := [s]) rfl rfl rfl rfl hedit

end

end Written

end ArrowLang
