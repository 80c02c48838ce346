import ArrowLang.Proofs.Json.Grammar

/-!
# Reading JSON

`read?` finds the value of every text of the grammar (`Item.read?_eq`). So no text has two values
(`Item.unique`).
-/

namespace ArrowLang

open scoped Computability

namespace Json

/-! ## The reader -/

def skip (t : Text) : Text := t.dropWhile isSpace

/-- The text after the next character that is no blank, if this is `c`. -/
def past? (c : Char) (t : Text) : Option Text :=
  match skip t with
  | [] => none
  | d :: rest => if d = c then some rest else none

def readHex (t : Text) : Option (Nat × Text) :=
  if 4 ≤ t.length then (hex? (t.take 4)).map fun n => (n, t.drop 4) else none

/-- One character between quotes. -/
def readLetter : Text → Option (Char × Text)
  | '\\' :: 'u' :: t => (readHex t).bind fun p =>
    if p.1.isValidChar then some (Char.ofNat p.1, p.2)
    else match p.2 with
      | '\\' :: 'u' :: t => (readHex t).bind fun q => (paired? p.1 q.1).map fun c => (c, q.2)
      | _ => none
  | '\\' :: e :: t => (escapes.lookup e).map fun c => (c, t)
  | c :: t => if 32 ≤ c.toNat then some (c, t) else none
  | [] => none

/-- Characters up to the closing quote. -/
def readChars : Nat → Text → Option (Text × Text)
  | 0, _ => none
  | _ + 1, '"' :: t => some ([], t)
  | n + 1, t => (readLetter t).bind fun p => (readChars n p.2).map fun q => (p.1 :: q.1, q.2)

def isNumberChar (c : Char) : Bool :=
  c.isDigit || Numeral.isSign c || c == '.' || c == 'e' || c == 'E'

def words : List (Text × Value) :=
  [(['n', 'u', 'l', 'l'], .null), (['t', 'r', 'u', 'e'], .bool true),
    (['f', 'a', 'l', 's', 'e'], .bool false)]

/-- A number or a word. -/
def readAtom (t : Text) : Option (Value × Text) :=
  match t.takeWhile isNumberChar with
  | [] => (words.find? fun p => p.1.isPrefixOf t).map fun p => (p.2, t.drop p.1.length)
  | ds => some (.number ds, t.dropWhile isNumberChar)

section Many

variable {α : Type} (read : Text → Option (α × Text)) (close : Char)

/-- One or more members, with commas between them, and what closes them. -/
def readMany : Nat → Text → Option (List α × Text)
  | 0, _ => none
  | n + 1, t => (read t).bind fun p =>
    match past? ',' p.2 with
    | some rest => (readMany n rest).map fun q => (p.1 :: q.1, q.2)
    | none => (past? close p.2).map fun rest => ([p.1], rest)

def readList (n : Nat) (t : Text) : Option (List α × Text) :=
  -- no member starts like what closes the list, so the order of the two does not matter
  (readMany read close n t).or ((past? close t).map fun rest => ([], rest))

end Many

def readField (n : Nat) (read : Text → Option (Value × Text)) (t : Text) :
    Option ((String × Value) × Text) :=
  (past? '"' t).bind fun t => (readChars n t).bind fun key => (past? ':' key.2).bind fun t =>
    (read t).map fun p => ((String.ofList key.1, p.1), p.2)

/-- A value, with the blanks before it, and the text after it. -/
def readValue : Nat → Text → Option (Value × Text)
  | 0, _ => none
  | n + 1, t =>
    match skip t with
    | '"' :: t => (readChars n t).map fun p => (.str (String.ofList p.1), p.2)
    | '[' :: t => (readList (readValue n) ']' n t).map fun p => (.arr p.1, p.2)
    | '\x7b' :: t =>
      (readList (readField n (readValue n)) '\x7d' n t).map fun p => (.obj p.1, p.2)
    | t => readAtom t

def read? (t : Text) : Option Value :=
  (readValue (t.length + 1) t).bind fun p => if (skip p.2).isEmpty then some p.1 else none

/-! ## Blanks -/

section Blanks

variable {w t : Text} {c d : Char}

theorem skip_append (hw : Spaces w) (t : Text) : skip (w ++ t) = skip t :=
  List.dropWhile_append_of_pos hw

theorem skip_cons (hc : isSpace c = false) : skip (c :: t) = c :: t := by simp [skip, hc]

theorem past?_self (hw : Spaces w) (hc : isSpace c = false) : past? c (w ++ c :: t) = some t := by
  rw [past?, skip_append hw, skip_cons hc]
  exact if_pos rfl

theorem past?_of_ne (hw : Spaces w) (hd : isSpace d = false) (h : d ≠ c) :
    past? c (w ++ d :: t) = none := by
  rw [past?, skip_append hw, skip_cons hd]
  exact if_neg h

end Blanks

/-! ## Characters -/

theorem readHex_append {ds : Text} {n : Nat} (hlength : ds.length = 4) (h : hex? ds = some n)
    (t : Text) : readHex (ds ++ t) = some (n, t) := by
  have hle : 4 ≤ (ds ++ t).length := by
    rw [List.length_append]
    omega
  rw [readHex, if_pos hle, ← hlength, List.take_left, List.drop_left, h, Option.map_some]

theorem Letter.readLetter_eq {c : Char} {x : Text} (h : Letter c x) (t : Text) :
    readLetter (x ++ t) = some (c, t) := by
  cases h with
  | plain hquote hslash hcontrol => simp [readLetter, hslash, hcontrol]
  | escape hmem =>
    simp only [escapes, List.mem_cons, Prod.mk.injEq, List.not_mem_nil, or_false] at hmem
    rcases hmem with h | h | h | h | h | h | h | h <;> obtain ⟨rfl, rfl⟩ := h <;> rfl
  | hex hlength hhex =>
    have hvalid : c.toNat.isValidChar := c.valid
    simp [readLetter, readHex_append hlength hhex, hvalid]
  | pair hlength hhex hlength' hhex' hpair =>
    rename_i ds ds' high low
    -- the first surrogate is no character, so the reader goes on to the second one
    have hvalid : ¬ high.isValidChar := by
      unfold paired? at hpair
      unfold Nat.isValidChar
      grind
    simp [readLetter, readHex_append hlength hhex, readHex_append hlength' hhex', hvalid, hpair]

theorem Letter.exists_cons {c : Char} {x : Text} (h : Letter c x) :
    ∃ d y, x = d :: y ∧ d ≠ '"' := by
  cases h with
  | plain hquote => exact ⟨c, [], rfl, hquote⟩
  | escape | hex | pair => exact ⟨'\\', _, rfl, by decide⟩

theorem Chars.readChars_eq {cs x : Text} (h : Chars cs x) {n : Nat} (hn : x.length < n)
    (t : Text) : readChars n (x ++ '"' :: t) = some (cs, t) := by
  induction h generalizing n with
  | nil =>
    obtain ⟨n, rfl⟩ := Nat.exists_eq_add_one.2 (Nat.zero_lt_of_lt hn)
    rfl
  | cons hletter hchars ih =>
    rename_i c cs x y
    obtain ⟨n, rfl⟩ := Nat.exists_eq_add_one.2 (Nat.zero_lt_of_lt hn)
    obtain ⟨d, z, rfl, hd⟩ := hletter.exists_cons
    have hy : y.length < n := by
      simp only [List.length_append, List.length_cons] at hn
      omega
    rw [List.append_assoc, List.cons_append, readChars]
    · rw [← List.cons_append, hletter.readLetter_eq]
      simp [ih hy]
    · simpa using hd

/-! ## Numbers and words -/

theorem isNumberChar_of_isSpace {c : Char} (h : isSpace c = true) : isNumberChar c = false := by
  simp only [isSpace, Bool.or_eq_true, beq_iff_eq] at h
  rcases h with ((rfl | rfl) | rfl) | rfl <;> rfl

/-- No character at the start of the text could go on with a number. -/
def Ends (t : Text) : Prop := ∀ c ∈ t.head?, isNumberChar c = false

/-- The words of the language are made of such characters only. -/
def Over (q : Char → Bool) (L : Language Char) : Prop := ∀ x ∈ L, ∀ c ∈ x, q c = true

section Over

variable {p q : Char → Bool} {K L : Language Char}

theorem over_charIn (hpq : ∀ c, p c = true → q c = true) : Over q (charIn p) := by
  rintro x ⟨c, hc, rfl⟩
  simpa using hpq c hc

theorem over_kstar (hpq : ∀ c, p c = true → q c = true) : Over q (charIn p)∗ := by
  intro x hx c hc
  exact hpq c (mem_charIn_kstar.1 hx c hc)

theorem Over.add (hK : Over q K) (hL : Over q L) : Over q (K + L) := by
  rintro x (hx | hx)
  · exact hK x hx
  · exact hL x hx

theorem Over.mul (hK : Over q K) (hL : Over q L) : Over q (K * L) := by
  rintro x ⟨y, hy, z, hz, rfl⟩ c hc
  rcases List.mem_append.1 hc with hc | hc
  · exact hK y hy c hc
  · exact hL z hz c hc

theorem Over.optional (hL : Over q L) : Over q (1 + L) := by
  rintro x (rfl | hx)
  · simp
  · exact hL x hx

end Over

theorem over_numbers : Over isNumberChar numbers := by
  have hdigit (c : Char) (hc : c.isDigit = true) : isNumberChar c = true := by
    simp [isNumberChar, hc]
  have hdigits : Over isNumberChar digits := (over_charIn hdigit).mul (over_kstar hdigit)
  have hmark {d : Char} (hd : isNumberChar d = true) : Over isNumberChar (charIn (· == d)) := by
    apply over_charIn
    intro c hc
    rwa [beq_iff_eq.1 hc]
  have hwhole : Over isNumberChar wholes := by
    refine (hmark rfl).add ((over_charIn ?_).mul (over_kstar hdigit))
    intro c hc
    exact hdigit c (Bool.and_eq_true_iff.1 hc).1
  have hexponent : Over isNumberChar Numeral.exponents := by
    refine (over_charIn ?_).mul ((over_charIn ?_).optional.mul hdigits)
    · intro c hc
      rcases Bool.or_eq_true_iff.1 hc with h | h <;> simp [isNumberChar, h]
    · intro c hc
      simp [isNumberChar, hc]
  exact (hmark rfl).optional.mul
    (hwhole.mul (((hmark rfl).mul hdigits).optional.mul hexponent.optional))

theorem exists_cons_of_mem_numbers {x : Text} (h : x ∈ numbers) : ∃ c y, x = c :: y := by
  obtain ⟨s, -, z, ⟨y, hy, f, -, rfl⟩, rfl⟩ := h
  have hne : y ≠ [] := by
    rcases hy with ⟨c, -, rfl⟩ | hy
    · simp
    · obtain ⟨c, y, -, -, rfl⟩ := mem_charIn_mul.1 hy
      simp
  exact List.exists_cons_of_ne_nil (by simp [hne])

theorem readAtom_word {x : Text} {v : Value} (h : (x, v) ∈ words) (t : Text) :
    readAtom (x ++ t) = some (v, t) := by
  simp only [words, List.mem_cons, Prod.mk.injEq, List.not_mem_nil, or_false] at h
  rcases h with ⟨rfl, rfl⟩ | ⟨rfl, rfl⟩ | ⟨rfl, rfl⟩ <;>
    simp [readAtom, words, isNumberChar, Numeral.isSign]

theorem readAtom_number {x t : Text} (hx : x ∈ numbers) (ht : Ends t) :
    readAtom (x ++ t) = some (.number x, t) := by
  have hchars := over_numbers x hx
  have hends : t.takeWhile isNumberChar = [] ∧ t.dropWhile isNumberChar = t := by
    cases t with
    | nil => exact ⟨rfl, rfl⟩
    | cons c t => simp [ht c rfl]
  obtain ⟨c, y, rfl⟩ := exists_cons_of_mem_numbers hx
  rw [readAtom, List.takeWhile_append_of_pos hchars, List.dropWhile_append_of_pos hchars, hends.1,
    hends.2, List.append_nil]

/-! ## Members -/

section Members

variable {α : Type} {read : Text → Option (α × Text)} {a : α} {as : List α} {x y t : Text}
  {close : Char} {n : Nat}

/-- The text `x` is read as `a`, and blanks at its end may be left. -/
def Reads (read : Text → Option (α × Text)) (a : α) (x : Text) : Prop :=
  ∀ t, Ends t → ∃ w, Spaces w ∧ read (x ++ t) = some (a, w ++ t)

theorem ends_cons {c : Char} (hc : isNumberChar c = false) (t : Text) : Ends (c :: t) := by
  simpa [Ends] using hc

theorem Ends.append_spaces {w : Text} (ht : Ends t) (hw : Spaces w) : Ends (w ++ t) := by
  cases w with
  | nil => exact ht
  | cons c w =>
    exact ends_cons (isNumberChar_of_isSpace (hw c (List.mem_cons_self ..))) _

theorem Reads.readField {key : String} {v : Value} {read : Text → Option (Value × Text)}
    {w k w' : Text} (h : Reads read v x) (hw : Spaces w) (hkey : Chars key.toList k)
    (hn : k.length < n) (hw' : Spaces w') :
    Reads (readField n read) (key, v) (w ++ '"' :: (k ++ '"' :: (w' ++ ':' :: x))) := by
  intro t ht
  obtain ⟨u, hu, hread⟩ := h t ht
  refine ⟨u, hu, ?_⟩
  have hquote : past? '"' (w ++ '"' :: (k ++ '"' :: (w' ++ ':' :: (x ++ t)))) =
      some (k ++ '"' :: (w' ++ ':' :: (x ++ t))) := past?_self hw rfl
  have hcolon : past? ':' (w' ++ ':' :: (x ++ t)) = some (x ++ t) := past?_self hw' rfl
  simp [Json.readField, hquote, hkey.readChars_eq hn, hcolon, hread]

theorem Reads.readMany_one (h : Reads read a x) (hclose : close = ']' ∨ close = '\x7d') :
    readMany read close (n + 1) (x ++ close :: t) = some ([a], t) := by
  obtain ⟨hspace, hcomma, hnumber⟩ :
      isSpace close = false ∧ close ≠ ',' ∧ isNumberChar close = false := by
    rcases hclose with rfl | rfl <;> decide
  obtain ⟨w, hw, hread⟩ := h _ (ends_cons hnumber t)
  rw [readMany, hread, Option.bind_some, past?_of_ne hw hspace hcomma, past?_self hw hspace,
    Option.map_some]

theorem Reads.readMany_cons (h : Reads read a x)
    (hmany : readMany read close n (y ++ close :: t) = some (as, t)) :
    readMany read close (n + 1) (x ++ ',' :: y ++ close :: t) = some (a :: as, t) := by
  obtain ⟨w, hw, hread⟩ := h (',' :: (y ++ close :: t)) (ends_cons rfl _)
  have hpast : past? ',' (w ++ ',' :: (y ++ close :: t)) = some (y ++ close :: t) :=
    past?_self hw rfl
  rw [List.append_assoc, List.cons_append, readMany, hread]
  simp only [Option.bind_some, hpast, hmany, Option.map_some]

end Members

/-! ## Values -/

section Values

variable {n : Nat} {w t : Text}

theorem readValue_cons {c : Char} {u : Text} (hw : Spaces w) (hspace : isSpace c = false)
    (hc : c ∉ ['"', '[', '\x7b']) : readValue (n + 1) (w ++ c :: u) = readAtom (c :: u) := by
  simp only [List.mem_cons, List.not_mem_nil, or_false, not_or] at hc
  simp [readValue, skip_append hw, skip_cons hspace, hc]

theorem readValue_word {x : Text} {v : Value} (hw : Spaces w) (h : (x, v) ∈ words) :
    readValue (n + 1) (w ++ (x ++ t)) = some (v, t) := by
  have hstart : ∃ c y, x = c :: y ∧ isSpace c = false ∧ c ∉ ['"', '[', '\x7b'] := by
    simp only [words, List.mem_cons, Prod.mk.injEq, List.not_mem_nil, or_false] at h
    rcases h with ⟨rfl, rfl⟩ | ⟨rfl, rfl⟩ | ⟨rfl, rfl⟩ <;> exact ⟨_, _, rfl, rfl, by decide⟩
  obtain ⟨c, y, rfl, hspace, hopen⟩ := hstart
  exact (readValue_cons hw hspace hopen).trans (readAtom_word h t)

theorem readValue_number {x : Text} (hw : Spaces w) (hx : x ∈ numbers) (ht : Ends t) :
    readValue (n + 1) (w ++ (x ++ t)) = some (.number x, t) := by
  have hchars := over_numbers x hx
  obtain ⟨c, y, rfl⟩ := exists_cons_of_mem_numbers hx
  have hc : isNumberChar c = true := hchars c (List.mem_cons_self ..)
  have hspace : isSpace c = false := by
    by_contra hspace
    rw [isNumberChar_of_isSpace (Bool.not_eq_false _ ▸ hspace)] at hc
    cases hc
  have hopen : c ∉ ['"', '[', '\x7b'] := by
    simp only [List.mem_cons, List.not_mem_nil, or_false]
    rintro (rfl | rfl | rfl) <;> cases hc
  rw [List.cons_append, readValue_cons hw hspace hopen, ← List.cons_append, readAtom_number hx ht]

theorem readValue_str {s : String} {x : Text} (hw : Spaces w) (h : Chars s.toList x)
    (hn : x.length < n) : readValue (n + 1) (w ++ '"' :: (x ++ '"' :: t)) = some (.str s, t) := by
  simp [readValue, skip_append hw, skip_cons (c := '"') rfl, h.readChars_eq hn]

theorem readValue_arr {u : Text} {vs : List Value} (hw : Spaces w)
    (h : readList (readValue n) ']' n u = some (vs, t)) :
    readValue (n + 1) (w ++ '[' :: u) = some (.arr vs, t) := by
  simp [readValue, skip_append hw, skip_cons (c := '[') rfl, h]

theorem readValue_obj {u : Text} {fs : List (String × Value)} (hw : Spaces w)
    (h : readList (readField n (readValue n)) '\x7d' n u = some (fs, t)) :
    readValue (n + 1) (w ++ '\x7b' :: u) = some (.obj fs, t) := by
  simp [readValue, skip_append hw, skip_cons (c := '\x7b') rfl, h]

theorem readValue_close (hw : Spaces w) : readValue n (w ++ ']' :: t) = none := by
  cases n with
  | zero => rfl
  | succ n => exact readValue_cons hw rfl (by decide)

theorem readField_close {read : Text → Option (Value × Text)} (hw : Spaces w) :
    readField n read (w ++ '\x7d' :: t) = none := by
  rw [readField, past?_of_ne hw rfl (by decide), Option.bind_none]

theorem readList_nil {α : Type} {read : Text → Option (α × Text)} {close : Char} (hw : Spaces w)
    (hclose : isSpace close = false) (hread : read (w ++ close :: t) = none) :
    readList read close n (w ++ close :: t) = some ([], t) := by
  have hmany : readMany read close n (w ++ close :: t) = none := by
    cases n with
    | zero => rfl
    | succ n => rw [readMany, hread, Option.bind_none]
  rw [readList, hmany, past?_self hw hclose]
  rfl

theorem Items.readList_eq {vs : List Value} {x : Text} (h : Items vs x)
    (hmany : vs ≠ [] → readMany (readValue n) ']' n (x ++ ']' :: t) = some (vs, t)) :
    readList (readValue n) ']' n (x ++ ']' :: t) = some (vs, t) := by
  cases h with
  | nil hw => exact readList_nil hw rfl (readValue_close hw)
  | one | cons => rw [readList, hmany (by simp), Option.some_or]

theorem Fields.readList_eq {fs : List (String × Value)} {x : Text} (h : Fields fs x)
    (hmany : fs ≠ [] → readMany (readField n (readValue n)) '\x7d' n (x ++ '\x7d' :: t) =
      some (fs, t)) :
    readList (readField n (readValue n)) '\x7d' n (x ++ '\x7d' :: t) = some (fs, t) := by
  cases h with
  | nil hw => exact readList_nil hw rfl (readField_close hw)
  | one | cons => rw [readList, hmany (by simp), Option.some_or]

mutual

/-- A written value is read, with the blanks before it, if its end can be seen. -/
theorem Written.readValue_eq {v : Value} {x : Text} {n : Nat} {w t : Text} :
    Written v x → x.length ≤ n → Spaces w → Ends t → readValue (n + 1) (w ++ (x ++ t)) = some (v, t)
  | .null, _, hw, _ => readValue_word hw (by simp [words])
  | .bool (b := b), _, hw, _ => readValue_word hw (by cases b <;> simp [words])
  | .number hx, _, hw, ht => readValue_number hw hx ht
  | .str hchars, hn, hw, _ => by
    simp only [List.length_cons, List.length_append] at hn
    simpa using readValue_str hw hchars (by omega)
  | .arr (x := y) hitems, hn, hw, _ => by
    have hy : y.length < n := by
      simp only [List.length_cons, List.length_append] at hn
      omega
    simpa using readValue_arr hw (hitems.readList_eq fun h => hitems.readMany_eq h hy hy)
  | .obj (x := y) hfields, hn, hw, _ => by
    have hy : y.length < n := by
      simp only [List.length_cons, List.length_append] at hn
      omega
    simpa using readValue_obj hw (hfields.readList_eq fun h => hfields.readMany_eq h hy hy)

theorem Item.reads {v : Value} {x : Text} {n : Nat} :
    Item v x → x.length < n → Reads (readValue n) v x
  | .mk hw hv hw', hn => by
    obtain ⟨n, rfl⟩ := Nat.exists_eq_add_one.2 (Nat.zero_lt_of_lt hn)
    simp only [List.length_append] at hn
    intro t ht
    refine ⟨_, hw', ?_⟩
    simpa using hv.readValue_eq (by omega) hw (ht.append_spaces hw')

theorem Items.readMany_eq {vs : List Value} {x : Text} {n m : Nat} {t : Text} :
    Items vs x → vs ≠ [] → x.length < n → x.length < m →
      readMany (readValue n) ']' m (x ++ ']' :: t) = some (vs, t)
  | .nil _, hne, _, _ => absurd rfl hne
  | .one hitem, _, hn, hm => by
    obtain ⟨m, rfl⟩ := Nat.exists_eq_add_one.2 (Nat.zero_lt_of_lt hm)
    exact (hitem.reads hn).readMany_one (.inl rfl)
  | .cons hitem hitems, _, hn, hm => by
    obtain ⟨m, rfl⟩ := Nat.exists_eq_add_one.2 (Nat.zero_lt_of_lt hm)
    simp only [List.length_append, List.length_cons] at hn hm
    exact (hitem.reads (by omega)).readMany_cons
      (hitems.readMany_eq (by simp) (by omega) (by omega))

theorem Field.reads {f : String × Value} {x : Text} {n : Nat} :
    Field f x → x.length < n → Reads (readField n (readValue n)) f x
  | .mk hw hkey hw' hitem, hn => by
    simp only [List.length_append, List.length_cons] at hn
    exact (hitem.reads (by omega)).readField hw hkey (by omega) hw'

theorem Fields.readMany_eq {fs : List (String × Value)} {x : Text} {n m : Nat} {t : Text} :
    Fields fs x → fs ≠ [] → x.length < n → x.length < m →
      readMany (readField n (readValue n)) '\x7d' m (x ++ '\x7d' :: t) = some (fs, t)
  | .nil _, hne, _, _ => absurd rfl hne
  | .one hfield, _, hn, hm => by
    obtain ⟨m, rfl⟩ := Nat.exists_eq_add_one.2 (Nat.zero_lt_of_lt hm)
    exact (hfield.reads hn).readMany_one (.inr rfl)
  | .cons hfield hfields, _, hn, hm => by
    obtain ⟨m, rfl⟩ := Nat.exists_eq_add_one.2 (Nat.zero_lt_of_lt hm)
    simp only [List.length_append, List.length_cons] at hn hm
    exact (hfield.reads (by omega)).readMany_cons
      (hfields.readMany_eq (by simp) (by omega) (by omega))

end

/-- The reader finds the value that the grammar gives to a text. -/
theorem Item.read?_eq {v : Value} {t : Text} (h : Item v t) : read? t = some v := by
  have hends : Ends [] := by
    intro c hc
    cases hc
  obtain ⟨w, hw, hread⟩ := h.reads (Nat.lt_add_one t.length) [] hends
  have hskip : skip (w ++ []) = [] := skip_append hw []
  rw [List.append_nil] at hread
  rw [read?, hread, Option.bind_some, hskip]
  rfl

theorem Item.unique {v v' : Value} {t : Text} (h : Item v t) (h' : Item v' t) : v = v' :=
  Option.some.inj (h.read?_eq.symm.trans h'.read?_eq)

end Values

end Json

end ArrowLang
