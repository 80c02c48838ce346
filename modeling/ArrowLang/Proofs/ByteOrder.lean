import Mathlib.Data.String.Basic

/-!
# The order of bytes

Names are ordered by their characters. Their UTF-8 encodings, compared byte by byte, are in the same
order (`lt_iff_bytes`): of two characters the smaller one has the smaller byte at the first place
where their encodings differ, and neither encoding is the beginning of the other.
-/

namespace ArrowLang.Utf8

/-- The bytes of a character. -/
def encode (c : Char) : List Nat := (String.utf8EncodeChar c).map UInt8.toNat

/-- The bytes of a name. -/
def bytes (x : String) : List Nat := x.toUTF8.data.toList.map UInt8.toNat

theorem bytes_eq_flatMap (x : String) : bytes x = x.toList.flatMap encode := by
  have hbytes : x.toUTF8 = x.toList.utf8Encode := String.utf8Encode_toList.symm
  rw [bytes, hbytes, List.utf8Encode, List.toList_data_toByteArray, List.map_flatMap]
  rfl

/-! ## Encodings that differ at some place -/

/-- There is a first place where the lists differ, and the first one is smaller there. -/
inductive Below : List Nat → List Nat → Prop where
  | here {a b u v} : a < b → Below (a :: u) (b :: v)
  | later {a u v} : Below u v → Below (a :: u) (a :: v)

/-- Whatever comes after does not matter. -/
theorem Below.lex_append {u v : List Nat} (h : Below u v) (r s : List Nat) :
    List.Lex (· < ·) (u ++ r) (v ++ s) := by
  induction h with
  | here hab => exact .rel hab
  | later _ ih => exact .cons ih

/-- Lists are compared at their first items, and if these are equal at the rest. -/
theorem Below.step {a b : Nat} {u v : List Nat} (hle : a ≤ b) (h : a = b → Below u v) :
    Below (a :: u) (b :: v) := by
  rcases Nat.lt_or_eq_of_le hle with hlt | rfl
  · exact .here hlt
  · exact .later (h rfl)

/-- The four forms of an encoding. -/
theorem encode_eq (c : Char) :
    encode c =
      if c.toNat ≤ 127 then [c.toNat]
      else if c.toNat ≤ 2047 then [c.toNat / 64 % 32 + 192, c.toNat % 64 + 128]
      else if c.toNat ≤ 65535 then
        [c.toNat / 4096 % 16 + 224, c.toNat / 64 % 64 + 128, c.toNat % 64 + 128]
      else
        [c.toNat / 262144 % 8 + 240, c.toNat / 4096 % 64 + 128, c.toNat / 64 % 64 + 128,
          c.toNat % 64 + 128] := by
  have hbyte {n : Nat} (hn : n < 256) : (UInt8.ofNat n).toNat = n := UInt8.toNat_ofNat_of_lt' hn
  have hval : c.val.toNat = c.toNat := rfl
  rw [encode, String.utf8EncodeChar, hval]
  split
  · simp only [List.map_cons, List.map_nil]
    rw [hbyte (by omega)]
  · split
    · simp only [List.map_cons, List.map_nil]
      rw [hbyte (by omega), hbyte (by omega)]
    · split
      · simp only [List.map_cons, List.map_nil]
        rw [hbyte (by omega), hbyte (by omega), hbyte (by omega)]
      · simp only [List.map_cons, List.map_nil]
        rw [hbyte (by omega), hbyte (by omega), hbyte (by omega), hbyte (by omega)]

theorem encode_ne_nil (c : Char) : encode c ≠ [] := by
  rw [encode_eq]
  grind

theorem toNat_lt (c : Char) : c.toNat < 0x110000 := by
  have hvalid : c.toNat < 0xd800 ∨ 0xdfff < c.toNat ∧ c.toNat < 0x110000 := c.valid
  omega

/-- The encoding of the smaller character is below the other. -/
theorem below_encode {c d : Char} (h : c.toNat < d.toNat) : Below (encode c) (encode d) := by
  have hmax := toNat_lt d
  rw [encode_eq c]
  split
  · rw [encode_eq d]
    split_ifs <;> exact .here (by omega)
  · split
    · rw [encode_eq d, if_neg (by omega)]
      split_ifs
      · exact .step (by omega) fun _ => .here (by omega)
      all_goals exact .here (by omega)
    · split
      · rw [encode_eq d, if_neg (by omega), if_neg (by omega)]
        split_ifs
        · exact .step (by omega) fun _ => .step (by omega) fun _ => .here (by omega)
        · exact .here (by omega)
      · rw [encode_eq d, if_neg (by omega), if_neg (by omega), if_neg (by omega)]
        exact .step (by omega) fun _ => .step (by omega) fun _ => .step (by omega) fun _ =>
          .here (by omega)

/-! ## Names -/

theorem lex_flatMap_encode {l m : List Char} (h : List.Lex (· < ·) l m) :
    List.Lex (· < ·) (l.flatMap encode) (m.flatMap encode) := by
  induction h with
  | @nil c m =>
    obtain ⟨b, u, hb⟩ := List.exists_cons_of_ne_nil (encode_ne_nil c)
    rw [List.flatMap_cons, hb]
    exact .nil
  | rel hcd => exact (below_encode hcd).lex_append _ _
  | @cons c l m _ ih =>
    rw [List.flatMap_cons, List.flatMap_cons]
    exact List.append_left_lt ih

/-- Names are in the order of their bytes. -/
theorem lt_iff_bytes {x y : String} : x < y ↔ List.Lex (· < ·) (bytes x) (bytes y) := by
  have hmono {x y : String} (h : x < y) : List.Lex (· < ·) (bytes x) (bytes y) := by
    rw [bytes_eq_flatMap, bytes_eq_flatMap]
    exact lex_flatMap_encode (String.lt_iff_toList_lt.1 h)
  refine ⟨hmono, fun h => ?_⟩
  rcases lt_trichotomy x y with hxy | rfl | hyx
  · exact hxy
  · exact absurd h (List.lt_irrefl _)
  · exact absurd h (List.lt_asymm (hmono hyx))

end ArrowLang.Utf8
