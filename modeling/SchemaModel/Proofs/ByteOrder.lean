import Mathlib

/-!
# The order of texts is that of their bytes

Texts are compared character by character.  In UTF-8 the comparison of their bytes gives the same
result: a character has a leading byte, which grows with the number of bytes that follow and then
with the character, and continuation bytes that are the digits of the character in base 64.

* `Text.continuation` — the continuation bytes of a character;
* `Text.utf8EncodeChar_append_lt` — a smaller character has smaller bytes, whatever follows;
* `Text.lt_iff_bytes_lt` — texts are ordered as their bytes are.
-/

namespace SchemaModel.Text

/-- The last digits of a number in base 64, as continuation bytes. -/
def continuation : Nat → Nat → List UInt8
  | 0, _ => []
  | k + 1, v => UInt8.ofNat (v / 64 ^ k % 64 + 128) :: continuation k v

/-- A number with smaller digits has smaller continuation bytes. -/
theorem continuation_append_lt {k v w : Nat} (h : v % 64 ^ k < w % 64 ^ k) (r r' : List UInt8) :
    continuation k v ++ r < continuation k w ++ r' := by
  induction k with
  | zero => simp [Nat.mod_one] at h
  | succ k ih =>
    have small : ∀ u, (u / 64 ^ k % 64 + 128) % 256 = u / 64 ^ k % 64 + 128 := by
      intro u
      omega
    rw [Nat.mod_pow_succ, Nat.mod_pow_succ] at h
    rw [continuation, continuation, List.cons_append, List.cons_append, List.cons_lt_cons_iff,
      UInt8.lt_iff_toNat_lt, ← UInt8.toNat_inj, UInt8.toNat_ofNat', UInt8.toNat_ofNat', small,
      small]
    rcases lt_trichotomy (v / 64 ^ k % 64) (w / 64 ^ k % 64) with below | same | above
    · left
      omega
    · right
      rw [same] at h ⊢
      exact ⟨rfl, ih (by omega)⟩
    · -- a greater leading digit outweighs the digits after it
      exfalso
      have weight : 64 ^ k * (w / 64 ^ k % 64 + 1) ≤ 64 ^ k * (v / 64 ^ k % 64) :=
        Nat.mul_le_mul_left _ above
      have tail : w % 64 ^ k < 64 ^ k := Nat.mod_lt _ (by positivity)
      rw [Nat.mul_add] at weight
      omega

/-- How many continuation bytes a character has. -/
def continuations (v : Nat) : Nat :=
  if v ≤ 127 then 0 else if v ≤ 2047 then 1 else if v ≤ 65535 then 2 else 3

/-- The leading byte of a character. -/
def leadingByte (v : Nat) : Nat :=
  if v ≤ 127 then v else if v ≤ 2047 then v / 64 + 192 else if v ≤ 65535 then v / 4096 + 224
  else v / 262144 + 240

theorem toNat_lt (c : Char) : c.toNat < 1114112 := by
  rcases c.valid with low | high
  · have : c.toNat < 55296 := low
    omega
  · exact high.2

theorem utf8EncodeChar_eq (c : Char) :
    String.utf8EncodeChar c =
      UInt8.ofNat (leadingByte c.toNat) :: continuation (continuations c.toNat) c.toNat := by
  have bound : c.val.toNat < 1114112 := toNat_lt c
  simp only [String.utf8EncodeChar, leadingByte, continuations, Char.toNat]
  split
  · rfl
  · split
    · rw [show c.val.toNat / 64 % 32 = c.val.toNat / 64 by omega]
      simp [continuation]
    · split
      · rw [show c.val.toNat / 4096 % 16 = c.val.toNat / 4096 by omega]
        simp [continuation]
      · rw [show c.val.toNat / 262144 % 8 = c.val.toNat / 262144 by omega]
        simp [continuation]

theorem leadingByte_lt {v : Nat} (h : v < 1114112) : leadingByte v < 256 := by
  unfold leadingByte
  split_ifs <;> omega

/-- Leading bytes do not decrease; equal ones belong to characters of one length that differ only in
the digits after them. -/
theorem leadingByte_lt_or_eq {v w : Nat} (h : v < w) :
    leadingByte v < leadingByte w ∨
      leadingByte v = leadingByte w ∧ continuations v = continuations w ∧
        v / 64 ^ continuations w = w / 64 ^ continuations w := by
  unfold leadingByte continuations
  split_ifs <;> omega

/-- A smaller character has smaller bytes, whatever follows. -/
theorem utf8EncodeChar_append_lt {c d : Char} (h : c < d) (r r' : List UInt8) :
    String.utf8EncodeChar c ++ r < String.utf8EncodeChar d ++ r' := by
  have below : c.toNat < d.toNat := h
  have first := leadingByte_lt (toNat_lt c)
  have second := leadingByte_lt (toNat_lt d)
  rw [utf8EncodeChar_eq, utf8EncodeChar_eq, List.cons_append, List.cons_append,
    List.cons_lt_cons_iff, UInt8.lt_iff_toNat_lt, UInt8.toNat_ofNat', UInt8.toNat_ofNat',
    Nat.mod_eq_of_lt first, Nat.mod_eq_of_lt second]
  rcases leadingByte_lt_or_eq below with less | ⟨lead, length, quotient⟩
  · exact .inl less
  · right
    rw [lead, length]
    refine ⟨rfl, continuation_append_lt ?_ r r'⟩
    have hc := Nat.div_add_mod c.toNat (64 ^ continuations d.toNat)
    have hd := Nat.div_add_mod d.toNat (64 ^ continuations d.toNat)
    rw [quotient] at hc
    omega

theorem bytes_eq_flatMap (s : String) :
    s.toUTF8.data.toList = s.toList.flatMap String.utf8EncodeChar := by
  show s.toByteArray.data.toList = _
  rw [← String.utf8Encode_toList, List.utf8Encode, List.data_toByteArray]

theorem bytes_lt_of_lt {cs ds : List Char} (h : cs < ds) :
    cs.flatMap String.utf8EncodeChar < ds.flatMap String.utf8EncodeChar := by
  induction h with
  | nil =>
    rw [List.flatMap_nil, List.flatMap_cons, utf8EncodeChar_eq]
    exact .nil
  | rel below => exact utf8EncodeChar_append_lt below _ _
  | cons _ ih => exact List.append_left_lt ih

/-- **Texts are ordered as their bytes are.** -/
theorem lt_iff_bytes_lt {s t : String} :
    s < t ↔ s.toUTF8.data.toList < t.toUTF8.data.toList := by
  rw [bytes_eq_flatMap, bytes_eq_flatMap, String.lt_iff_toList_lt]
  constructor
  · exact bytes_lt_of_lt
  · intro h
    rcases lt_trichotomy s.toList t.toList with below | same | above
    · exact below
    · rw [same] at h
      exact absurd h (List.lt_irrefl _)
    · exact absurd h (List.lt_asymm (bytes_lt_of_lt above))

end SchemaModel.Text
