/-!
# The text of any bytes

Bytes that are no text are read as one all the same: every part that cannot belong to a character
is shown by the replacement character.  Such a part is the longest start of a character that the
bytes hold, or else a single byte.

* `Text.Awaited` — a character that has begun;
* `Text.lossyChars` — the characters of bytes;
* `Text.lossy` — the text of bytes.
-/

namespace SchemaModel.Text

/-- What stands for a part that cannot be read. -/
def replacement : Char := '\uFFFD'

/-- A character that has begun: the bits so far, the number of bytes to come, and the least and the
greatest value of the next one. -/
structure Awaited where
  bits : Nat
  left : Nat
  least : Nat := 0x80
  greatest : Nat := 0xBF
deriving DecidableEq, Repr

/-- What a byte between two characters is. -/
inductive Lead where
  | whole (c : Char)
  | start (a : Awaited)
  | malformed
deriving DecidableEq, Repr

/-- What a byte between two characters is.  The narrower ranges leave out overlong spellings,
surrogates and what lies above the last code point. -/
def Lead.ofByte (b : Nat) : Lead :=
  if b < 0x80 then .whole (Char.ofNat b)
  else if b < 0xC2 then .malformed
  else if b < 0xE0 then .start ⟨b - 0xC0, 1, 0x80, 0xBF⟩
  else if b = 0xE0 then .start ⟨0, 2, 0xA0, 0xBF⟩
  else if b = 0xED then .start ⟨0xD, 2, 0x80, 0x9F⟩
  else if b < 0xF0 then .start ⟨b - 0xE0, 2, 0x80, 0xBF⟩
  else if b = 0xF0 then .start ⟨0, 3, 0x90, 0xBF⟩
  else if b < 0xF4 then .start ⟨b - 0xF0, 3, 0x80, 0xBF⟩
  else if b = 0xF4 then .start ⟨4, 3, 0x80, 0x8F⟩
  else .malformed

/-- The characters of bytes that follow the start of a character, if there is one. -/
def lossyChars : Option Awaited → List UInt8 → List Char
  | none, [] => []
  | some _, [] => [replacement]
  | awaited, byte :: rest =>
    let b := byte.toNat
    let fresh (_ : Unit) : List Char :=
      match Lead.ofByte b with
      | .whole c => c :: lossyChars none rest
      | .start a => lossyChars (some a) rest
      | .malformed => replacement :: lossyChars none rest
    match awaited with
    | none => fresh ()
    | some a =>
      if a.least ≤ b ∧ b ≤ a.greatest then
        let bits := a.bits * 0x40 + (b - 0x80)
        if a.left = 1 then Char.ofNat bits :: lossyChars none rest
        else lossyChars (some { bits, left := a.left - 1 }) rest
      else replacement :: fresh ()

/-- The text of bytes. -/
def lossy (bytes : ByteArray) : String :=
  match String.fromUTF8? bytes with
  | some text => text
  | none => String.ofList (lossyChars none bytes.toList)

end SchemaModel.Text
