import SchemaModel.Shell.Numeral

/-!
# Backslash escapes of printed text

A backslash and a letter stand for a control character, a backslash and up to three octal digits for
a byte, and where it is asked for so do a backslash, an `x` and up to two hexadecimal digits.  An
escaped `c` ends the text with all that was to follow.

* `Escape.bytes` — the bytes of a text with escapes.
-/

namespace SchemaModel.Shell.Escape

/-- What has been read of an escape: nothing, its backslash, or some digits with the number of
those that may follow. -/
inductive Pending where
  | none
  | backslash
  | octal (value left : Nat)
  | hex (value left : Nat)
deriving DecidableEq, Repr

/-- The byte that a backslash and a letter stand for. -/
def letter? : Char → Option UInt8
  | 'a' => some 0x07
  | 'b' => some 0x08
  | 'e' => some 0x1B
  | 'f' => some 0x0C
  | 'n' => some 0x0A
  | 'r' => some 0x0D
  | 't' => some 0x09
  | 'v' => some 0x0B
  | '\\' => some 0x5C
  | _ => none

/-- The bytes of a character that stands for itself. -/
def plain (c : Char) : List UInt8 := c.toString.toUTF8.toList

/-- What an escape that ends here stands for; one without digits stands for itself. -/
def Pending.bytes : Pending → List UInt8
  | .none => []
  | .backslash => [0x5C]
  | .octal value _ => [UInt8.ofNat value]
  | .hex value left => if left = 2 then [0x5C, 0x78] else [UInt8.ofNat value]

/-- The bytes of a text with escapes, and those that follow it unless it is cut.  The flag says
whether hexadecimal digits are read. -/
def bytesFrom (hex : Bool) (tail : List UInt8) : Pending → List Char → List UInt8
  | p, [] => p.bytes ++ tail
  | p, c :: rest =>
    let fresh (_ : Unit) : List UInt8 :=
      if c = '\\' then bytesFrom hex tail .backslash rest
      else plain c ++ bytesFrom hex tail .none rest
    match p with
    | .none => fresh ()
    | .backslash =>
      if c = 'c' then []
      else if c = '0' then bytesFrom hex tail (.octal 0 3) rest
      else if c = 'x' ∧ hex then bytesFrom hex tail (.hex 0 2) rest
      else
        match letter? c, Numeral.digit? 8 c with
        | some b, _ => b :: bytesFrom hex tail .none rest
        | none, some d => bytesFrom hex tail (.octal d 2) rest
        | none, none => 0x5C :: (plain c ++ bytesFrom hex tail .none rest)
    | .octal value left =>
      match left, Numeral.digit? 8 c with
      | left + 1, some d => bytesFrom hex tail (.octal (8 * value + d) left) rest
      | _, _ => p.bytes ++ fresh ()
    | .hex value left =>
      match left, Numeral.digit? 16 c with
      | left + 1, some d => bytesFrom hex tail (.hex (16 * value + d) left) rest
      | _, _ => p.bytes ++ fresh ()

/-- The bytes of a text with escapes, and those that follow it unless it is cut. -/
def bytes (hex : Bool) (text : String) (tail : List UInt8) : List UInt8 :=
  bytesFrom hex tail .none text.toList

end SchemaModel.Shell.Escape
