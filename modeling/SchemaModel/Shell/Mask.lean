import SchemaModel.Shell.Numeral

/-!
# What new files are not allowed

A mask has nine bits: for the owner, the group and all others, whether a new file may not be read,
written and run.  It is given by octal digits, or by clauses that say what is allowed: whose
permissions, an operator, and permissions, some of which are copied from those before the change.

* `Mask.octal`, `Mask.symbolic` — a mask as it is shown;
* `Mask.ofText?` — the mask that a text asks for.
-/

namespace SchemaModel.Shell.Mask

/-- All bits. -/
def all : Nat := 511

/-- A mask by its octal digits. -/
def octal (mask : Nat) : String :=
  let digit (n : Nat) : Char := Nat.digitChar (n % 8)
  String.ofList ['0', digit (mask / 64), digit (mask / 8), digit mask]

/-- What a mask allows. -/
def symbolic (mask : Nat) : String :=
  let allowed (n : Nat) : String :=
    let bits := 7 - n % 8
    (if 4 ≤ bits then "r" else "") ++ (if 2 ≤ bits % 4 then "w" else "") ++
      if bits % 2 = 1 then "x" else ""
  "u=" ++ allowed (mask / 64) ++ ",g=" ++ allowed (mask / 8) ++ ",o=" ++ allowed mask

/-- The lowest bits of those whose permissions a letter is about. -/
def who? : Char → Option Nat
  | 'a' => some 73
  | 'u' => some 64
  | 'g' => some 8
  | 'o' => some 1
  | _ => none

/-- The permissions of one of the three that a letter asks for, given what was allowed before. -/
def permission? (before : Nat) : Char → Option Nat
  | 'r' => some 4
  | 'w' => some 2
  | 'x' => some 1
  | 'u' => some (before / 64 % 8)
  | 'g' => some (before / 8 % 8)
  | 'o' => some (before % 8)
  | 'X' => some (if Nat.land before 73 = 0 then 0 else 1)
  | 's' => some 0
  | _ => none

/-- The bits of some letters. -/
def bitsOf (meaning : Char → Option Nat) (letters : List Char) : Nat :=
  letters.foldl (fun bits c => Nat.lor bits ((meaning c).getD 0)) 0

/-- What is allowed after some clauses, given what was allowed before all of them; none if the text
is no list of clauses.  The last clause need not say what is to be done.  The number is more than
that of the characters. -/
def clauses? (before : Nat) : Nat → Nat → Nat → List Char → Option Nat
  | 0, _, _, _ => none
  | fuel + 1, allowed, subjects, text =>
    let apply (op : Char) (rest : List Char) : Option Nat :=
      let letters := rest.takeWhile fun c => (permission? before c).isSome
      let bits := subjects * bitsOf (permission? before) letters
      let kept := if op = '=' then Nat.land allowed (all - 7 * subjects) else allowed
      let allowed :=
        if op = '-' then Nat.land allowed (all - Nat.land bits all) else Nat.lor kept bits
      match rest.drop letters.length with
      | [] => some allowed
      | ',' :: rest =>
        let who := rest.takeWhile fun c => (who? c).isSome
        let subjects := if who.isEmpty then 73 else bitsOf who? who
        clauses? before fuel allowed subjects (rest.drop who.length)
      | rest => clauses? before fuel allowed subjects rest
    match text with
    | [] => some allowed
    | '+' :: rest => apply '+' rest
    | '-' :: rest => apply '-' rest
    | '=' :: rest => apply '=' rest
    | _ => none

/-- The mask that a text asks for, given the mask before. -/
def ofText? (mask : Nat) (text : String) : Except String Nat :=
  let cs := text.toList
  match cs with
  | [] => .ok mask
  | first :: _ =>
    if first.isDigit then
      if cs.all (Numeral.isDigit 8) then .ok (Numeral.value 8 cs % (all + 1))
      else .error (Numeral.fault text)
    else
      let before := all - mask
      let who := cs.takeWhile fun c => (who? c).isSome
      let subjects := if who.isEmpty then 73 else bitsOf who? who
      match clauses? before (cs.length + 1) before subjects (cs.drop who.length) with
      | some allowed => .ok (all - allowed)
      | none => .error ("Illegal mode: " ++ text)

end SchemaModel.Shell.Mask
