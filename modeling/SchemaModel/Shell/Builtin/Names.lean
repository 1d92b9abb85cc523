import SchemaModel.Shell.Builtin.Basic
import SchemaModel.Shell.Program

/-!
# What names stand for

* `Builtin.setAliases`, `Builtin.dropAliases` — names that stand for texts;
* `Builtin.describe` — tells what a name stands for;
* `Builtin.hash` — the programs whose places are known.
-/

namespace SchemaModel.Shell.Builtin

/-! ### Order of listings -/

/-- The place of a name in a table of some size, by its bytes. -/
def bucket (size : Nat) (name : String) : Nat :=
  let bytes := name.toUTF8.toList.map (·.toNat)
  (bytes.foldl (· + ·) (16 * bytes.headD 0)) % size

/-- Entries, of which the one that was added first comes last, in the order of a table. -/
def inTableOrder (size : Nat) (name : α → String) (entries : List α) : List α :=
  entries.reverse.mergeSort fun a b => decide (bucket size (name a) ≤ bucket size (name b))

/-! ### Aliases -/

/-- An alias as it is listed. -/
def aliasLine (a : String × String) : String := a.1 ++ "=" ++ readable a.2 ++ "\n"

/-- What an argument asks for aliases: to set one, which keeps its place, or to show one. -/
def aliasOne (s : Session) (argument : String) : Session :=
  match argument.toList with
  | [] => done (s.send Session.errors "alias:  not found\n".toUTF8) 1
  | c :: rest =>
    let name := String.ofList (c :: rest.takeWhile (· ≠ '='))
    if name.length < argument.length then
      let text := String.ofList (argument.toList.drop (name.length + 1))
      if s.aliases.any (·.1 = name) then
        { s with aliases := s.aliases.map fun a => if a.1 = name then (name, text) else a }
      else { s with aliases := (name, text) :: s.aliases }
    else
      match s.aliases.lookup name with
      | some text => s.print (aliasLine (name, text))
      | none => done (s.send Session.errors ("alias: " ++ name ++ " not found\n").toUTF8) 1

/-- Sets and shows aliases, or lists them. -/
def setAliases : Builtin := fun arguments s =>
  if arguments.isEmpty then
    printedText (String.join ((inTableOrder 39 (·.1) s.aliases).map aliasLine)) s
  else arguments.foldl aliasOne (done s 0)

/-- Drops an alias. -/
def unaliasOne (s : Session) (name : String) : Session :=
  if s.aliases.any (·.1 = name) then { s with aliases := s.aliases.filter (·.1 ≠ name) }
  else done (s.send Session.errors ("unalias: " ++ name ++ " not found\n").toUTF8) 1

/-- Drops aliases, or all of them as soon as that is asked for. -/
def dropAliases : Builtin :=
  switched 'a' (fun s => done { s with aliases := [] } 0) fun names s =>
    names.foldl unaliasOne (done s 0)

/-! ### Programs -/

/-- The path of a program that is looked for among some directories. -/
def pathOf? (s : Session) (path name : String) : Option String :=
  if name.toList.contains '/' then
    if (Program.ofPath? name).isSome ∨ s.tree.hasEntry name then some name else none
  else (Program.find s.tree path name).toOption.map (·.2)

/-- Notes that the place of a program is known. -/
def located (s : Session) (name : String) : Session :=
  if name.toList.contains '/' then s
  else if s.located.any (·.1 = name) then
    { s with located := s.located.map fun p => if p.1 = name then (name, true) else p }
  else { s with located := (name, true) :: s.located }

/-- Looks for programs, or lists those whose places are known.  A star marks those that have not
been looked for since the directory was changed.  A path needs no looking for. -/
def hash (isBuiltin : String → Bool) : Builtin := lettered "r" "" fun l s =>
  if l.has 'r' then done { s with located := [] } 0
  else if l.operands.isEmpty then
    let line (p : String × Bool) : Option String :=
      (pathOf? s s.path p.1).map (· ++ if p.2 then "\n" else "*\n")
    printedText (String.join ((inTableOrder 31 (·.1) s.located).filterMap line)) s
  else
    let one (s : Session) (name : String) : Session :=
      let isKnown := (s.functions.lookup name).isSome || isBuiltin name
      if isKnown ∨ name.toList.contains '/' then s
      else
        match pathOf? s s.path name with
        | some _ => located s name
        | none => done (s.complain (name ++ ": not found")) 1
    l.operands.foldl one (done s 0)

/-- Tells what a name stands for, in a few words or only so that it can be used.  The paths of
programs are looked for among the given directories, or else among those of the shell. -/
def describe (isBuiltin : String → Bool) (inWords : Bool) (path : Option String) (s : Session)
    (name : String) : Session :=
  let told (words short : String) : Session :=
    s.print ((if inWords then name ++ words else short) ++ "\n")
  if Token.reservedWords.contains name then told " is a shell keyword" name
  else
    match s.aliases.lookup name with
    | some text =>
      if inWords then told (" is an alias for " ++ text) ""
      else s.print ("alias " ++ aliasLine (name, text))
    | none =>
      if (s.functions.lookup name).isSome then told " is a shell function" name
      else if isBuiltin name then
        told (" is a " ++ (if isSpecial name then "special " else "") ++ "shell builtin") name
      else
        match pathOf? s (path.getD s.path) name with
        | some found =>
          let isTracked := path.isNone && s.located.any (·.1 = name)
          let how := if isTracked then " is a tracked alias for " else " is "
          let after := told (how ++ found) found
          if path.isSome ∨ isTracked then after else located after name
        | none => done (if inWords then s.print (name ++ ": not found\n") else s) 127

/-- Tells what names stand for. -/
def type (isBuiltin : String → Bool) : Builtin := fun arguments s =>
  arguments.foldl (describe isBuiltin true none) (done s 0)

/-- Tells what the first of some names stands for, as options of the command `command` ask. -/
def describeFirst (isBuiltin : String → Bool) : Builtin := lettered "pvV" "" fun l s =>
  match l.operands with
  | name :: _ =>
    if l.has 'v' ∨ l.has 'V' then
      let path := if l.has 'p' then some Session.usualPath else none
      describe isBuiltin (l.has 'V') path (done s 0) name
    else done s 0
  | [] => done s 0

end SchemaModel.Shell.Builtin
