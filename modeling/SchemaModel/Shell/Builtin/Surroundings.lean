import SchemaModel.Shell.Builtin.Basic
import SchemaModel.Shell.Mask

/-!
# The surroundings of a shell

* `Builtin.changeDirectory`, `Builtin.workingDirectory` — where the shell is;
* `Builtin.mask`, `Builtin.bounds`, `Builtin.times` — what a shell hands to programs, and its times.
-/

namespace SchemaModel.Shell.Builtin

/-! ### Directories -/

/-- The names that a path leads to, of which a step back takes the last one away. -/
def namesTo (s : Session) (path : String) : List String :=
  (FileTree.steps path).foldl (fun place step =>
    match step with
    | "." => place
    | ".." => place.dropLast
    | name => place ++ [name]) (s.tree.start path)

/-- The names that lead to the directory at a path.  A step back need not start at a directory
unless all steps are taken one by one. -/
def directoryAt? (s : Session) (isPhysical : Bool) (path : String) : Option (List String) :=
  let place := namesTo s path
  if isPhysical ∧ !s.tree.hasDirectory path then none
  else if (s.tree.root.find? place).any (·.isDirectory) then some place
  else none

/-- The paths that a directory may be found under, with whether the place is told. -/
def places (s : Session) (path : String) : List (String × Bool) :=
  let isFixed := PathName.isAbsolute path || ["", ".", ".."].contains path ||
    "./".toList.isPrefixOf path.toList || "../".toList.isPrefixOf path.toList
  match if isFixed then none else s.bindings.lookup "CDPATH" with
  | none => [(path, false)]
  | some list =>
    ((list.splitOn ":").map fun base =>
      if base.isEmpty then (path, false) else (PathName.join base path, true)) ++ [(path, false)]

/-- Goes to another working directory. -/
def moveTo (place : List String) : Session.Changing Unit := do
  let s ← get
  let located := s.located.map fun p => (p.1, false)
  MonadStateOf.set { s with tree := { s.tree with home := place }, located }
  let assign (name : String) (place : List String) : Session.Changing Unit := do
    Session.change (·.assign name (Session.pathOf place))
    modify (·.handOn name)
  assign "OLDPWD" s.tree.home
  assign "PWD" place

/-- Changes the working directory, by default to the home directory. -/
def changeDirectory : Builtin := lettered "LP" "" fun l s =>
  let home := s.bindings.lookup "HOME"
  let (path, isTold) : String × Bool :=
    match l.operands with
    | [] => (home.getD "", false)
    | "-" :: _ => ((s.bindings.lookup "OLDPWD").getD (Session.pathOf s.tree.home), true)
    | path :: _ => (path, false)
  if path.isEmpty then done s 0
  else
    let isPhysical := (l.given.getLast?.map (·.1)) = some 'P'
    let isThere (p : String × Bool) : Bool := s.tree.hasDirectory p.1
    let (target, isFound) := ((places s path).find? isThere).getD (path, false)
    match (directoryAt? s isPhysical target).map (·, isFound) with
    | some (place, isFound) =>
      let r := concluded (moveTo place) s
      if r.status = 0 ∧ (isTold ∨ isFound) then printedText (Session.pathOf place ++ "\n") r else r
    | none => s.fail ("can't cd to " ++ path)

/-- Prints the working directory. -/
def workingDirectory : Builtin := lettered "LP" "" fun _ s =>
  printedText (Session.pathOf s.tree.home ++ "\n") s

/-! ### Masks, bounds and times -/

/-- Sets or prints what new files are not allowed. -/
def mask : Builtin := lettered "S" "" fun l s =>
  match l.operands with
  | [] => printedText ((if l.has 'S' then Mask.symbolic s.mask else Mask.octal s.mask) ++ "\n") s
  | text :: _ =>
    match Mask.ofText? s.mask text with
    | .ok mask => done { s with mask } 0
    | .error e => s.fail e

/-- Prints a bound, or sets it.  The last letter that names one counts. -/
def bounds : Builtin := lettered "HSatfdscmlpnvwr" "" fun l s =>
  let letters := l.given.map (·.1)
  let isHow (c : Char) : Bool := c = 'H' || c = 'S'
  let how := (letters.filter isHow).getLast?
  let what := (letters.filter (!isHow ·)).getLast?.getD 'f'
  let bound := (s.bounds.lookup what).getD {}
  let set (value : Option Nat) : Session :=
    match bound.change (how ≠ some 'H') (how ≠ some 'S') value with
    | .ok b => done { s with bounds := (what, b) :: s.bounds } 0
    | .error e => s.fail ("error setting limit (" ++ e ++ ")")
  match l.operands with
  | [] =>
    printedText (Bound.shown (if how = some 'H' then bound.hard else bound.soft) ++ "\n") s
  | [text] =>
    if text = "unlimited" then set none
    else if text.toList.all Char.isDigit then set (some (Numeral.value 10 text.toList))
    else s.fail "bad number"
  | _ => s.fail "too many arguments"

/-- Prints the times of the shell and of the programs it has started, which are too short to be
seen. -/
def times : Builtin := fun _ s =>
  let line := "0m0.000000s 0m0.000000s\n"
  printedText (line ++ line) s

end SchemaModel.Shell.Builtin
