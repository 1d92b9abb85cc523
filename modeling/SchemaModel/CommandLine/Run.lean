import SchemaModel.CommandLine.Arguments
import SchemaModel.MetaSchema.Document
import SchemaModel.Text.Quoted

/-!
# Running a command

A command leaves files behind, prints on both channels and ends with a status: nothing if it
succeeds, one if it fails, and then the failure is the last line of the error channel.

* `Outcome` — what a command leaves behind;
* `description` — the options of a batch as a listing;
* `Command.run` — runs a command;
* `Usage.message` — what is shown when arguments name no command.
-/

namespace SchemaModel.CommandLine

/-- What a command leaves behind: the state of the host, the output and the status. -/
structure Outcome (σ : Type) where
  state : σ
  out : ByteArray := ByteArray.empty
  err : ByteArray := ByteArray.empty
  status : Nat := 0

/-- A listing of lines. -/
def listing (lines : List String) : String := String.join (lines.map (· ++ "\n"))

/-- The options of a batch as a listing. -/
def description (b : Batch) : String :=
  let deeper (lines : List String) : List String := lines.map ("    " ++ ·)
  let record (head : String) (fields : List String) (tail : String) : List String :=
    (head ++ " \x7b") :: deeper fields ++ ["\x7d" ++ tail]
  let field (name value : String) : String := name ++ ": " ++ value ++ ","
  let inputs := "input: [" :: deeper (b.inputs.map fun input => Text.quoted input ++ ",") ++ ["],"]
  let settings := record "input_settings: InputSettings"
    (inputs ++ [field "settings" (Text.quoted b.settings)]) ","
  let options := record "CompileOut"
    (settings ++ [field "out" (Text.quoted b.out), field "no_format" (toString b.noFormat),
      field "no_op" "true"]) ","
  listing (record "CommandLineInterface" ("cmd: Compile(" :: deeper options ++ ["),"]) "")

/-- Runs a command. -/
def Command.run (host : Host σ) (state : σ) : Command → Outcome σ
  | .metaSchema => { state, out := (MetaSchema.documentText ++ "\n").toUTF8 }
  | .describe batch => { state, err := (description batch).toUTF8 }
  | .compile batch =>
    let (p, verdict) := batch.run host state
    match verdict with
    | .ok () => { state := p.state, out := p.out, err := p.err }
    | .error e =>
      { state := p.state, out := p.out, err := p.err ++ ("error: " ++ e.message ++ "\n").toUTF8
        status := 1 }

theorem Command.run_compile_state (host : Host σ) (state : σ) (b : Batch) :
    ((Command.compile b).run host state).state = (b.run host state).1.state := by
  rw [Command.run]
  cases b.run host state with
  | mk p verdict => cases verdict <;> rfl

theorem Command.run_compile_status_eq_zero (host : Host σ) (state : σ) (b : Batch) :
    ((Command.compile b).run host state).status = 0 ↔ (b.run host state).2 = .ok () := by
  rw [Command.run]
  cases b.run host state with
  | mk p verdict => cases verdict <;> simp

/-- What is shown when arguments name no command. -/
def Usage.message : Usage → String
  | .help => listing
    ["Usage: compile --input <INPUT>... [--settings <SETTINGS>] [--out <OUT>] [--no-format]" ++
        " [--no-op]",
      "       meta-schema"]
  | .nothingToDo => "error: no command is given\n"
  | .unknownCommand => "error: there is no such command\n"
  | .unknownArgument => "error: an argument is not expected\n"
  | .inputMissing => "error: --input <INPUT>... is not given\n"
  | .valueMissing => "error: an option has no value\n"
  | .valueUnwanted => "error: a flag has a value\n"
  | .repeated => "error: an option is given twice\n"

/-- The status that ends the program when arguments name no command. -/
def Usage.status : Usage → Nat
  | .help => 0
  | _ => 2

end SchemaModel.CommandLine
