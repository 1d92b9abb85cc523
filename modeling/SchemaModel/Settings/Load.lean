import SchemaModel.Batch.Host
import SchemaModel.Json.Reader
import SchemaModel.Settings.OfText

/-!
# Settings from a file

A missing file gives the default settings, as does a file whose value is no object.

* `Settings.LoadError` — why a file gives no settings;
* `Settings.load` — the settings of a file.
-/

namespace SchemaModel.Settings

/-- Why a file gives no settings. -/
inductive LoadError where
  | unreadable (path : String) (e : OsError)
  | malformed (path : String) (e : Json.SyntaxError)
  | invalid (path : String) (e : DecodeError)
deriving DecidableEq, Repr

/-- The wording of an error. -/
def LoadError.message : LoadError → String
  | .unreadable path e => "failed to read settings file " ++ path ++ ": " ++ e.message
  | .malformed path e => "failed to parse settings file " ++ path ++ ": " ++ e.message
  | .invalid path e => "invalid settings file " ++ path ++ ": " ++ e.message

/-- The settings of a file's text. -/
def ofFileText (path text : String) : Except LoadError Settings :=
  match Json.parse (some Json.fileDepthLimit) text with
  | .error e => .error (.malformed path e)
  | .ok v => if v.isObject then (ofText text).mapError (.invalid path) else .ok {}

/-- The settings of a file. -/
def load (host : Host σ) (state : σ) (path : String) : Except LoadError Settings :=
  if host.hasEntry state path then
    match host.readText state path with
    | .error e => .error (.unreadable path e)
    | .ok text => ofFileText path text
  else .ok {}

end SchemaModel.Settings
