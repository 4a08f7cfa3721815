/-
# The configuration file

A configuration is a TOML text whose table `typegen` holds the settings by
their names; what it does not set keeps its default, and what it sets besides
is passed over. The settings may also be given as an array of their values in
order.

Key definitions: `Configuration.settings?`, `Configuration.read`.
-/
import SchemaTypes.Settings
import SchemaTypes.Toml.Parser

namespace SchemaTypes.Configuration

open Settings (Choice)

/-- Why a text is no configuration. -/
inductive Fault where
  /-- It is no TOML text. -/
  | syntaxError
  /-- A setting does not have a value of its kind. -/
  | mismatch
deriving DecidableEq, Repr

/-- What is wrong with a configuration. -/
def Fault.message : Fault → String
  | .syntaxError => "the text is no TOML"
  | .mismatch => "a setting does not have a value of its kind"

/-- The name of the table that holds the settings. -/
def tableName : String := "typegen"

/-- Takes the value of a choice into the settings. -/
def take? (o : Settings) (k : Choice) : Toml.Node → Option Settings
  | .string s => o.setText? s k
  | .boolean b => o.setSwitch? b k
  | _ => none

/-- Takes the entries of a table into the settings. -/
def takeEntries? (o : Settings) : Toml.Table → Option Settings
  | [] => some o
  | (name, v) :: es =>
    match Choice.ofName? name with
    | none => takeEntries? o es
    | some k => do takeEntries? (← take? o k v) es

/-- Takes the items of an array, one for each choice, into the settings; any
items beyond are passed over. -/
def takeItems? (o : Settings) : List Choice → List Toml.Node → Option Settings
  | k :: ks, v :: vs => do takeItems? (← take? o k v) ks vs
  | _, _ => some o

/-- The settings of what stands under the name of the table. A time counts as
a table without settings. -/
def settings? : Toml.Node → Option Settings
  | .table _ es => takeEntries? {} es
  | .array vs => takeItems? {} Choice.all vs
  | .time => some {}
  | _ => none

/-- The settings of a configuration text. -/
def read (text : String) : Except Fault Settings :=
  match Toml.parse? text with
  | none => .error .syntaxError
  | some t =>
    match Entries.find? tableName t with
    | none => .ok {}
    | some v =>
      match settings? v with
      | some o => .ok o
      | none => .error .mismatch

end SchemaTypes.Configuration
