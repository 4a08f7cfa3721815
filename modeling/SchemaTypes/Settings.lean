/-
# Settings

What a user may choose about the declarations: the prefix of every declared
name, whether references are expanded in place, whether declarations are
exported, and whether an alias is bound to its type or to `any`.

Settings are read from an object of options or from an array of their values
in order; options that are not given keep their defaults.

Key definitions: `Settings`, `Settings.declaredName`, `Settings.decode`.
-/
import SchemaTypes.Json.Basic

namespace SchemaTypes

/-- The choices about the declarations. -/
structure Settings where
  namePrefix : String := "I"
  inlineRefs : Bool := false
  exported : Bool := true
  typedAliases : Bool := false
deriving DecidableEq, Repr, Inhabited

namespace Settings

open Json (Mismatch)

/-- The settings with a prefix of one's own. -/
def withPrefix (namePrefix : String) : Settings :=
  { namePrefix }

/-- The settings that expand references in place. -/
def inlining : Settings :=
  { inlineRefs := true }

/-- The declared name of a schema. -/
def declaredName (o : Settings) (name : String) : String :=
  o.namePrefix ++ name

/-- One choice. -/
inductive Choice where
  | namingPrefix
  | inlineRef
  | exported
  | typedAliases
deriving DecidableEq, Repr

/-- The choices in the order of the array form. -/
def Choice.all : List Choice :=
  [.namingPrefix, .inlineRef, .exported, .typedAliases]

/-- The name of a choice among the options. -/
def Choice.name : Choice → String
  | .namingPrefix => "naming_prefix"
  | .inlineRef => "inline_ref"
  | .exported => "export"
  | .typedAliases => "typed_aliases"

/-- The choice of this name. -/
def Choice.ofName? (name : String) : Option Choice :=
  Choice.all.find? fun k => k.name = name

/-- Sets a choice that is a text; `none` if the choice is a switch. -/
def setText? (o : Settings) (value : String) : Choice → Option Settings
  | .namingPrefix => some { o with namePrefix := value }
  | _ => none

/-- Sets a choice that is a switch; `none` if the choice is a text. -/
def setSwitch? (o : Settings) (value : Bool) : Choice → Option Settings
  | .namingPrefix => none
  | .inlineRef => some { o with inlineRefs := value }
  | .exported => some { o with exported := value }
  | .typedAliases => some { o with typedAliases := value }

/-- What the value of a choice has to be. -/
def Choice.wanted : Choice → Json.Wanted
  | .namingPrefix => .string
  | _ => .boolean

/-- Takes the value of a choice into the settings. -/
def decodeChoice (o : Settings) (k : Choice) (v : Json) : Except Mismatch Settings :=
  let taken :=
    match v with
    | .string s => o.setText? s k
    | .bool b => o.setSwitch? b k
    | _ => none
  match taken with
  | some o => .ok o
  | none => .error (.unexpected v k.wanted)

/-- Takes the members of an object, one after another, into the settings. -/
def decodeMembers (o : Settings) : List (String × Json) → Except Mismatch Settings
  | [] => .ok o
  | (name, v) :: ms =>
    match Choice.ofName? name with
    | none => decodeMembers o ms
    | some k =>
      match o.decodeChoice k v with
      | .ok o => decodeMembers o ms
      | .error e => .error e

/-- Takes the items of an array, one for each choice, into the settings. -/
def decodeItems (o : Settings) : List Choice → List Json → Except Mismatch Settings
  | _, [] => .ok o
  | [], v :: vs => .error (.tooLong (Choice.all.length + (v :: vs).length))
  | k :: ks, v :: vs =>
    match o.decodeChoice k v with
    | .ok o => decodeItems o ks vs
    | .error e => .error e

/-- The settings of a JSON value. -/
def decode : Json → Except Mismatch Settings
  | .object ms => decodeMembers {} ms
  | .array vs => decodeItems {} Choice.all vs
  | v => .error (.unexpected v .settings)

end Settings
end SchemaTypes
