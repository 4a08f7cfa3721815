/-
# JSON values

A JSON value with its objects in order and its numbers told apart: an integer
lies in `-2 ^ 63 .. 2 ^ 64 - 1`, any other number is in double precision, so
`1` and `1.0` differ. `compact` writes a value without spaces.

Reading a record out of a JSON value fails when a value is not of the shape
its place calls for, or when a record given as an array has too many items.
The message names what was found and what was wanted.

Key definitions: `Json`, `Json.Number`, `Json.get?`, `Json.compact`,
`Json.Mismatch`, `Json.Mismatch.message`.
-/
import SchemaTypes.Decimal
import SchemaTypes.Entries
import SchemaTypes.Text.Quoted

namespace SchemaTypes

/-- A number of a JSON value. -/
inductive Json.Number where
  /-- An integer from `-2 ^ 63` to `2 ^ 64 - 1`. -/
  | integer (value : Int) (lower : -9223372036854775808 ≤ value)
      (upper : value ≤ 18446744073709551615)
  | float (value : Binary64)
deriving DecidableEq, Repr

/-- A JSON value. -/
inductive Json where
  | null
  | bool (value : Bool)
  | number (value : Json.Number)
  | string (value : String)
  | array (items : List Json)
  | object (members : List (String × Json))
deriving Repr, Inhabited

namespace Json

/-- The digits of an integer, with a minus sign if it is negative. -/
def Number.integerText (n : Int) : String :=
  String.ofList (if n < 0 then '-' :: Nat.toDigits 10 n.natAbs else Nat.toDigits 10 n.natAbs)

/-- The text of a number. -/
def Number.text : Number → String
  | .integer n _ _ => integerText n
  | .float x => x.text

/-- The value of a key of an object; other values have no keys. -/
def get? (key : String) : Json → Option Json
  | .object members => Entries.find? key members
  | _ => none

mutual

/-- The text of a value without spaces. -/
def compact : Json → String
  | .null => "null"
  | .bool true => "true"
  | .bool false => "false"
  | .number n => n.text
  | .string s => Text.quote s
  | .array items => "[" ++ ",".intercalate (compactItems items) ++ "]"
  | .object members => "\x7b" ++ ",".intercalate (compactMembers members) ++ "\x7d"

/-- The texts of the items of an array. -/
def compactItems : List Json → List String
  | [] => []
  | v :: vs => compact v :: compactItems vs

/-- The texts of the members of an object, each a quoted key and its value. -/
def compactMembers : List (String × Json) → List String
  | [] => []
  | (key, v) :: ms => (Text.quote key ++ ":" ++ compact v) :: compactMembers ms

end

theorem compactItems_eq (vs : List Json) : compactItems vs = vs.map compact := by
  induction vs with
  | nil => rfl
  | cons v vs ih => rw [compactItems, ih, List.map_cons]

theorem compactMembers_eq (ms : List (String × Json)) :
    compactMembers ms = ms.map fun m => Text.quote m.1 ++ ":" ++ m.2.compact := by
  induction ms with
  | nil => rfl
  | cons m ms ih =>
    obtain ⟨key, v⟩ := m
    rw [compactMembers, ih, List.map_cons]

/-! ### Values that are not of the shape called for -/

/-- What a place in a record calls for. -/
inductive Wanted where
  | schema
  | settings
  | sequence
  | map
  | string
  | boolean
deriving DecidableEq, Repr

/-- Why a value cannot be read as a record. -/
inductive Mismatch where
  /-- A value of the wrong shape. -/
  | unexpected (found : Json) (wanted : Wanted)
  /-- A record given as an array with more items than it has fields. -/
  | tooLong (length : Nat)
deriving Repr

/-- The words for what a place calls for. -/
def Wanted.text : Wanted → String
  | .schema => "struct Schema"
  | .settings => "struct TypegenOptions"
  | .sequence => "a sequence"
  | .map => "a map"
  | .string => "a string"
  | .boolean => "a boolean"

/-- The words for a value found in the wrong place; only a scalar is shown. -/
def foundText : Json → String
  | .null => "null"
  | .bool true => "boolean `true`"
  | .bool false => "boolean `false`"
  | .number (.integer n _ _) => "integer `" ++ Number.integerText n ++ "`"
  | .number (.float x) => "floating point `" ++ x.text ++ "`"
  | .string s => "string " ++ Text.shown s
  | .array _ => "sequence"
  | .object _ => "map"

/-- The message of a mismatch. -/
def Mismatch.message : Mismatch → String
  | .unexpected found wanted =>
    "invalid type: " ++ foundText found ++ ", expected " ++ wanted.text
  | .tooLong length =>
    "invalid length " ++ toString length ++ ", expected fewer elements in array"

end Json
end SchemaTypes
