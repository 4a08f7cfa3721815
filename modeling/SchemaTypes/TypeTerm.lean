/-
# TypeScript types

The types that declarations are made of: four primitive types, literal types,
declared names, arrays, the open record type, object types with their fields
in order, unions and intersections. Keys and literals are kept as they are
written in the output.

A type is written at a depth of nesting: the fields of an object type stand
on lines of their own, two spaces further in than its closing brace. An array
of a compound type and a union inside an intersection are put in parentheses.
A union without members is `never`, an intersection without members is
`unknown`.

Key definitions: `TypeTerm`, `Field`, `TypeTerm.isCompound`, `TypeTerm.text`,
`TypeTerm.fieldLines`, `objectText`.
-/

namespace SchemaTypes

/-- A field of an object type: its key, already written as a key, whether it
may be left out, and its type. -/
structure FieldOf (α : Type) where
  key : String
  isOptional : Bool
  type : α
deriving Repr

/-- A TypeScript type. -/
inductive TypeTerm where
  | any
  | number
  | string
  | boolean
  /-- `Record<string, any>` -/
  | record
  /-- A literal type, as it is written. -/
  | literal (text : String)
  /-- A declared name. -/
  | named (name : String)
  | array (item : TypeTerm)
  | object (fields : List (FieldOf TypeTerm))
  | union (members : List TypeTerm)
  | intersection (members : List TypeTerm)
deriving Repr, Inhabited

/-- A field of an object type. -/
abbrev Field := FieldOf TypeTerm

/-- A union or an intersection of more than one member. -/
def TypeTerm.isCompound : TypeTerm → Bool
  | .union ms | .intersection ms => 1 < ms.length
  | _ => false

/-- A union of more than one member. -/
def TypeTerm.isProperUnion : TypeTerm → Bool
  | .union ms => 1 < ms.length
  | _ => false

/-! ### The text of a type -/

/-- The blanks in front of a line at a depth of nesting. -/
def indent (depth : Nat) : String :=
  String.ofList (List.replicate (2 * depth) ' ')

/-- The lines of an object type between braces at a depth of nesting. -/
def braced (depth : Nat) (lines : List String) : String :=
  if lines.isEmpty then "\x7b\x7d"
  else "\x7b\n" ++ "\n".intercalate lines ++ "\n" ++ indent depth ++ "\x7d"

/-- A text in parentheses if it needs them. -/
def parenthesized (needed : Bool) (text : String) : String :=
  if needed then "(" ++ text ++ ")" else text

namespace TypeTerm

mutual

/-- The text of a type at a depth of nesting. -/
def text (depth : Nat) : TypeTerm → String
  | .any => "any"
  | .number => "number"
  | .string => "string"
  | .boolean => "boolean"
  | .record => "Record<string, any>"
  | .literal t => t
  | .named n => n
  | .array t => parenthesized t.isCompound (text depth t) ++ "[]"
  | .object fs => braced depth (fieldLines (depth + 1) fs)
  | .union ms => if ms.isEmpty then "never" else " | ".intercalate (texts depth ms)
  | .intersection ms =>
    if ms.isEmpty then "unknown" else " & ".intercalate (operandTexts depth ms)

/-- The texts of the members of a union. -/
def texts (depth : Nat) : List TypeTerm → List String
  | [] => []
  | t :: ts => text depth t :: texts depth ts

/-- The texts of the members of an intersection. -/
def operandTexts (depth : Nat) : List TypeTerm → List String
  | [] => []
  | t :: ts => parenthesized t.isProperUnion (text depth t) :: operandTexts depth ts

/-- The lines of fields that stand at a depth of nesting. -/
def fieldLines (depth : Nat) : List (FieldOf TypeTerm) → List String
  | [] => []
  | ⟨key, isOptional, t⟩ :: fs =>
    (indent depth ++ key ++ (if isOptional then "?: " else ": ") ++ text depth t ++ ";")
      :: fieldLines depth fs

end

end TypeTerm

/-- The text of fields at a depth of nesting, with braces around them or as
bare lines. Without fields it is a pair of braces either way. -/
def objectText (fields : List Field) (depth : Nat) (braces : Bool) : String :=
  let lines := TypeTerm.fieldLines (depth + 1) fields
  if braces || lines.isEmpty then braced depth lines else "\n".intercalate lines

end SchemaTypes
