/-
# Schemas

A schema is one node of the component schemas of a document, with the nine
keywords that decide its type. Every keyword may be absent; a list that is
present but empty counts as absent wherever the type is decided, which is
what the accessors see to.

Key definitions: `Schema`, `Schema.Kind`, `Schema.Keyword`,
`Schema.enumValues`, `Schema.unionMembers`, `Schema.intersectionMembers`,
`Schema.isObjectShaped`.
-/
import SchemaTypes.Json.Basic

namespace SchemaTypes

/-- The value of the keyword `type`. -/
inductive Schema.Kind where
  | integer
  | number
  | string
  | boolean
  | array
  | object
  /-- Any other value, also one that is no string. -/
  | unknown
deriving DecidableEq, Repr

/-- One node of the component schemas. -/
structure Schema where
  kind : Option Schema.Kind := none
  enum : Option (List Json) := none
  properties : Option (List (String × Schema)) := none
  required : List String := []
  oneOf : Option (List Schema) := none
  anyOf : Option (List Schema) := none
  allOf : Option (List Schema) := none
  reference : Option String := none
  items : Option Schema := none
deriving Repr, Inhabited

namespace Schema

/-- The kind that a name of `type` stands for. -/
def Kind.ofName (name : String) : Kind :=
  if name = "integer" then .integer
  else if name = "number" then .number
  else if name = "string" then .string
  else if name = "boolean" then .boolean
  else if name = "array" then .array
  else if name = "object" then .object
  else .unknown

/-- The name of a kind. -/
def Kind.name : Kind → String
  | .integer => "integer"
  | .number => "number"
  | .string => "string"
  | .boolean => "boolean"
  | .array => "array"
  | .object => "object"
  | .unknown => "unknown"

/-- The keywords that decide the type of a schema. -/
inductive Keyword where
  | type
  | enum
  | properties
  | required
  | oneOf
  | anyOf
  | allOf
  | reference
  | items
deriving DecidableEq, Repr

/-- The keywords in the order of the array form of a schema. -/
def Keyword.all : List Keyword :=
  [.type, .enum, .properties, .required, .oneOf, .anyOf, .allOf, .reference, .items]

/-- How a keyword is written. -/
def Keyword.name : Keyword → String
  | .type => "type"
  | .enum => "enum"
  | .properties => "properties"
  | .required => "required"
  | .oneOf => "oneOf"
  | .anyOf => "anyOf"
  | .allOf => "allOf"
  | .reference => "$ref"
  | .items => "items"

/-- The keyword written so; any other key of a schema says nothing. -/
def Keyword.ofName? (name : String) : Option Keyword :=
  Keyword.all.find? fun k => k.name = name

/-- A list that is present and has an item. -/
def nonempty {α : Type} : Option (List α) → Option (List α)
  | some (a :: as) => some (a :: as)
  | _ => none

/-- The values of `enum`, if there are any. -/
def enumValues (s : Schema) : Option (List Json) :=
  nonempty s.enum

/-- The values of `enum` on a schema of type string or without a type. -/
def stringEnumValues (s : Schema) : Option (List Json) :=
  match s.kind with
  | none | some .string => s.enumValues
  | some _ => none

/-- The members of a union: those of `oneOf`, or else those of `anyOf`. -/
def unionMembers (s : Schema) : Option (List Schema) :=
  match nonempty s.oneOf with
  | some ms => some ms
  | none => nonempty s.anyOf

/-- The members of an intersection. -/
def intersectionMembers (s : Schema) : Option (List Schema) :=
  nonempty s.allOf

/-- A schema of type object, or of any type with properties. -/
def isObjectShaped (s : Schema) : Bool :=
  s.kind = some .object || s.properties.isSome

/-- The schema requires the property of this name. -/
def requires (s : Schema) (property : String) : Bool :=
  s.required.contains property

/-- The schema that has only a type. -/
def ofKind (kind : Kind) : Schema :=
  { kind := some kind }

/-- The schema that is only a reference. -/
def ofReference (reference : String) : Schema :=
  { reference := some reference }

end Schema
end SchemaTypes
