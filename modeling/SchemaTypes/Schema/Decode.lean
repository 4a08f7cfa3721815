/-
# Reading a schema out of a JSON value

A schema is an object of keywords or an array of their values in order.
Members of an object are taken in the order they stand in, and the first that
does not fit decides the failure; keys that are no keyword are passed over.
Null stands for an absent keyword, except for `required`. The keyword `type`
takes any value.

Key definitions: `Schema.decode`.
-/
import SchemaTypes.Json.Basic
import SchemaTypes.Schema.Basic

namespace SchemaTypes.Schema

open Json (Mismatch)

/-- The kind that a value of `type` stands for. -/
def Kind.ofJson : Json → Option Kind
  | .null => none
  | .string name => some (Kind.ofName name)
  | _ => some .unknown

/-- The strings of an array, up to the first item that is none. -/
def decodeStrings : List Json → Except Mismatch (List String)
  | [] => .ok []
  | .string s :: vs => (decodeStrings vs).map (s :: ·)
  | v :: _ => .error (.unexpected v .string)

mutual

/-- The schema of a JSON value. -/
def decode : Json → Except Mismatch Schema
  | .object ms => decodeMembers {} ms
  | .array vs => decodeItems {} Keyword.all vs
  | v => .error (.unexpected v .schema)

/-- Takes the members of an object, one after another, into a schema. -/
def decodeMembers (s : Schema) : List (String × Json) → Except Mismatch Schema
  | [] => .ok s
  | (name, v) :: ms =>
    match Keyword.ofName? name with
    | none => decodeMembers s ms
    | some k =>
      match decodeKeyword s k v with
      | .ok s => decodeMembers s ms
      | .error e => .error e

/-- Takes the items of an array, one for each keyword, into a schema. -/
def decodeItems (s : Schema) : List Keyword → List Json → Except Mismatch Schema
  | _, [] => .ok s
  | [], v :: vs => .error (.tooLong (Keyword.all.length + (v :: vs).length))
  | k :: ks, v :: vs =>
    match decodeKeyword s k v with
    | .ok s => decodeItems s ks vs
    | .error e => .error e

/-- Takes the value of a keyword into a schema. -/
def decodeKeyword (s : Schema) : Keyword → Json → Except Mismatch Schema
  | .type, v => .ok { s with kind := Kind.ofJson v }
  | .required, .array vs => (decodeStrings vs).map fun names => { s with required := names }
  | .required, v => .error (.unexpected v .sequence)
  | _, .null => .ok s
  | .enum, .array vs => .ok { s with enum := some vs }
  | .enum, v => .error (.unexpected v .sequence)
  | .properties, .object ms => (decodeNamed ms).map fun ps => { s with properties := some ps }
  | .properties, v => .error (.unexpected v .map)
  | .oneOf, .array vs => (decodeList vs).map fun ss => { s with oneOf := some ss }
  | .oneOf, v => .error (.unexpected v .sequence)
  | .anyOf, .array vs => (decodeList vs).map fun ss => { s with anyOf := some ss }
  | .anyOf, v => .error (.unexpected v .sequence)
  | .allOf, .array vs => (decodeList vs).map fun ss => { s with allOf := some ss }
  | .allOf, v => .error (.unexpected v .sequence)
  | .reference, .string r => .ok { s with reference := some r }
  | .reference, v => .error (.unexpected v .string)
  | .items, .object ms => (decodeMembers {} ms).map fun i => { s with items := some i }
  | .items, .array vs => (decodeItems {} Keyword.all vs).map fun i => { s with items := some i }
  | .items, v => .error (.unexpected v .schema)

/-- The schemas of an array. -/
def decodeList : List Json → Except Mismatch (List Schema)
  | [] => .ok []
  | v :: vs =>
    match decode v with
    | .ok s => (decodeList vs).map (s :: ·)
    | .error e => .error e

/-- The schemas of the members of an object, with their names. -/
def decodeNamed : List (String × Json) → Except Mismatch (List (String × Schema))
  | [] => .ok []
  | (name, v) :: ms =>
    match decode v with
    | .ok s => (decodeNamed ms).map ((name, s) :: ·)
    | .error e => .error e

end

end SchemaTypes.Schema
