/-
# Reading the catalog of a document

A document is written in JSON or in YAML. Unless a format is asked for, a text
whose first character behind blanks is an opening brace is JSON, and any other
text is YAML. A document with a version is an OpenAPI document, and its catalog
stands under `components` and `schemas`; a document without one is its own
catalog. The definitions are taken in the order they stand in, and the first
that is no schema decides the failure.

A document is refused because its text is no JSON or no YAML, because a
definition in it is no schema, or because it is no document of the kind that is
read here. The messages go from the outside in: the message of a fault ends with
that of its cause.

Key definitions: `Document.Format`, `Document.Format.settle`, `Document.Fault`,
`Document.Fault.message`, `Document.Fault.cause?`, `Document.catalog`,
`Document.read`.
-/
import SchemaTypes.Catalog
import SchemaTypes.Json.Parser
import SchemaTypes.Schema.Decode
import SchemaTypes.Text.Parts
import SchemaTypes.Yaml.Value

namespace SchemaTypes

/-! ### Documents that are refused -/

/-- What is wrong with a text that is no JSON text. -/
def Json.Fault.message : Json.Fault → String
  | .endOfText => "the text ends in the middle of a value"
  | .malformed => "something stands where it may not"

/-- What is wrong with a text that is no YAML text. -/
def Yaml.Fault.message : Yaml.Fault → String
  | .character => "a character that may not be in the text"
  | .token => "a token that is not formed as it has to be"
  | .misplaced => "a token in a place where it may not stand"
  | .documents => "more than one document"
  | .tag => "a tag that is not known or does not fit its value"
  | .anchor => "an alias without an anchor"
  | .key => "a key that is no scalar"
  | .number => "a number beyond the range of integers"
  | .limit => "too many collections inside each other, or too many aliases"

namespace Document

/-- Why a value is no document of the kind that is read here. -/
inductive Unsupported where
  | swagger
  /-- A version that is not 3.x. -/
  | version (text : String)
  /-- The schemas are no object. -/
  | notMapping
deriving DecidableEq, Repr

/-- The message of an unsupported document. -/
def Unsupported.message : Unsupported → String
  | .swagger => "Swagger 2.0 documents are not supported (expected OpenAPI 3.x)"
  | .version text => "OpenAPI version " ++ text ++ " not supported (expected 3.x)"
  | .notMapping => "expected a mapping of schema names to schemas"

/-- Why a document is refused. -/
inductive Fault where
  | json (cause : Json.Fault)
  | yaml (cause : Yaml.Fault)
  /-- The definition of this name is no schema. -/
  | schema (name : String) (cause : Json.Mismatch)
  | unsupported (reason : Unsupported)
deriving Repr

/-- The message of what is behind a fault, if something is. -/
def Fault.cause? : Fault → Option String
  | .json e => some e.message
  | .yaml e => some e.message
  | .schema _ e => some e.message
  | .unsupported _ => none

/-- The message of a fault. -/
def Fault.message : Fault → String
  | .json e => "invalid JSON: " ++ e.message
  | .yaml e => "invalid YAML: " ++ e.message
  | .schema name e => "schema `" ++ name ++ "`: " ++ e.message
  | .unsupported reason => "unsupported document: " ++ reason.message

/-! ### The format of a text -/

/-- The format asked for. -/
inductive Format where
  /-- JSON or YAML, as the text looks. -/
  | auto
  | json
  | yaml
deriving DecidableEq, Repr

/-- The text looks like a JSON object. -/
def looksLikeJson (text : String) : Bool :=
  (Text.trimStart text.toList).head? = some '\x7b'

/-- The format to read a text in. -/
def Format.settle (text : String) : Format → Format
  | .auto => if looksLikeJson text then .json else .yaml
  | format => format

/-! ### The catalog -/

/-- The schemas of named definitions. -/
def decodeEntries : List (String × Json) → Except Fault (List (String × Schema))
  | [] => .ok []
  | (name, v) :: ms =>
    match Schema.decode v with
    | .ok s => (decodeEntries ms).map ((name, s) :: ·)
    | .error e => .error (.schema name e)

/-- The catalog of an object of definitions. -/
def entriesOf : Json → Except Fault Catalog
  | .object ms => (decodeEntries ms).map Catalog.ofList
  | _ => .error (.unsupported .notMapping)

/-- The text of a version. A version that was read as a number is written
out again. -/
def versionText : Json → String
  | .string s => s
  | v => v.compact

/-- A version of the third major one. -/
def isSupported (version : String) : Bool :=
  "3.".toList.isPrefixOf version.toList

/-- The catalog of a document. -/
def catalog (document : Json) : Except Fault Catalog :=
  if (document.get? "swagger").isSome then .error (.unsupported .swagger)
  else
    match document.get? "openapi" with
    | none => entriesOf document
    | some v =>
      if !isSupported (versionText v) then .error (.unsupported (.version (versionText v)))
      else
        match (document.get? "components").bind (·.get? "schemas") with
        | some schemas => entriesOf schemas
        | none => .ok .empty

/-- The value of a document text in a format. -/
def valueOf (text : String) (format : Format) : Except Fault Json :=
  match format.settle text with
  | .json => (Json.parse text).mapError .json
  | _ => (Yaml.parse text).mapError .yaml

/-- The catalog of a document text. -/
def read (text : String) (format : Format) : Except Fault Catalog := do
  catalog (← valueOf text format)

end Document
end SchemaTypes
