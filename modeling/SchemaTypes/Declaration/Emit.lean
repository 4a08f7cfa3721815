/-
# Declarations

A schema of the catalog is declared as an enum, a union or an intersection type,
an interface, or an alias of a type. The first rule that applies decides: the
values of `enum`, whatever the type, make an enum; the members of `oneOf` or
`anyOf` a union; those of `allOf` an intersection; an object-shaped schema an
interface; all else an alias, of `any` unless aliases are typed. A member of a
union or an intersection is the declared name of its reference, or else the
object type of its properties.

The text of a declaration is a TypeScript statement. Each entry of a catalog is
written as one declaration; a module is the declarations of all entries in
order, a blank line between two. Writing a declaration reports the events of its
making and then the declaration itself.

Key definitions: `Declaration`, `Declaration.text`, `EnumMember.ofJson`,
`Catalog.declare`, `Catalog.emit`, `Catalog.moduleText`, `Catalog.moduleLog`.
-/
import SchemaTypes.Log.Event
import SchemaTypes.TypeTerm
import SchemaTypes.Typing

namespace SchemaTypes

/-- A member of an enum: its name and its value, both as they are written. -/
structure EnumMember where
  name : String
  value : String
deriving DecidableEq, Repr

/-- A declaration under its declared name. -/
inductive Declaration where
  | enum (name : String) (members : List EnumMember)
  | union (name : String) (members : List TypeTerm)
  | intersection (name : String) (members : List TypeTerm)
  | interface (name : String) (fields : List Field)
  | typeAlias (name : String) (type : TypeTerm)
deriving Repr

namespace Declaration

/-- The declared name. -/
def name : Declaration → String
  | .enum n _ | .union n _ | .intersection n _ | .interface n _ | .typeAlias n _ => n

/-- The kind of a declaration, in a word. -/
def kind : Declaration → String
  | .enum .. => "enum"
  | .union .. => "union"
  | .intersection .. => "intersection"
  | .interface .. => "interface"
  | .typeAlias .. => "alias"

/-- The lines of the members of an enum. -/
def memberLines (members : List EnumMember) : List String :=
  members.map fun m => "  " ++ m.name ++ " = " ++ m.value ++ ","

/-- The body of an enum. -/
def enumBody (members : List EnumMember) : String :=
  if members.isEmpty then "\x7b\x7d"
  else "\x7b\n" ++ "\n".intercalate (memberLines members) ++ "\n\x7d"

/-- The declaration of a type under a name. -/
def typeText (name : String) (type : TypeTerm) : String :=
  "type " ++ name ++ " = " ++ type.text 0 ++ ";"

/-- The text of a declaration that is not exported. -/
def localText : Declaration → String
  | .enum n ms => "enum " ++ n ++ " " ++ enumBody ms
  | .union n ms => typeText n (.union ms)
  | .intersection n ms => typeText n (.intersection ms)
  | .interface n fs => "interface " ++ n ++ " " ++ objectText fs 0 true
  | .typeAlias n t => typeText n t

/-- The text of a declaration. -/
def text (exported : Bool) (d : Declaration) : String :=
  (if exported then "export " else "") ++ d.localText

end Declaration

/-! ### The declaration of a schema -/

/-- The enum member of a value. A string or a number stands for itself; any
other value stands for its text. -/
def EnumMember.ofJson : Json → EnumMember
  | .string s => ⟨Identifier.member s, Text.quote s⟩
  | .number n => ⟨Identifier.member n.text, n.text⟩
  | v => ⟨Identifier.member v.compact, Text.quote v.compact⟩

namespace Catalog

/-- The type of a member of a union or an intersection. -/
def memberTerm (c : Catalog) (o : Settings) (stack : List String) (s : Schema) :
    Logged TypeTerm :=
  match s.reference with
  | some r => ⟨Typing.named o r, []⟩
  | none => Typing.object c o stack s

/-- The types of the members of a union or an intersection. -/
def memberTerms (c : Catalog) (o : Settings) (stack : List String) :
    List Schema → Logged (List TypeTerm)
  | [] => ⟨[], []⟩
  | s :: ss => (c.memberTerm o stack s).cons (c.memberTerms o stack ss)

/-- The declaration of a schema under a name, which is not expanded inside
itself. -/
def declare (c : Catalog) (o : Settings) (name : String) (s : Schema) : Logged Declaration :=
  let declared := o.declaredName name
  match s.enumValues with
  | some vs => ⟨.enum declared (vs.map EnumMember.ofJson), []⟩
  | none =>
  match s.unionMembers with
  | some ms => (c.memberTerms o [name] ms).map (.union declared)
  | none =>
  match s.intersectionMembers with
  | some ms => (c.memberTerms o [name] ms).map (.intersection declared)
  | none =>
    if s.isObjectShaped then (Typing.fields c o [name] s).map (.interface declared)
    else if o.typedAliases then (Typing.term c o [name] (some s)).map (.typeAlias declared)
    else ⟨.typeAlias declared .any, []⟩

end Catalog

/-! ### Writing declarations -/

/-- A declaration that has been written, with the events to report. -/
structure Emission where
  declaration : Declaration
  text : String
  events : List Log.Event
deriving Repr

namespace Catalog

/-- Writes the declaration of a schema under a name. -/
def emit (c : Catalog) (o : Settings) (name : String) (s : Schema) : Emission :=
  let d := c.declare o name s
  { declaration := d.value
    text := d.value.text o.exported
    events := d.events.map .reference ++ [.emitting d.value.name d.value.kind] }

/-- Writes every entry, in order. -/
def emissions (c : Catalog) (o : Settings) : List Emission :=
  c.entries.map fun e => c.emit o e.1 e.2

/-- The declarations of all entries, a blank line between two. -/
def moduleText (c : Catalog) (o : Settings) : String :=
  "\n\n".intercalate ((c.emissions o).map (·.text))

/-- The events of writing all entries. -/
def moduleLog (c : Catalog) (o : Settings) : List Log.Event :=
  (c.emissions o).flatMap (·.events)

end Catalog

end SchemaTypes
