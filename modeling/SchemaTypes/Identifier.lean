/-
# Names for enum members and object keys

An enum value becomes a member name in capitals (`user-name` and `userName`
both give `USER_NAME`): the value is trimmed, each run of characters that no
identifier holds becomes one underscore, an underscore is set where a word
begins inside camel case, and a name that would be empty or start with a
digit gets an underscore in front. A property name is kept as an object key
if it is an identifier, and quoted otherwise.

Key definitions: `Identifier.member`, `Identifier.propertyKey`.
-/
import SchemaTypes.Text.Parts
import SchemaTypes.Text.Quoted

namespace SchemaTypes.Identifier

/-- An ASCII letter, an ASCII digit or an underscore. -/
def isWordChar (c : Char) : Bool :=
  c.isAlphanum || c = '_'

/-- Each run of characters outside words becomes one underscore. The flag
says that the character before belongs to such a run. -/
def separate (inRun : Bool) : List Char → List Char
  | [] => []
  | c :: cs =>
    if isWordChar c then c :: separate false cs
    else if inRun then separate true cs
    else '_' :: separate true cs

/-- A word begins at `b` if `a` before it is a lowercase letter or a digit
and `b` is a capital. -/
def isBoundary (a b : Char) : Bool :=
  (a.isLower || a.isDigit) && b.isUpper

/-- Sets an underscore at each boundary, going on behind the two characters
of the boundary. -/
def splitWords : List Char → List Char
  | a :: b :: cs =>
    if isBoundary a b then a :: '_' :: b :: splitWords cs
    else a :: splitWords (b :: cs)
  | cs => cs

/-- The underscore in front of a name that is empty or starts with a digit. -/
def lead : List Char → List Char
  | [] => ['_']
  | c :: _ => if c.isDigit then ['_'] else []

/-- The member name of an enum value. -/
def member (raw : String) : String :=
  let words := splitWords (separate false (Text.trim raw.toList))
  String.ofList (lead words ++ words.map Char.toUpper)

/-- A letter or an underscore, followed by letters, digits and underscores
only. -/
def isBare (name : String) : Bool :=
  match name.toList with
  | [] => false
  | c :: cs => (c.isAlpha || c = '_') && cs.all isWordChar

/-- The object key of a property: its name, quoted unless it is bare. -/
def propertyKey (name : String) : String :=
  if isBare name then name else Text.quote name

end SchemaTypes.Identifier
