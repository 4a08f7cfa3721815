/-
# Which events are logged

A filter is a list of rules. A rule has a level and may ask for a target, for
a span and for a field; it applies to the events whose target starts with its
own and that have its field, and an event is logged if the most specific rule
that applies lets its level pass. There are no spans, so a rule that asks for
one, or for the value of a field, applies to nothing.

The text of a filter separates rules by commas: a rule is a level name, a
target that lets everything pass, or what is asked for and a level with an
equals sign between, as in `target[span{field=pattern}]=level`. Without a filter
text that can be read, the number of `-v` on the command line gives the level.

Key definitions: `Log.Filter`, `Log.Filter.parse?`, `Log.Filter.enables`,
`Log.verbosityName`.
-/
import SchemaTypes.Log.Event
import SchemaTypes.Log.Pattern
import SchemaTypes.Text.Parts

namespace SchemaTypes.Log

/-- The least grave level that is logged; none with `off`. -/
abbrev Limit := Option Level

/-- The limit lets events of a level pass. -/
def Limit.admits (limit : Limit) (level : Level) : Bool :=
  match limit with
  | none => false
  | some l => level.rank ≤ l.rank

/-- A field that a rule asks for. -/
structure FieldTest where
  name : String
  /-- The value is asked for too. -/
  hasValue : Bool := false
deriving DecidableEq, Repr

/-- One rule of a filter. -/
structure Rule where
  target : Option String := none
  span : Option String := none
  field : Option FieldTest := none
  limit : Limit := some .trace
deriving DecidableEq, Repr

/-- A list of rules. -/
abbrev Filter := List Rule

/-- A limit by the number of its level. -/
def limitNumbered? (n : Nat) : Option Limit :=
  if n = 0 then some none
  else ([Level.error, .warn, .info, .debug, .trace].find? fun l => l.rank = n).map some

/-- A limit by its name, in any case, or by its number. -/
def limitNamed? (text : String) : Option Limit :=
  let digits := match text.toList with | '+' :: cs => cs | cs => cs
  if digits ≠ [] ∧ digits.all Char.isDigit then limitNumbered? (Nat.ofDigitChars 10 digits 0)
  else
    let name := String.ofList (text.toList.map Char.toUpper)
    if name = "" then some (some .error)
    else if name = "OFF" then some none
    else ([Level.error, .warn, .info, .debug, .trace].find? fun l => l.name = name).map some

/-- A character that a rule may start with, apart from a bracket. -/
def startsRule (c : Char) : Bool :=
  c = '-' || c = ':' || c = '_' || Text.isLetterOrNumeric c

/-- The limit behind an equals sign; without a name it lets all pass. -/
def limitAfter? (cs : List Char) : Option Limit :=
  if cs.isEmpty then some (some .trace) else limitNamed? (String.ofList cs)

/-- The characters before the first one that passes a test, if there is one,
and those from it on. -/
def splitBefore? (p : Char → Bool) (cs : List Char) : Option (List Char × Char × List Char) :=
  match cs.dropWhile (!p ·) with
  | [] => none
  | c :: rest => some (cs.takeWhile (!p ·), c, rest)

/-- Reads the field of a rule. -/
def FieldTest.parse? (cs : List Char) : Option FieldTest :=
  match Text.split (· = '=') cs with
  | name :: value :: _ =>
    if Pattern.isPattern value then some { name := String.ofList name, hasValue := true } else none
  | _ => if cs.isEmpty then none else some { name := String.ofList cs }

/-- Reads what follows the bracket that closes the span of a rule: nothing, or
a level. `place` is the place behind the bracket, in bytes, where `rest` begins
in the trimmed text. -/
def Rule.readLevel? (r : Rule) (text : List Char) (place : Nat) : List Char → Option Rule
  | [] => some r
  | '=' :: _ => (limitAfter? (Text.dropBytes (place + 1) text)).map fun limit => { r with limit }
  | _ => none

/-- Reads a rule from behind the bracket that opens its span. -/
def Rule.readSpan? (r : Rule) (text : List Char) (place : Nat) (rest : List Char) :
    Option Rule := do
  let (span, sign, rest) ← splitBefore? (fun c => c = ']' || c = '\x7b') rest
  let stop := place + Text.width span
  let name := String.ofList (Text.sliceBytes place stop text)
  if sign = ']' then Rule.readLevel? { r with span := some name } text (stop + 1) rest
  else
    let (field, _, rest) ← splitBefore? (· = '\x7d') rest
    let start := stop + 1
    let stop := start + Text.width field
    let test ← FieldTest.parse? (Text.sliceBytes start stop text)
    match rest with
    | ']' :: rest =>
      let span := if name = "" then none else some name
      Rule.readLevel? { r with span, field := some test } text (stop + 2) rest
    | _ => none

/-- Reads one rule. The signs are looked for in the trimmed text, and what is
between them is then cut out of the whole text as many bytes from its start:
blanks in front shift the parts, and blanks behind belong to the last one. -/
def Rule.parse? (s : String) : Option Rule :=
  let text := s.toList
  let trimmed := Text.trim text
  match trimmed with
  | [] => none
  | '[' :: rest => Rule.readSpan? {} text 1 rest
  | c :: _ =>
    if !startsRule c then none
    else
      match splitBefore? (fun c => c = '=' || c = '[') trimmed with
      | none =>
        match limitNamed? s with
        | some limit => some { limit }
        | none => some { target := some s }
      | some (head, sign, rest) =>
        let stop := Text.width head
        let target := some (String.ofList (Text.takeBytes stop text))
        if sign = '[' then Rule.readSpan? { target } text (stop + 1) rest
        else (limitAfter? (Text.dropBytes (stop + 1) text)).map fun limit => { target, limit }

/-- Reads a filter. One without rules lets errors pass. -/
def Filter.parse? (text : String) : Option Filter := do
  let rules ← (Text.splitString (· = ',') text).mapM Rule.parse?
  pure (if rules.isEmpty then [{ limit := some .error }] else rules)

/-- The rule applies to an event. Every event has a message. -/
def Rule.appliesTo (r : Rule) (e : Event) : Bool :=
  r.span.isNone && (r.target.getD "").toList.isPrefixOf e.target.toList &&
    match r.field with
    | none => true
    | some f => !f.hasValue && (f.name = "message" || e.fields.any (·.1 = f.name))

/-- How much of a target a rule names; a rule without a target names less
than any other. -/
def Rule.weight (r : Rule) : Nat :=
  match r.target with
  | none => 0
  | some t => t.utf8ByteSize + 1

/-- The name of the field a rule asks for. -/
def Rule.fieldName (r : Rule) : String :=
  match r.field with
  | none => ""
  | some f => f.name

/-- The second of two rules that apply to the same event decides about it: it
names more of the target, or as much of it and a field that does not come
before that of the first in the alphabet. -/
def Rule.yieldsTo (a b : Rule) : Bool :=
  a.weight < b.weight || a.weight = b.weight && a.fieldName ≤ b.fieldName

/-- The rule that decides about an event: the most specific of those that
apply, and of several such the last. -/
def Filter.ruleFor (f : Filter) (e : Event) : Option Rule :=
  f.foldl (fun best r =>
    if r.appliesTo e then
      match best with
      | some b => if b.yieldsTo r then some r else best
      | none => some r
    else best) none

/-- The filter lets an event be logged. -/
def Filter.enables (f : Filter) (e : Event) : Bool :=
  match f.ruleFor e with
  | some r => Limit.admits r.limit e.level
  | none => false

/-- The level that a number of `-v` asks for. -/
def verbosityLevel : Nat → Level
  | 0 => .warn
  | 1 => .info
  | 2 => .debug
  | _ => .trace

/-- The name of that level. -/
def verbosityName (verbosity : Nat) : String :=
  String.ofList ((verbosityLevel verbosity).name.toList.map Char.toLower)

/-- The filter of a filter text, if it can be read, and else that of a number
of `-v`. -/
def Filter.choose (text : Option String) (verbosity : Nat) : Filter :=
  match text.bind Filter.parse? with
  | some f => f
  | none => [{ limit := some (verbosityLevel verbosity) }]

end SchemaTypes.Log
