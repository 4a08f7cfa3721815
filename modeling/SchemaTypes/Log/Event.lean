/-
# The log

What the program reports while it works: references that do not resolve or
come back to where they started, every declaration it writes, how many it is
about to write, and the configuration file it found by itself. An event has a
level, a target by which logs are filtered, a message, and fields.

A logged value carries the events met with references while it was made, in
order.

Key definitions: `ReferenceEvent`, `Logged`, `Logged.map`, `Logged.cons`,
`Log.Level`, `Log.Event`, `Log.Event.line`.
-/
import SchemaTypes.Text.Quoted

namespace SchemaTypes

/-- What there is to report about a reference. -/
inductive ReferenceEvent where
  /-- The target is not in the catalog; the reference is kept by name. -/
  | unknown (reference : String)
  /-- The target is being expanded; the reference is kept by name. -/
  | cycle (reference : String)
  /-- The target is not in the catalog; the reference becomes an empty
  object. -/
  | unknownExpanded (reference : String)
deriving DecidableEq, Repr

/-- A value and the events of its making, in order. -/
structure Logged (α : Type) where
  value : α
  events : List ReferenceEvent := []
deriving Repr

namespace Logged

variable {α β : Type}

/-- The value under a function, made of the same events. -/
def map (f : α → β) (x : Logged α) : Logged β :=
  ⟨f x.value, x.events⟩

/-- A value in front of others, its events before theirs. -/
def cons (x : Logged α) (xs : Logged (List α)) : Logged (List α) :=
  ⟨x.value :: xs.value, x.events ++ xs.events⟩

@[simp] theorem value_map (f : α → β) (x : Logged α) : (x.map f).value = f x.value := rfl

@[simp] theorem events_map (f : α → β) (x : Logged α) : (x.map f).events = x.events := rfl

@[simp] theorem value_cons (x : Logged α) (xs : Logged (List α)) :
    (x.cons xs).value = x.value :: xs.value := rfl

@[simp] theorem events_cons (x : Logged α) (xs : Logged (List α)) :
    (x.cons xs).events = x.events ++ xs.events := rfl

end Logged

/-! ### Events and their lines -/

namespace Log

/-- The levels of events, the gravest first. -/
inductive Level where
  | error
  | warn
  | info
  | debug
  | trace
deriving DecidableEq, Repr

/-- The place of a level, counted from the gravest. -/
def Level.rank : Level → Nat
  | .error => 1
  | .warn => 2
  | .info => 3
  | .debug => 4
  | .trace => 5

/-- The name of a level in a log line. -/
def Level.name : Level → String
  | .error => "ERROR"
  | .warn => "WARN"
  | .info => "INFO"
  | .debug => "DEBUG"
  | .trace => "TRACE"

/-- Something to report. -/
inductive Event where
  | reference (event : ReferenceEvent)
  | emitting (name kind : String)
  | generating (schemas : Nat)
  | usingConfig (path : String)
deriving DecidableEq, Repr

namespace Event

/-- The level of an event. -/
def level : Event → Level
  | .reference (.cycle _) => .debug
  | .reference _ => .warn
  | .emitting .. => .debug
  | .generating _ => .info
  | .usingConfig _ => .debug

/-- The part of the program an event comes from. -/
def target : Event → String
  | .reference _ => "schemats_typegen::mapper"
  | .emitting .. => "schemats_typegen::output::typescript"
  | .generating _ => "schemats::cli"
  | .usingConfig _ => "schemats::config"

/-- What has happened. -/
def message : Event → String
  | .reference (.unknown _) => "reference to unknown schema"
  | .reference (.cycle _) => "reference cycle, keeping named reference"
  | .reference (.unknownExpanded _) => "reference to unknown schema, expanding to empty object"
  | .emitting .. => "emitting declaration"
  | .generating _ => "generating declarations"
  | .usingConfig _ => "using config file"

/-- To what it has happened: names and texts as a log line writes them. -/
def fields : Event → List (String × String)
  | .reference (.unknown r) | .reference (.cycle r) | .reference (.unknownExpanded r) =>
    [("reference", Text.shown r)]
  | .emitting name kind => [("name", Text.shown name), ("kind", Text.shown kind)]
  | .generating n => [("schemas", toString n)]
  | .usingConfig path => [("path", path)]

/-- The log line of an event. -/
def line (e : Event) : String :=
  e.level.name ++ " " ++ e.message ++
    String.join (e.fields.map fun f => " " ++ f.1 ++ "=" ++ f.2)

end Event
end Log
end SchemaTypes
