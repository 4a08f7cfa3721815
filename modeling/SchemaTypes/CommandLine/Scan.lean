/-
# Scanning a command line

An invocation is what a command line asks for: it names the input and, if the
user gave them, the output, the format, the configuration file and the choices
that go before configured ones. Each choice given on the command line replaces
the configured one; the others stay.

Words are taken from left to right. A word that starts with two dashes is an
option by its long name, with a value behind an equals sign if it has one; a
word that starts with one dash is a cluster of options by their letters, the
last of which may have the rest of the word as its value; a lone `--` ends
the options. Any other word is the value of the option before it, if that
waits for one, and else an operand.

A value given in a word of its own, and the operand, are only noted at first.
They are looked at when the next known option comes, or at the end: so an
unknown option behind a bad value is what is reported.

Key definitions: `Invocation`, `Invocation.settings`, `Invocation.Fault`,
`CommandLine.Scan`, `CommandLine.Scan.word`, `Invocation.parse`.
-/
import SchemaTypes.Document.Read
import SchemaTypes.Settings

namespace SchemaTypes

/-- What a command line asks for. -/
structure Invocation where
  input : String
  output : Option String := none
  format : Document.Format := .auto
  config : Option String := none
  namePrefix : Option String := none
  inlineRefs : Bool := false
  noExport : Bool := false
  typedAliases : Bool := false
  /-- How often more log output was asked for, up to 255. -/
  verbosity : Nat := 0
deriving DecidableEq, Repr

/-- Why a command line is not accepted, or what it asks for instead of a
run. -/
inductive Invocation.Fault where
  /-- An option that does not exist, or one operand too many. -/
  | unknownArgument
  /-- An option without its value, or a value it does not take. -/
  | invalidValue
  /-- An option given twice. -/
  | argumentConflict
  /-- No input. -/
  | missingArgument
  /-- A value for an option that takes none. -/
  | tooManyValues
  | displayHelp
  | displayVersion
deriving DecidableEq, Repr

/-- What is wrong with a command line. -/
def Invocation.Fault.message : Invocation.Fault → String
  | .unknownArgument => "unexpected argument"
  | .invalidValue => "a value is missing or not valid"
  | .argumentConflict => "an option is given more than once"
  | .missingArgument => "the input is not given"
  | .tooManyValues => "an option takes no value"
  | .displayHelp => "help is asked for"
  | .displayVersion => "the version is asked for"

/-- The configured settings under the choices of the command line. -/
def Invocation.settings (v : Invocation) (configured : Settings) : Settings :=
  { namePrefix := v.namePrefix.getD configured.namePrefix
    inlineRefs := v.inlineRefs || configured.inlineRefs
    exported := !v.noExport && configured.exported
    typedAliases := v.typedAliases || configured.typedAliases }

/-! ### The scan -/

namespace CommandLine

open Invocation (Fault)

/-- An option that takes a value. -/
inductive ValueOption where
  | output
  | format
  | config
  | namePrefix
deriving DecidableEq, Repr

/-- An option that is given or not. -/
inductive Switch where
  | inlineRefs
  | noExport
  | typedAliases
deriving DecidableEq, Repr

/-- An option. -/
inductive Arg where
  | valued (o : ValueOption)
  | switch (s : Switch)
  | verbose
  | help
  | version
deriving DecidableEq, Repr

/-- The option of a long name. -/
def longOption? (name : List Char) : Option Arg :=
  if name = "output".toList then some (.valued .output)
  else if name = "format".toList then some (.valued .format)
  else if name = "config".toList then some (.valued .config)
  else if name = "prefix".toList then some (.valued .namePrefix)
  else if name = "inline-ref".toList then some (.switch .inlineRefs)
  else if name = "no-export".toList then some (.switch .noExport)
  else if name = "typed-aliases".toList then some (.switch .typedAliases)
  else if name = "verbose".toList then some .verbose
  else if name = "help".toList then some .help
  else if name = "version".toList then some .version
  else none

/-- The option of a letter. -/
def shortOption? (c : Char) : Option Arg :=
  if c = 'o' then some (.valued .output)
  else if c = 'f' then some (.valued .format)
  else if c = 'c' then some (.valued .config)
  else if c = 'v' then some .verbose
  else if c = 'h' then some .help
  else if c = 'V' then some .version
  else none

/-- What was only noted so far. -/
inductive Noted where
  | operand (word : String)
  /-- An option and its value, if a word with the value has come. -/
  | valued (o : ValueOption) (value : Option String)
deriving DecidableEq, Repr

/-- How far a command line has been taken. -/
structure Scan where
  input : Option String := none
  output : Option String := none
  format : Option Document.Format := none
  config : Option String := none
  namePrefix : Option String := none
  inlineRefs : Bool := false
  noExport : Bool := false
  typedAliases : Bool := false
  verbosity : Nat := 0
  noted : Option Noted := none
  /-- An operand has come. -/
  hasOperand : Bool := false
  /-- The options have ended. -/
  optionsEnded : Bool := false
deriving DecidableEq, Repr

namespace Scan

/-- A path is any text but the empty one. -/
def path (value : String) : Except Fault String :=
  if value = "" then .error .invalidValue else .ok value

/-- The format of a name. -/
def formatNamed (value : String) : Except Fault Document.Format :=
  if value = "auto" then .ok .auto
  else if value = "json" then .ok .json
  else if value = "yaml" then .ok .yaml
  else .error .invalidValue

/-- A place that may be filled once is still free. -/
def free {α : Type} (place : Option α) : Except Fault Unit :=
  if place.isSome then .error .argumentConflict else .ok ()

/-- Gives an option its value. -/
def setValue (s : Scan) (value : String) : ValueOption → Except Fault Scan
  | .output => do free s.output; pure { s with output := some (← path value) }
  | .format => do free s.format; pure { s with format := some (← formatNamed value) }
  | .config => do free s.config; pure { s with config := some (← path value) }
  | .namePrefix => do free s.namePrefix; pure { s with namePrefix := some value }

/-- Takes in what was noted. -/
def settle (s : Scan) : Except Fault Scan :=
  match s.noted with
  | none => .ok s
  | some (.operand word) => do pure { s with noted := none, input := some (← path word) }
  | some (.valued _ none) => .error .invalidValue
  | some (.valued o (some value)) => setValue { s with noted := none } value o

/-- Sets a switch. -/
def setSwitch (s : Scan) : Switch → Except Fault Scan
  | .inlineRefs =>
    if s.inlineRefs then .error .argumentConflict else .ok { s with inlineRefs := true }
  | .noExport =>
    if s.noExport then .error .argumentConflict else .ok { s with noExport := true }
  | .typedAliases =>
    if s.typedAliases then .error .argumentConflict else .ok { s with typedAliases := true }

/-- An option that takes no value. -/
def plain (s : Scan) : Arg → Except Fault Scan
  | .switch w => do (← s.settle).setSwitch w
  | .verbose => do
    let s ← s.settle
    pure { s with verbosity := min 255 (s.verbosity + 1) }
  | .help => do
    let _ ← s.settle
    throw .displayHelp
  | .version => do
    let _ ← s.settle
    throw .displayVersion
  | .valued _ => .error .invalidValue

/-- An option with the value it came with, or one that waits for its value. -/
def valued (s : Scan) (o : ValueOption) : Option String → Except Fault Scan
  | some value => do (← s.settle).setValue value o
  | none => do pure { (← s.settle) with noted := some (.valued o none) }

/-- An option by its long name, perhaps with a value. -/
def long (s : Scan) (name : List Char) (value : Option String) : Except Fault Scan :=
  match longOption? name with
  | none => .error .unknownArgument
  | some (.valued o) => s.valued o value
  | some a => if value.isSome then .error .tooManyValues else s.plain a

/-- The rest of a cluster as a value: behind an equals sign, or all of it. -/
def attached : List Char → Option String
  | [] => none
  | '=' :: cs => some (String.ofList cs)
  | cs => some (String.ofList cs)

/-- A cluster of options by their letters. -/
def cluster (s : Scan) : List Char → Except Fault Scan
  | [] => .ok s
  | c :: cs =>
    match shortOption? c with
    | none => .error .unknownArgument
    | some (.valued o) => s.valued o (attached cs)
    | some a => do (← s.plain a).cluster cs

/-- An operand; there is only one. -/
def operand (s : Scan) (word : String) : Except Fault Scan :=
  if s.hasOperand then .error .unknownArgument
  else do pure { (← s.settle) with noted := some (.operand word), hasOperand := true }

/-- A word that is no option: the value an option waits for, or an operand. -/
def bare (s : Scan) (word : String) : Except Fault Scan :=
  match s.noted with
  | some (.valued o none) => .ok { s with noted := some (.valued o (some word)) }
  | _ => s.operand word

/-- The value behind the first equals sign. -/
def valueAfter (cs : List Char) : Option String :=
  match cs.dropWhile (· ≠ '=') with
  | [] => none
  | _ :: value => some (String.ofList value)

/-- Takes one word. -/
def word (s : Scan) (w : String) : Except Fault Scan :=
  if s.optionsEnded then s.operand w
  else
    match w.toList with
    | ['-', '-'] => .ok { s with optionsEnded := true }
    | '-' :: '-' :: cs => s.long (cs.takeWhile (· ≠ '=')) (valueAfter cs)
    | ['-'] => s.bare w
    | '-' :: cs => s.cluster cs
    | _ => s.bare w

/-- Takes words from left to right. -/
def words (s : Scan) : List String → Except Fault Scan
  | [] => .ok s
  | w :: ws => do (← s.word w).words ws

/-- The invocation of a command line that has been taken to its end. -/
def finish (s : Scan) : Except Fault Invocation := do
  let s ← s.settle
  match s.input with
  | none => throw .missingArgument
  | some input =>
    pure
      { input
        output := s.output
        format := s.format.getD .auto
        config := s.config
        namePrefix := s.namePrefix
        inlineRefs := s.inlineRefs
        noExport := s.noExport
        typedAliases := s.typedAliases
        verbosity := s.verbosity }

end Scan

end CommandLine

/-- What the words of a command line ask for. -/
def Invocation.parse (args : List String) : Except Invocation.Fault Invocation := do
  (← CommandLine.Scan.words {} args).finish

end SchemaTypes
