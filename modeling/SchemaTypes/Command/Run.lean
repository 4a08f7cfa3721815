/-
# Running the command

A run loads the configuration, reads the input, takes the catalog out of it,
writes the declarations and delivers them, in this order; the first failure
ends it, and nothing is delivered before all else is done. The configuration
is the file asked for, or the usual one if it is there. The output is the
module text and a line feed, or nothing at all if that text is empty.

A run fails when the configuration, the input or the document in it cannot be
read, or the output cannot be written. The message names the path and goes on
to the cause.

Key definitions: `Command.Fault`, `Command.Fault.message`, `Command.run`,
`Command.start`.
-/
import SchemaTypes.Command.Host
import SchemaTypes.CommandLine.Scan
import SchemaTypes.Configuration
import SchemaTypes.Declaration.Emit
import SchemaTypes.Log.Filter

namespace SchemaTypes.Command

/-! ### Runs that fail -/

/-- Why a run fails. -/
inductive Fault where
  | readConfig (path : String) (cause : FileFault)
  | parseConfig (path : String) (cause : Configuration.Fault)
  | readFile (path : String) (cause : FileFault)
  | readInput (cause : FileFault)
  | parse (path : String) (cause : Document.Fault)
  | write (path : String) (cause : FileFault)
deriving Repr

/-- The message of a fault and of what is behind it. -/
def Fault.message : Fault → String
  | .readConfig path e => "Failed to read config " ++ path ++ ": " ++ e.message
  | .parseConfig path e => "Failed to parse config " ++ path ++ ": " ++ e.message
  | .readFile path e => "Failed to read " ++ path ++ ": " ++ e.message
  | .readInput e => "Failed to read stdin: " ++ e.message
  | .parse path e =>
    "Failed to parse " ++ path ++ ": " ++ ": ".intercalate (e.message :: e.cause?.toList)
  | .write path e => "Failed to write " ++ path ++ ": " ++ e.message

/-! ### The stages of a run -/

variable {m : Type → Type} [Monad m]

/-- The path of the configuration that is used without being asked for. -/
def usualConfig : String := "./schemats.toml"

/-- The path that stands for the standard input. -/
def inputSign : String := "-"

/-- Logs an event if the filter lets it. -/
def report (h : Host m) (filter : Log.Filter) (e : Log.Event) : ExceptT Fault m Unit := do
  if filter.enables e then h.log e.line

/-- The settings of a configuration file. -/
def loadSettings (h : Host m) (path : String) : ExceptT Fault m Settings := do
  match ← h.read path with
  | .error e => throw (.readConfig path e)
  | .ok text =>
    match Configuration.read text with
    | .error e => throw (.parseConfig path e)
    | .ok o => pure o

/-- The configured settings. -/
def settings (h : Host m) (filter : Log.Filter) (v : Invocation) : ExceptT Fault m Settings := do
  match v.config with
  | some path => loadSettings h path
  | none =>
    if ← h.isFile usualConfig then
      report h filter (.usingConfig usualConfig)
      loadSettings h usualConfig
    else pure {}

/-- The text of the input. -/
def inputText (h : Host m) (v : Invocation) : ExceptT Fault m String := do
  if v.input = inputSign then
    match ← h.readInput with
    | .error e => throw (.readInput e)
    | .ok text => pure text
  else
    match ← h.read v.input with
    | .error e => throw (.readFile v.input e)
    | .ok text => pure text

/-- What is delivered for a module text. -/
def output (moduleText : String) : String :=
  if moduleText = "" then "" else moduleText ++ "\n"

/-- Writes the output into its file, or prints it. -/
def deliver (h : Host m) (v : Invocation) (text : String) : ExceptT Fault m Unit := do
  match v.output with
  | none => h.print text
  | some path =>
    match ← h.write path text with
    | .error e => throw (.write path e)
    | .ok () => h.note ("Generated " ++ path)

/-- Runs the command. -/
def run (h : Host m) (filter : Log.Filter) (v : Invocation) : ExceptT Fault m Unit := do
  let o := v.settings (← settings h filter v)
  let text ← inputText h v
  match Document.read text v.format with
  | .error e => throw (.parse v.input e)
  | .ok c =>
    report h filter (.generating c.size)
    for e in c.moduleLog o do report h filter e
    deliver h v (output (c.moduleText o))

/-- The version of the program. -/
def versionText : String := "schemats 0.1.0\n"

/-- How the program is used. -/
def usage : String :=
  "Generate TypeScript declarations from OpenAPI component schemas\n\n" ++
  "Usage: schemats [OPTIONS] <INPUT>\n\n" ++
  "Arguments:\n" ++
  "  <INPUT>  OpenAPI document (JSON or YAML), use - for stdin\n\n" ++
  "Options:\n" ++
  "  -o, --output <OUTPUT>  Output file (stdout if not specified)\n" ++
  "  -f, --format <FORMAT>  Input format: auto, json or yaml\n" ++
  "  -c, --config <CONFIG>  Config file (defaults to ./schemats.toml when present)\n" ++
  "      --prefix <PREFIX>  Prefix for every declared type name\n" ++
  "      --inline-ref       Expand $refs into inline types instead of naming them\n" ++
  "      --no-export        Omit the 'export' keyword\n" ++
  "      --typed-aliases    Keep the mapped type for schemas that would otherwise alias 'any'\n" ++
  "  -v, --verbose...       Increase log verbosity (-v info, -vv debug)\n" ++
  "  -h, --help             Print help\n" ++
  "  -V, --version          Print version\n"

/-- Runs the command for a command line and a filter text, and gives its exit
code: 2 for a command line that is not accepted, 1 for a run that fails. -/
def start (h : Host m) (args : List String) (filterText : Option String) : m Nat := do
  match Invocation.parse args with
  | .error .displayHelp => h.print usage; pure 0
  | .error .displayVersion => h.print versionText; pure 0
  | .error e => h.note ("error: " ++ e.message); pure 2
  | .ok v =>
    match ← (run h (.choose filterText v.verbosity) v).run with
    | .ok () => pure 0
    | .error e => h.note ("Error: " ++ e.message); pure 1

end SchemaTypes.Command
