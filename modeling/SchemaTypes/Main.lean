/-
# The program

Runs the command on the files and streams of the process.
-/
import SchemaTypes.Command.Run

namespace SchemaTypes

/-- What the system says about a failure. -/
def FileFault.ofError : IO.Error → FileFault
  | .noFileOrDirectory .. => .notFound
  | .noSuchThing .. => .notFound
  | e => .other (toString e)

/-- An action whose failure is a value. -/
def attempt {α : Type} (act : IO α) : IO (Except FileFault α) := do
  match ← act.toBaseIO with
  | .ok a => pure (.ok a)
  | .error e => pure (.error (.ofError e))

/-- The text of bytes that are read by an action. -/
def attemptText (act : IO ByteArray) : IO (Except FileFault String) := do
  match ← attempt act with
  | .ok bytes => pure (textOfBytes bytes)
  | .error e => pure (.error e)

/-- The bytes of a stream up to its end. -/
partial def readAll (stream : IO.FS.Stream) (done : ByteArray) : IO ByteArray := do
  let bytes ← stream.read 65536
  if bytes.isEmpty then pure done else readAll stream (done ++ bytes)

/-- The host that works on the process. -/
def processHost : Host IO where
  isFile path := do
    match ← attempt (IO.FS.Handle.mk path .read >>= fun h => h.read 1) with
    | .ok _ => pure true
    | .error _ => pure false
  read path := attemptText (IO.FS.readBinFile path)
  readInput := do attemptText (readAll (← IO.getStdin) .empty)
  write path text := attempt (IO.FS.writeFile path text)
  print text := do
    let out ← IO.getStdout
    out.putStr text
    out.flush
  note line := IO.eprintln line
  log line := IO.eprintln line

end SchemaTypes

/-- Runs the command; the filter of the log is in the environment. -/
def main (args : List String) : IO UInt32 := do
  let filterText ← IO.getEnv "SCHEMATS_LOG"
  let code ← SchemaTypes.Command.start SchemaTypes.processHost args filterText
  pure (UInt32.ofNat code)
