/-
# What a command works on

A command reads and writes files, reads its standard input, prints its result
and writes notes and log lines beside it. A host says how each of these is
done. The pure host does them on a world: a tree of files, an input, and what
has been written so far.

Key definitions: `Host`, `World`, `World.host`.
-/
import SchemaTypes.FileTree

namespace SchemaTypes

/-- How a command reads and writes. -/
structure Host (m : Type → Type) where
  /-- There is a file at the path. -/
  isFile : String → m Bool
  read : String → m (Except FileFault String)
  readInput : m (Except FileFault String)
  write : (path text : String) → m (Except FileFault Unit)
  print : String → m Unit
  /-- Writes a line for the user beside the output. -/
  note : String → m Unit
  /-- Writes a line of the log. -/
  log : String → m Unit

/-- All that a command can see and change. -/
structure World where
  tree : FileTree := {}
  input : ByteArray := .empty
  printed : String := ""
  notes : List String := []
  logged : List String := []

namespace World

/-- Writes a text into a file, if that can be done. -/
def write (w : World) (path text : String) : Except FileFault Unit × World :=
  match w.tree.write path text with
  | .ok tree => (.ok (), { w with tree })
  | .error e => (.error e, w)

/-- The host that works on a world. -/
def host : Host (StateM World) where
  isFile path := do pure ((← get).tree.isFile path)
  read path := do pure ((← get).tree.read path)
  readInput := do pure (textOfBytes (← get).input)
  write path text := fun w => w.write path text
  print text := modify fun w => { w with printed := w.printed ++ text }
  note line := modify fun w => { w with notes := w.notes ++ [line] }
  log line := modify fun w => { w with logged := w.logged ++ [line] }

end World
end SchemaTypes
