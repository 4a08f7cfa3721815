/-
# A tree of files

Files and folders around a working folder. A path goes from folder to folder
by the names in it and ends at a place, where there may be a file, a folder or
nothing yet; a path through something that is no folder leads nowhere. The
folders above the working folder are there; of what else is in them only what
has been added is known. A name has at most 255 bytes and a path at most 4095.

The working folder has no name as seen from above. A path that goes up and comes
down again by a name, such as `../work/api.json`, and an absolute path lead to
places of their own, and never to the place of `api.json`, whatever the folder is
called. Nor are there links from one place to another, and every file may be
read and written.

Key definitions: `FileTree`, `FileTree.locate`, `FileTree.read`,
`FileTree.write`.
-/
import SchemaTypes.Entries
import SchemaTypes.Text.Parts

namespace SchemaTypes

/-- Why a file cannot be read or written. -/
inductive FileFault where
  | notFound
  | notFolder
  | isFolder
  | nameTooLong
  /-- The bytes are no UTF-8. -/
  | notText
  /-- Any other failure, in the words of the system. -/
  | other (message : String)
deriving DecidableEq, Repr

/-- The message of a fault. -/
def FileFault.message : FileFault → String
  | .notFound => "No such file or directory (os error 2)"
  | .notFolder => "Not a directory (os error 20)"
  | .isFolder => "Is a directory (os error 21)"
  | .nameTooLong => "File name too long (os error 36)"
  | .notText => "stream did not contain valid UTF-8"
  | .other message => message

/-- The text of bytes. -/
def textOfBytes (bytes : ByteArray) : Except FileFault String :=
  match String.fromUTF8? bytes with
  | some text => .ok text
  | none => .error .notText

/-- A place in a tree: names from the working folder down, or up from it as
long as they are two dots. The root has a slash as its name. -/
abbrev Place := List String

namespace Place

/-- The name of the root. -/
def rootName : String := "/"

/-- A place that is not below the working folder. -/
def isAbove (p : Place) : Bool :=
  p = [rootName] || p.all (· = "..")

/-- The folder around a place; the root is its own. -/
def up (p : Place) : Place :=
  if p = [rootName] then p
  else if p.all (· = "..") then p ++ [".."]
  else p.dropLast

/-- The place of a name in a folder. -/
def step (p : Place) (name : String) : Place :=
  if name = "." then p else if name = ".." then p.up else p ++ [name]

/-- The names of a place with slashes between. -/
def text (p : Place) : String :=
  "/".intercalate p

end Place

/-- Files by the texts of their places, and the places of folders. -/
structure FileTree where
  files : Entries ByteArray := []
  folders : List Place := []

namespace FileTree

/-- There is a folder at the place. -/
def isFolderAt (t : FileTree) (p : Place) : Bool :=
  p.isAbove || t.folders.contains p

/-- The place itself, if a path may go on from it. -/
def enter (t : FileTree) (p : Place) : Except FileFault Place :=
  if t.isFolderAt p then .ok p
  else if (Entries.find? p.text t.files).isSome then .error .notFolder
  else .error .notFound

/-- The greatest number of bytes in a name. -/
def longestName : Nat := 255

/-- The greatest number of bytes in a path. -/
def longestPath : Nat := 4095

/-- The place of a name in a folder, unless the name is too long. -/
def next (p : Place) (name : String) : Except FileFault Place :=
  if longestName < name.utf8ByteSize then .error .nameTooLong else .ok (p.step name)

/-- The place that names lead to from a folder. -/
def walk (t : FileTree) (p : Place) : List String → Except FileFault Place
  | [] => .ok p
  | [name] => next p name
  | name :: names => do t.walk (← t.enter (← next p name)) names

/-- The place that a path leads to. -/
def locate (t : FileTree) (path : String) : Except FileFault Place :=
  if longestPath < path.utf8ByteSize then .error .nameTooLong
  else
    t.walk (if path.toList.head? = some '/' then [Place.rootName] else [])
      (Text.splitString (· = '/') path)

/-- The path asks for a folder, by a slash at its end. -/
def asksForFolder (path : String) : Bool :=
  path.toList.getLast? = some '/'

/-- The bytes of the file at a path. -/
def bytesAt (t : FileTree) (path : String) : Except FileFault ByteArray := do
  let p ← t.locate path
  if t.isFolderAt p then throw .isFolder
  match Entries.find? p.text t.files with
  | none => throw .notFound
  | some bytes => if asksForFolder path then throw .notFolder else pure bytes

/-- There is a file at a path. -/
def isFile (t : FileTree) (path : String) : Bool :=
  (t.bytesAt path).isOk

/-- The text of the file at a path. -/
def read (t : FileTree) (path : String) : Except FileFault String := do
  textOfBytes (← t.bytesAt path)

/-- The tree with a text in the file at a path. -/
def write (t : FileTree) (path text : String) : Except FileFault FileTree := do
  let p ← t.locate path
  if t.isFolderAt p || asksForFolder path then throw .isFolder
  pure { t with files := Entries.put p.text text.toUTF8 t.files }

/-- The tree with a folder at a place, and all folders around it. -/
def addFolder (t : FileTree) (p : Place) : FileTree :=
  { t with folders := (List.range (p.length + 1)).map p.take ++ t.folders }

/-- The tree with a file at a place, and all folders around it. -/
def addFile (t : FileTree) (p : Place) (bytes : ByteArray) : FileTree :=
  { (t.addFolder p.dropLast) with files := Entries.put p.text bytes t.files }

end FileTree
end SchemaTypes
