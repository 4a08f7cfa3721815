/-
# Reading TOML text

A text is a sequence of headers and assignments, each on a line of its own,
with blank lines and comments between them. Arrays may go over lines and may
end with a comma; inline tables may not. At most 79 arrays and inline tables
may be open at a time, and a key has at most 79 parts.

Key definitions: `Toml.Statement`, `Toml.statements`, `Toml.parse?`.
-/
import SchemaTypes.Toml.Scalar

namespace SchemaTypes.Toml

/-! ### Keys -/

/-- A character of a key without quotes. -/
def isKeyChar (c : Char) : Bool :=
  c.isAlphanum || c = '-' || c = '_'

/-- One part of a key. -/
def keyPart : Reader String := fun cs =>
  match cs.takeWhile isKeyChar with
  | [] => (lineString cs).map fun p => (String.ofList p.1, p.2)
  | letters => some (String.ofList letters, cs.dropWhile isKeyChar)

/-- A key of at most so many parts, and the blanks around it. -/
def keyParts : Nat → Reader (List String)
  | 0, _ => none
  | n + 1, cs => do
    let (k, cs) ← keyPart (skipBlanks cs)
    match skipBlanks cs with
    | '.' :: cs =>
      let (ks, cs) ← keyParts n cs
      pure (k :: ks, cs)
    | cs => pure ([k], cs)

/-- How many parts a key may have, and how many arrays and inline tables may
be open at a time. -/
def maxDepth : Nat := 79

/-- A key: the parts in front of the last, and the last. -/
def key : Reader (List String × String) := fun cs => do
  let (ks, cs) ← keyParts maxDepth cs
  pure ((ks.dropLast, ← ks.getLast?), cs)

/-! ### Values -/

/-- A key, an equals sign and a value. -/
def assignment (value : Reader Node) : Reader ((List String × String) × Node) := fun cs => do
  let (k, cs) ← key cs
  match cs with
  | '=' :: cs =>
    let (v, cs) ← value (skipBlanks cs)
    pure ((k, v), cs)
  | _ => none

/-- The items of an array behind its opening bracket. The number bounds the
items: a text has fewer of them than characters. -/
def items (value : Reader Node) : Nat → Reader (List Node)
  | 0, _ => none
  | n + 1, cs =>
    match skipGap false cs with
    | ']' :: cs => some ([], cs)
    | cs => do
      let (v, cs) ← value cs
      match skipGap false cs with
      | ',' :: cs =>
        let (vs, cs) ← items value n cs
        pure (v :: vs, cs)
      | ']' :: cs => pure ([v], cs)
      | _ => none

/-- The assignments of an inline table from its first one on, bounded in the
same way. -/
def pairs (value : Reader Node) : Nat → Table → Reader Table
  | 0, _, _ => none
  | n + 1, t, cs => do
    let (((path, k), v), cs) ← assignment value cs
    let t ← Table.assign k v path t
    match skipBlanks cs with
    | ',' :: cs => pairs value n t cs
    | '\x7d' :: cs => pure (t, cs)
    | _ => none

/-- A value. `inner` reads the values inside it; without one no array or
inline table may be opened any more. -/
def valueWith (inner : Option (Reader Node)) : Reader Node := fun cs =>
  match cs with
  | [] => none
  | '[' :: cs => do
    let (vs, cs) ← items (← inner) (cs.length + 1) cs
    pure (.array vs, cs)
  | '\x7b' :: cs =>
    match inner, skipBlanks cs with
    | none, _ => none
    | some _, '\x7d' :: cs => some (.table .inline [], cs)
    | some value, cs => do
      let (t, cs) ← pairs value (cs.length + 1) [] cs
      pure (.table .inline t, cs)
  | c :: rest =>
    if c = '"' || c = '\'' then
      (string (c :: rest)).map fun p => (.string (String.ofList p.1), p.2)
    else scalar (c :: rest)

/-- A value in which at most `depth` arrays and inline tables are open at a
time. -/
def value : Nat → Reader Node
  | 0 => valueWith none
  | depth + 1 => valueWith (some (value depth))

/-! ### Statements -/

/-- What one line says. -/
inductive Statement where
  | assign (path : List String) (key : String) (value : Node)
  | openTable (path : List String) (key : String)
  | openElement (path : List String) (key : String)
deriving Repr

/-- The text behind the rest of a line, on which only a comment stands. -/
def restOfLine? (cs : List Char) : Option (List Char) :=
  let cs :=
    match skipBlanks cs with
    | '#' :: cs => cs.dropWhile isTextChar
    | cs => cs
  if cs.isEmpty then some [] else afterBreak? cs

/-- One header or assignment. -/
def statement : Reader Statement
  | '[' :: '[' :: cs => do
    let ((path, k), cs) ← key cs
    match cs with
    | ']' :: ']' :: cs => pure (.openElement path k, cs)
    | _ => none
  | '[' :: cs => do
    let ((path, k), cs) ← key cs
    match cs with
    | ']' :: cs => pure (.openTable path k, cs)
    | _ => none
  | cs => do
    let (((path, k), v), cs) ← assignment (value maxDepth) cs
    pure (.assign path k v, cs)

/-- The statements of a text, each with its line. The number bounds them. -/
def statements : Nat → List Char → Option (List Statement)
  | 0, _ => none
  | n + 1, cs =>
    match skipGap false cs with
    | [] => some []
    | cs => do
      let (s, cs) ← statement cs
      pure (s :: (← statements n (← restOfLine? cs)))

/-- The table built so far, and the path of the header above. -/
structure Progress where
  root : Table := []
  header : List String := []

/-- Takes a statement into the table. -/
def Progress.take (p : Progress) : Statement → Option Progress
  | .assign path k v => do
    pure { p with root := ← Table.descend (Table.assign k v path) p.header p.root }
  | .openTable path k => do
    pure { root := ← Table.openTable path k p.root, header := path ++ [k] }
  | .openElement path k => do
    pure { root := ← Table.openElement path k p.root, header := path ++ [k] }

/-- The table of a text; a byte order mark in front of it does not count. -/
def parse? (text : String) : Option Table := do
  let cs :=
    match text.toList with
    | '\ufeff' :: cs => cs
    | cs => cs
  let p ← (← statements (cs.length + 1) cs).foldlM Progress.take {}
  pure p.root

end SchemaTypes.Toml
