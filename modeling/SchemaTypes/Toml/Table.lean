/-
# TOML tables

A TOML text builds one table, by headers that open tables and by assignments
under dotted keys. A table may be opened once by a header; the tables on the
way to it come into being by being named, and may still be opened. A table
made by a dotted key takes more dotted keys but no header of its own, and an
inline table takes nothing more. Of an array of tables only the latest element
can be reached.

Key definitions: `Toml.Node`, `Toml.Table`, `Toml.Table.assign`,
`Toml.Table.openTable`, `Toml.Table.openElement`.
-/
import SchemaTypes.Entries

namespace SchemaTypes.Toml

/-- How a table came into being. -/
inductive Origin where
  /-- By a header of its own. -/
  | opened
  /-- By a header of a table inside it. -/
  | named
  /-- By a dotted key. -/
  | dotted
  /-- As a value between braces. -/
  | inline
deriving DecidableEq, Repr

/-- What stands under a key. Numbers and times are known by their form
only. -/
inductive Node where
  | string (text : String)
  | boolean (value : Bool)
  | number
  | time
  | array (items : List Node)
  | table (origin : Origin) (entries : List (String × Node))
  /-- An array of tables, with its latest element in front. -/
  | tables (latest : List (String × Node)) (earlier : List (List (String × Node)))
deriving Repr, Inhabited

/-- The entries of a table. -/
abbrev Table := Entries Node

namespace Table

/-- Changes the table at a path of headers; tables on the way are made as
they are needed. -/
def descend (change : Table → Option Table) : List String → Table → Option Table
  | [], t => change t
  | k :: ks, t =>
    match Entries.find? k t with
    | none => do pure (Entries.put k (.table .named (← descend change ks [])) t)
    | some (.table origin sub) =>
      if origin = .inline then none
      else do pure (Entries.put k (.table origin (← descend change ks sub)) t)
    | some (.tables latest earlier) => do
      pure (Entries.put k (.tables (← descend change ks latest) earlier) t)
    | some _ => none

/-- Gives a new key its value, under a path of dotted keys. -/
def assign (key : String) (value : Node) : List String → Table → Option Table
  | [], t => if (Entries.find? key t).isSome then none else some (Entries.put key value t)
  | k :: ks, t =>
    match Entries.find? k t with
    | none => do pure (Entries.put k (.table .dotted (← assign key value ks [])) t)
    | some (.table origin sub) =>
      if origin = .dotted || (origin = .named && !ks.isEmpty) then do
        pure (Entries.put k (.table origin (← assign key value ks sub)) t)
      else none
    | some (.tables latest earlier) =>
      if ks.isEmpty then none
      else do pure (Entries.put k (.tables (← assign key value ks latest) earlier) t)
    | some _ => none

/-- Opens the table of a header. -/
def openTable (path : List String) (key : String) : Table → Option Table :=
  descend (fun t =>
    match Entries.find? key t with
    | none => some (Entries.put key (.table .opened []) t)
    | some (.table .named sub) => some (Entries.put key (.table .opened sub) t)
    | some _ => none) path

/-- Opens a new element of an array of tables. -/
def openElement (path : List String) (key : String) : Table → Option Table :=
  descend (fun t =>
    match Entries.find? key t with
    | none => some (Entries.put key (.tables [] []) t)
    | some (.tables latest earlier) =>
      some (Entries.put key (.tables [] (latest :: earlier)) t)
    | some _ => none) path

end Table
end SchemaTypes.Toml
