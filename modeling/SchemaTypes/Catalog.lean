/-
# The catalog of a document

The named schemas of a document, in the order in which they are declared. The
names are distinct. A reference names a schema of the catalog by a path with a
fixed beginning; what follows it is the target, and a reference that begins in
another way is its own target.

Key definitions: `Catalog`, `Catalog.find?`, `Catalog.insert`,
`Catalog.merge`, `Catalog.erase`, `Reference.target`, `Reference.declaredName`,
`Reference.resolve?`.
-/
import SchemaTypes.Schema.Basic

namespace SchemaTypes

/-- Named schemas in order, no name twice. -/
structure Catalog where
  entries : Entries Schema := []
  nodup : (Entries.names entries).Nodup := by simp [Entries.names]

namespace Catalog

/-- The catalog without an entry. -/
def empty : Catalog := {}

/-- The names, in order. -/
def names (c : Catalog) : List String :=
  Entries.names c.entries

/-- The number of entries. -/
def size (c : Catalog) : Nat :=
  c.entries.length

/-- The schema of a name. -/
def find? (c : Catalog) (name : String) : Option Schema :=
  Entries.find? name c.entries

/-- The name is in the catalog. -/
def contains (c : Catalog) (name : String) : Bool :=
  (c.find? name).isSome

/-- Replaces the schema of a name in place, or adds the name at the end. -/
def insert (c : Catalog) (name : String) (s : Schema) : Catalog :=
  ⟨Entries.put name s c.entries, Entries.nodup_put c.nodup⟩

/-- Inserts the entries of another catalog one by one. -/
def merge (c other : Catalog) : Catalog :=
  ⟨Entries.collect other.entries c.entries, Entries.nodup_collect c.nodup⟩

/-- Takes a name out; the others keep their order. -/
def erase (c : Catalog) (name : String) : Catalog :=
  ⟨Entries.erase name c.entries, Entries.nodup_erase c.nodup⟩

/-- The catalog of a list of entries: of a repeated name the first place and
the last schema stay. -/
def ofList (entries : List (String × Schema)) : Catalog :=
  ⟨Entries.collect entries [], Entries.nodup_collect (by simp [Entries.names])⟩

end Catalog

/-! ### References -/

namespace Reference

/-- What a reference to a component schema begins with. -/
def path : String := "#/components/schemas/"

/-- `cs` without `start`, if it begins with that. -/
def dropStart? : List Char → List Char → Option (List Char)
  | [], cs => some cs
  | _ :: _, [] => none
  | s :: ss, c :: cs => if s = c then dropStart? ss cs else none

/-- The name that a reference points at. -/
def target (reference : String) : String :=
  match dropStart? path.toList reference.toList with
  | some cs => String.ofList cs
  | none => reference

/-- The declared name of the target. -/
def declaredName (reference namePrefix : String) : String :=
  namePrefix ++ target reference

/-- The schema of the target, if the catalog has it. -/
def resolve? (reference : String) (c : Catalog) : Option Schema :=
  c.find? (target reference)

end Reference
end SchemaTypes
