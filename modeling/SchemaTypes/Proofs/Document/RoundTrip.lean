/-
# Every catalog can be written and read back

The definitions of a document encode a catalog if there is one for each entry,
under its name and in order, that encodes the schema of the entry. Such
definitions are read as this catalog, in both forms of a document: under
`components` and `schemas` of a document of a supported version, and as a
document of their own, unless an entry has one of the two names that make a
document one of the other form.

Every catalog has such definitions, so nothing in a catalog is beyond what a
document can say.

Key definitions: `Catalog.EncodedBy`.
Key theorems: `Document.decodeEntries_of_encodedBy`,
`Document.catalog_of_encodedBy`.
-/
import SchemaTypes.Proofs.Document.Definitions
import SchemaTypes.Proofs.Schema.Encoding

namespace SchemaTypes

/-- The members encode the entries of the catalog, in order. -/
structure Catalog.EncodedBy (c : Catalog) (ms : List (String × Json)) : Prop where
  names : Entries.names ms = c.names
  schemas : List.Forall₂ Schema.Encodes (ms.map Prod.snd) (c.entries.map Prod.snd)

namespace Document

open Schema (Encodes EncodesUnder)

variable {c : Catalog} {ms : List (String × Json)}

/-- Definitions are read as the named schemas of a keyword are. -/
theorem decodeEntries_of_decodeNamed {es : List (String × Schema)}
    (h : Schema.decodeNamed ms = .ok es) : decodeEntries ms = .ok es := by
  induction ms generalizing es with
  | nil => exact congrArg Except.ok (Except.ok.inj h)
  | cons m ms ih =>
    obtain ⟨name, v⟩ := m
    rw [Schema.decodeNamed] at h
    rw [decodeEntries]
    cases hv : Schema.decode v with
    | error e =>
      rw [hv] at h
      cases h
    | ok s =>
      rw [hv] at h
      cases hms : Schema.decodeNamed ms with
      | error e =>
        rw [hms] at h
        cases h
      | ok rest =>
        rw [hms] at h
        simp only [ih hms]
        exact congrArg Except.ok (Except.ok.inj h)

/-- What encodes the entries of a catalog is read as these entries. -/
theorem decodeEntries_of_encodedBy (h : c.EncodedBy ms) : decodeEntries ms = .ok c.entries := by
  apply decodeEntries_of_decodeNamed
  exact Schema.decodeNamed_of_encodes (fun _ _ _ hv => Schema.decode_of_encodes hv) h.names h.schemas

/-- A catalog is that of its entries. -/
theorem ofList_entries (c : Catalog) : Catalog.ofList c.entries = c := by
  have h := entries_ofList c.nodup
  cases c
  cases hc : Catalog.ofList _ with
  | mk entries nodup =>
    rw [hc] at h
    simp only at h
    subst h
    rfl

theorem Defines.catalog_eq_ok {document : Json} (hd : Defines document ms)
    (h : c.EncodedBy ms) : catalog document = .ok c := by
  rw [hd.catalog_eq, decodeEntries_of_encodedBy h, Except.map, ofList_entries]

/-- **Every catalog can be written and read back.** Each catalog is encoded by
some definitions, and whichever encode it, a document with a supported version
and these definitions under `components` and `schemas` is read as the catalog,
whatever else it holds; so are the definitions by themselves, unless an entry
is called `swagger` or `openapi`. -/
theorem catalog_of_encodedBy (c : Catalog) :
    (∃ ms, c.EncodedBy ms) ∧ ∀ ms, c.EncodedBy ms →
      (∀ (document components : Json) (version : String),
        document.get? "swagger" = none → document.get? "openapi" = some (.string version) →
        "3.".toList <+: version.toList → document.get? "components" = some components →
        components.get? "schemas" = some (.object ms) → catalog document = .ok c) ∧
      ("swagger" ∉ c.names → "openapi" ∉ c.names → catalog (.object ms) = .ok c) := by
  constructor
  · refine ⟨c.entries.map fun e => (e.1, e.2.encode), ?_, ?_⟩
    · rw [Entries.names, List.map_map]
      rfl
    · rw [List.map_map, List.forall₂_map_left_iff, List.forall₂_map_right_iff, List.forall₂_same]
      exact fun e _ => e.2.encodes_encode
  · intro ms h
    constructor
    · intro document components version hswagger hopenapi hversion hcomponents hschemas
      have hd : Defines document ms := .versioned hswagger hopenapi hversion hcomponents hschemas
      exact hd.catalog_eq_ok h
    · intro hswagger hopenapi
      rw [← h.names] at hswagger hopenapi
      have hd : Defines (.object ms) ms :=
        .bare (Entries.find?_of_not_mem hswagger) (Entries.find?_of_not_mem hopenapi)
      exact hd.catalog_eq_ok h

/-- An array of a schema of an unknown kind with an empty list of values, and a
schema with an empty list of members beside its properties. -/
def listAndEmpties : Catalog where
  entries :=
    [("List", { kind := some .array, items := some { kind := some .unknown, enum := some [] } }),
      ("Empties", { properties := some [("a", {})], required := ["b"], oneOf := some [] })]
  nodup := by decide

/-- Members that encode it, with the keywords in another order, nulls for some
that are absent, and a key that is no keyword. -/
def listAndEmptiesMembers : List (String × Json) :=
  [("List", .object
      [("items", .object [("enum", .array []), ("type", .array [.string "string", .string "null"])]),
        ("type", .string "array"), ("$ref", .null)]),
    ("Empties", .object
      [("required", .array [.string "b"]), ("note", .bool true), ("oneOf", .array []),
        ("properties", .object [("a", .object [])]), ("type", .null)])]

theorem encodedBy_listAndEmptiesMembers : listAndEmpties.EncodedBy listAndEmptiesMembers := by
  have hnone : ∀ {k : Schema.Keyword}, EncodesUnder k none {} := .leftOut (Schema.under_empty _)
  refine ⟨rfl, .cons (.object (by decide) fun k => ?_) (.cons (.object (by decide) fun k => ?_) .nil)⟩
  · cases k with
    | type => exact @EncodesUnder.kind .array _ rfl (by decide)
    | items =>
      refine .items rfl (.object (by decide) fun k => ?_)
      cases k with
      | type => exact .unknownKind rfl Json.noConfusion fun _ _ => Json.noConfusion
      | enum => exact .enum rfl
      | _ => exact .leftOut rfl
    | reference => exact .null (by decide) rfl
    | _ => exact .leftOut rfl
  · cases k with
    | type => exact .null (by decide) rfl
    | properties => exact .properties rfl rfl (.cons (.object (by decide) fun k => hnone) .nil)
    | required => exact @EncodesUnder.required ["b"] _ rfl
    | oneOf => exact .members rfl .nil
    | _ => exact .leftOut rfl

/-- These members are read as the catalog behind a version, and by
themselves. -/
theorem catalog_listAndEmptiesMembers :
    listAndEmpties.EncodedBy listAndEmptiesMembers ∧
      catalog (.object [("openapi", .string "3.1.0"), ("info", .null),
        ("components", .object [("schemas", .object listAndEmptiesMembers)])]) = .ok listAndEmpties ∧
      catalog (.object listAndEmptiesMembers) = .ok listAndEmpties := by
  have h := encodedBy_listAndEmptiesMembers
  obtain ⟨-, hread⟩ := catalog_of_encodedBy listAndEmpties
  obtain ⟨hversioned, hbare⟩ := hread listAndEmptiesMembers h
  exact ⟨h, hversioned _ _ "3.1.0" rfl rfl (by decide) rfl rfl, hbare (by decide) (by decide)⟩

end Document
end SchemaTypes
