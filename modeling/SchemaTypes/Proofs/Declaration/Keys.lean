/-
# Objects keep their property names

The object type of a schema has one field for each property, in order. Its
keys are read back as the names of the properties, so nothing of a name is
lost, and where the names are distinct the keys are. This holds of every
object in a type or a declaration, at any depth: each comes from one schema,
that is typed or stands in one that is, or to which a reference was expanded.

That the names are distinct is said of a schema as it stands, since its
properties are a list here. The properties that are read from a text are an
object, so their names are (`Document.distinctNames_of_read`).

Key definitions: `Schema.Keys`, `ObjectsKeyed`.
Key theorems: `Schema.Marks.keys`, `objectsKeyed`, `Catalog.objects_keyed`.
-/
import SchemaTypes.Proofs.Declaration.Required
import SchemaTypes.Proofs.Identifier.PropertyKey
import SchemaTypes.Proofs.Schema.DistinctNames

namespace SchemaTypes

/-- The keys of the fields are distinct, and they are read back as the names
of the properties of the schema, in order. -/
def Schema.Keys (s : Schema) (fs : List Field) : Prop :=
  (fs.map FieldOf.key).Nodup ∧
    fs.map (fun f => Identifier.keyName? f.key) = s.propertyNames.map some

variable {c : Catalog} {o : Settings} {n : String} {stack : List String} {s u : Schema}
  {position : List Nat} {fs : List Field}

/-- Fields that are marked by a schema have the keys of its properties. -/
theorem Schema.Marks.keys_eq (h : s.Marks fs) :
    fs.map FieldOf.key = s.propertyNames.map Identifier.propertyKey := by
  rw [Marks] at h
  rw [propertyNames, Entries.names, List.map_map]
  generalize s.properties.getD [] = ps at h
  induction h with
  | nil => rfl
  | cons hkey _ ih => rw [List.map_cons, List.map_cons, ih, hkey.1, Function.comp_apply]

theorem Schema.Marks.keys (h : s.Marks fs) (hs : s.propertyNames.Nodup) : s.Keys fs := by
  have hkeys := h.keys_eq
  constructor
  · rw [hkeys]
    exact hs.map Identifier.propertyKey_injective
  · calc fs.map (fun f => Identifier.keyName? f.key)
      _ = (fs.map FieldOf.key).map Identifier.keyName? := by rw [List.map_map]; rfl
      _ = s.propertyNames.map some := by
        rw [hkeys, List.map_map]
        exact List.map_congr_left fun name _ => Identifier.keyName?_propertyKey name

/-! ### The schemas that objects come from -/

namespace Typing

/-- The schema that an object comes from has distinct property names. -/
theorem nodup_of_objectOf (hc : c.DistinctNames) (h : ObjectOf c o stack s position u) :
    s.DistinctNames → u.propertyNames.Nodup := by
  induction h with
  | own hr => exact fun hs => hs.nodup
  | part ht _ ih => exact fun hs => ih (hs.part (List.mem_of_getElem? ht))
  | expand _ _ _ ht _ ih => exact fun _ => ih (hc _ _ ht)

theorem nodup_of_fieldsOf (hc : c.DistinctNames) (hs : s.DistinctNames)
    (h : FieldsOf c o stack s position u) : u.propertyNames.Nodup := by
  cases position with
  | nil =>
    obtain rfl : u = s := h
    exact hs.nodup
  | cons i position =>
    obtain ⟨p, hp, hu⟩ := h
    have hp := Schema.mem_subschemas_of_property (List.mem_of_getElem? hp)
    exact nodup_of_objectOf hc hu (hs.sub hp)

end Typing

theorem Catalog.nodup_of_objectOf (hc : c.DistinctNames) (hs : s.DistinctNames)
    (h : c.ObjectOf o n s position u) : u.propertyNames.Nodup := by
  cases h with
  | member hrow hm _ h =>
    exact Typing.nodup_of_fieldsOf hc
      (hs.sub (Schema.mem_subschemas_of_row hrow (List.mem_of_getElem? hm))) h
  | interface _ h => exact Typing.nodup_of_fieldsOf hc hs h
  | typeAlias _ _ h => exact Typing.nodup_of_objectOf hc h hs

/-! ### The objects -/

/-- Where the object of a schema stands, it has the keys of the schema, and
every object with fields is that of a schema. -/
def ObjectsKeyed (subterm? : List Nat → Option TypeTerm) (objectOf : List Nat → Schema → Prop) :
    Prop :=
  (∀ position u, objectOf position u → ∃ fs, subterm? position = some (.object fs) ∧ u.Keys fs) ∧
    ∀ position f fs, subterm? position = some (.object (f :: fs)) →
      ∃ u, objectOf position u ∧ u.Keys (f :: fs)

/-- The objects have the keys of schemas if each is the object type of one,
and property names are distinct. -/
theorem objectsKeyed {subterm? : List Nat → Option TypeTerm} {objectOf : List Nat → Schema → Prop}
    (hobject : ∀ position u, objectOf position u →
      ∃ stack, subterm? position = some (Typing.object c o stack u).value)
    (hschema : ∀ position f fs, subterm? position = some (.object (f :: fs)) →
      ∃ u, objectOf position u)
    (hnodup : ∀ position u, objectOf position u → u.propertyNames.Nodup) :
    ObjectsKeyed subterm? objectOf := by
  have hkeys : ∀ position u, objectOf position u →
      ∃ fs, subterm? position = some (.object fs) ∧ u.Keys fs := by
    intro position u hu
    obtain ⟨stack, h⟩ := hobject position u hu
    exact ⟨_, h, (Typing.marks_fields c o stack u).keys (hnodup position u hu)⟩
  refine ⟨hkeys, fun position f fs h => ?_⟩
  obtain ⟨u, hu⟩ := hschema position f fs h
  obtain ⟨fs', hfs, hkeyed⟩ := hkeys position u hu
  rw [h] at hfs
  cases hfs
  exact ⟨u, hu, hkeyed⟩

namespace Catalog

/-- **Object keys lose nothing.** A property name is its own key if it is bare,
and is read from a text between quotes if not, so that no two names have the
same key. In every type, in the object type of properties and in every
declaration, at any depth and also where a reference is expanded, each object
has distinct keys, and they are read back as the property names, in order, of
the schema that it comes from. -/
theorem objects_keyed (c : Catalog) (o : Settings) :
    (∀ name, (Identifier.BareName name ∧ Identifier.propertyKey name = name) ∨
        (¬ Identifier.BareName name ∧ Identifier.Quotes (Identifier.propertyKey name) name)) ∧
      Function.Injective Identifier.propertyKey ∧
      (c.DistinctNames → ∀ s, s.DistinctNames →
        (∀ stack, s.Keys (Typing.fields c o stack s).value ∧
          ObjectsKeyed (Typing.object c o stack s).value.subterm? (Typing.FieldsOf c o stack s) ∧
          ObjectsKeyed (Typing.term c o stack (some s)).value.subterm?
            (Typing.ObjectOf c o stack s)) ∧
        ∀ n, ObjectsKeyed (c.declare o n s).value.subterm? (c.ObjectOf o n s)) := by
  refine ⟨Identifier.propertyKey_cases, Identifier.propertyKey_injective, fun hc s hs =>
    ⟨fun stack => ⟨?_, ?_, ?_⟩, fun n => ?_⟩⟩
  · exact (Typing.marks_fields c o stack s).keys hs.nodup
  · exact objectsKeyed (fun _ _ => Typing.subterm?_of_fieldsOf)
      (fun _ _ _ => Typing.fieldsOf_of_subterm?) fun _ _ => Typing.nodup_of_fieldsOf hc hs
  · exact objectsKeyed (fun _ _ => Typing.subterm?_of_objectOf)
      (fun position _ _ => Typing.objectOf_of_subterm? stack s position)
      fun _ _ h => Typing.nodup_of_objectOf hc h hs
  · exact objectsKeyed (fun _ _ => subterm?_of_objectOf) (fun _ _ _ => objectOf_of_subterm?)
      fun _ _ => nodup_of_objectOf hc hs

theorem distinctNames_listing (listed : List String) : (listing listed).DistinctNames := by
  have hleaf : ∀ t : Schema, t.properties = none → t.subschemas = [] → t.DistinctNames := by
    intro t hproperties hsub
    rw [Schema.distinctNames_iff, Schema.propertyNames, hproperties, hsub]
    exact ⟨List.nodup_nil, nofun⟩
  intro n s hs
  have hmem := Entries.mem_of_find? hs
  simp only [listing, List.mem_cons, Prod.mk.injEq, List.not_mem_nil, or_false] at hmem
  rw [Schema.distinctNames_iff]
  obtain ⟨-, rfl⟩ | ⟨-, rfl⟩ := hmem
  · refine ⟨show ["b"].Nodup by decide, fun t ht => ?_⟩
    rw [List.mem_singleton.1 (show t ∈ [Schema.ofReference "#/components/schemas/B"] from ht)]
    exact hleaf _ rfl rfl
  · refine ⟨show ["x-y", "z"].Nodup by decide, fun t ht => ?_⟩
    obtain rfl | rfl := List.mem_pair.1 (show t ∈ [Schema.ofKind .string, .ofKind .number] from ht)
    · exact hleaf _ rfl rfl
    · exact hleaf _ rfl rfl

/-- The keys of the object that is expanded inside of `A` are those of `B`,
one of them between quotes. -/
theorem objects_keyed_listing :
    (listing []).DistinctNames ∧ (Schema.link "b" "#/components/schemas/B").DistinctNames ∧
      ∃ fs, ((listing []).declare .inlining "A"
          (.link "b" "#/components/schemas/B")).value.subterm? [0] = some (.object fs) ∧
        (fs.map FieldOf.key).Nodup ∧
        fs.map (fun f => Identifier.keyName? f.key) = [some "x-y", some "z"] := by
  have hc := distinctNames_listing []
  have hs := hc "A" (.link "b" "#/components/schemas/B") rfl
  obtain ⟨-, -, hkeyed⟩ := objects_keyed (listing []) .inlining
  obtain ⟨-, hdeclared⟩ := hkeyed hc (.link "b" "#/components/schemas/B") hs
  have hexpanded : (listing []).ObjectOf .inlining "A" (.link "b" "#/components/schemas/B") [0]
      { properties := some [("x-y", .ofKind .string), ("z", .ofKind .number)] } :=
    .interface rfl ⟨_, rfl, .expand rfl rfl (by decide) rfl (.own rfl)⟩
  obtain ⟨fs, hfs, hnodup, hnames⟩ := (hdeclared "A").1 [0] _ hexpanded
  exact ⟨hc, hs, fs, hfs, hnodup, hnames⟩

end Catalog
end SchemaTypes
