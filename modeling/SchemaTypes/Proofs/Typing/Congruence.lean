/-
# A type changes only with its references

Two ways to type references give a schema the same type if they give the same
types to the references that it meets. This is a case of "the meaning of a
schema depends on the meaning of its references": in the interpretation that
takes every type for itself, a type means itself.

Key definitions: `Interpretation.itself`.
Key theorems: `Schema.value_termWith_congr`, `Schema.value_fieldsWith_congr`,
`Schema.events_fieldsWith`.
-/
import SchemaTypes.Proofs.Schema.Nesting
import SchemaTypes.Proofs.Typing.Meaning

namespace SchemaTypes

namespace Interpretation

/-- Every type means itself. -/
def itself : Interpretation TypeTerm where
  any := .any
  number := .number
  string := .string
  boolean := .boolean
  record := .record
  literal := .literal
  named := .named
  array := .array
  object fs := .object (fs.map fun f => ⟨f.1, f.2.1, f.2.2⟩)
  union := .union
  intersection := .intersection

theorem meaning_itself (t : TypeTerm) : itself.meaning t = t := by
  induction t using TypeTerm.child_induction with
  | step t ih =>
    have hmembers : ∀ ms : List TypeTerm, (∀ m ∈ ms, itself.meaning m = m) →
        itself.memberMeanings ms = ms := by
      intro ms hms
      rw [memberMeanings_eq, List.map_congr_left hms, List.map_id']
    cases t with
    | array t => exact congrArg TypeTerm.array (ih t (List.mem_singleton_self t))
    | object fs =>
      rw [meaning, fieldMeanings_eq]
      change TypeTerm.object ((fs.map fun f => (f.key, f.isOptional, itself.meaning f.type)).map
        fun f => ⟨f.1, f.2.1, f.2.2⟩) = .object fs
      rw [List.map_map, List.map_congr_left (g := id), List.map_id]
      intro f hf
      rw [Function.comp_apply, ih f.type (List.mem_map_of_mem hf)]
      rfl
    | union ms => exact congrArg TypeTerm.union (hmembers ms ih)
    | intersection ms => exact congrArg TypeTerm.intersection (hmembers ms ih)
    | _ => rfl

end Interpretation

theorem Logged.ext {α : Type} {x y : Logged α} (hv : x.value = y.value)
    (he : x.events = y.events) : x = y := by
  cases x
  cases y
  cases hv
  cases he
  rfl

namespace Schema

variable {f g : String → Logged TypeTerm} {s : Schema}

/-- The type of a schema depends on the types of the references it meets, and
on nothing else about them. -/
theorem value_termWith_congr (h : ∀ r ∈ s.references, (f r).value = (g r).value) :
    (s.termWith f).value = (s.termWith g).value := by
  have := Interpretation.itself.meaning_termWith_congr s fun r hr =>
    congrArg Interpretation.itself.meaning (h r hr)
  rwa [Interpretation.meaning_itself, Interpretation.meaning_itself] at this

theorem termWith_congr (h : ∀ r ∈ s.references, f r = g r) : s.termWith f = s.termWith g := by
  refine Logged.ext (value_termWith_congr fun r hr => congrArg Logged.value (h r hr)) ?_
  rw [events_termWith, events_termWith]
  exact List.flatMap_congr fun r hr => congrArg Logged.events (h r hr)

/-! ### The fields of a schema -/

theorem value_fieldsWith (f : String → Logged TypeTerm) (s : Schema) :
    (s.fieldsWith f).value = (s.properties.getD []).map (fieldWith f s.required) := by
  rw [fieldsWith]
  cases s.properties with
  | none => rfl
  | some ps => exact value_propertiesWith f s.required ps

theorem types_fieldsWith (f : String → Logged TypeTerm) (s : Schema) :
    (s.fieldsWith f).value.map FieldOf.type =
      (s.properties.getD []).map fun p => (p.2.termWith f).value := by
  rw [value_fieldsWith, List.map_map]
  rfl

/-- The fields of a schema depend on the types of the references that its
properties meet. -/
theorem value_fieldsWith_congr (h : ∀ r ∈ s.fieldReferences, (f r).value = (g r).value) :
    (s.fieldsWith f).value = (s.fieldsWith g).value := by
  rw [value_fieldsWith, value_fieldsWith]
  refine List.map_congr_left fun p hp => ?_
  rw [fieldWith, fieldWith, value_termWith_congr fun r hr => h r (List.mem_flatMap.2 ⟨p, hp, hr⟩)]

/-- The events of typing the properties are those of the references that they
meet. -/
theorem events_fieldsWith (f : String → Logged TypeTerm) (s : Schema) :
    (s.fieldsWith f).events = s.fieldReferences.flatMap fun r => (f r).events := by
  rw [fieldsWith, fieldReferences]
  cases s.properties with
  | none => rfl
  | some ps =>
    rw [events_propertiesWith, Option.getD_some, List.flatMap_assoc]
    exact List.flatMap_congr fun p _ => events_termWith p.2

/-- The names left in the fields are those left in the types of the references
that the properties meet. -/
theorem names_fieldsWith (f : String → Logged TypeTerm) (s : Schema) :
    (TypeTerm.object (s.fieldsWith f).value).names =
      s.fieldReferences.flatMap fun r => (f r).value.names := by
  rw [TypeTerm.names, TypeTerm.fieldNames_eq, value_fieldsWith, List.map_map, List.flatMap_map,
    fieldReferences, List.flatMap_assoc]
  exact List.flatMap_congr fun p _ => names_termWith p.2

end Schema
end SchemaTypes
