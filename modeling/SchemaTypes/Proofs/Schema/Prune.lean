/-
# Schemas without empty lists

A list of values or members that is present but empty says nothing, and
`prune` leaves it out, at every depth of a schema. What decides the type and
the declaration of a schema asks for a list that has an item, so that a
pruned schema has the same rule and the same row, with the parts pruned. In
particular an empty `oneOf` gives way to `anyOf` before and after.

Key definitions: `Schema.prune`.
Key theorems: `Schema.rule_prune`, `Schema.row_prune`.
-/
import SchemaTypes.Proofs.Declaration.Relabel

namespace SchemaTypes.Schema

mutual

/-- The schema with an empty list of `enum`, `oneOf`, `anyOf` or `allOf` left
out, at every depth. -/
def prune : Schema → Schema
  | { kind, enum, properties, required, oneOf, anyOf, allOf, reference, items } =>
    { kind, required, reference
      enum := nonempty enum
      properties := match properties with | some ps => some (pruneProperties ps) | none => none
      oneOf := match oneOf with | some ms => nonempty (some (pruneMembers ms)) | none => none
      anyOf := match anyOf with | some ms => nonempty (some (pruneMembers ms)) | none => none
      allOf := match allOf with | some ms => nonempty (some (pruneMembers ms)) | none => none
      items := match items with | some t => some (prune t) | none => none }

/-- Each of the schemas pruned. -/
def pruneMembers : List Schema → List Schema
  | [] => []
  | s :: ss => prune s :: pruneMembers ss

/-- The properties with their schemas pruned. -/
def pruneProperties : List (String × Schema) → List (String × Schema)
  | [] => []
  | (name, s) :: ps => (name, prune s) :: pruneProperties ps

end

theorem pruneMembers_eq (ms : List Schema) : pruneMembers ms = ms.map prune := by
  induction ms with
  | nil => rfl
  | cons m ms ih => rw [pruneMembers, ih, List.map_cons]

theorem pruneProperties_eq (ps : List (String × Schema)) :
    pruneProperties ps = ps.map fun p => (p.1, p.2.prune) := by
  induction ps with
  | nil => rfl
  | cons p ps ih => rw [pruneProperties, ih, List.map_cons]

/-- What pruning does, keyword by keyword. -/
theorem prune_eq (s : Schema) :
    s.prune =
      { kind := s.kind, required := s.required, reference := s.reference
        enum := nonempty s.enum
        properties := s.properties.map (List.map fun p => (p.1, p.2.prune))
        oneOf := (nonempty s.oneOf).map (List.map prune)
        anyOf := (nonempty s.anyOf).map (List.map prune)
        allOf := (nonempty s.allOf).map (List.map prune)
        items := s.items.map prune } := by
  have hmembers : ∀ l : Option (List Schema),
      (match l with | some ms => nonempty (some (pruneMembers ms)) | none => none) =
        (nonempty l).map (List.map prune) := by
    intro l
    rw [← nonempty_map]
    cases l with
    | none => rfl
    | some ms => rw [Option.map_some, ← pruneMembers_eq]
  obtain ⟨kind, enum, properties, required, oneOf, anyOf, allOf, reference, items⟩ := s
  conv_lhs => unfold prune
  congr
  · cases properties with
    | none => rfl
    | some ps => exact congrArg some (pruneProperties_eq ps)
  · exact hmembers oneOf
  · exact hmembers anyOf
  · exact hmembers allOf
  · cases items with
    | none => rfl
    | some t => rfl

/-! ### What is looked at -/

/-- Asking for an item again is asking once. -/
theorem nonempty_nonempty {α : Type} (l : Option (List α)) :
    nonempty (nonempty l) = nonempty l := by
  match l with
  | none => rfl
  | some [] => rfl
  | some (a :: as) => rfl

theorem nonempty_prune (l : Option (List Schema)) :
    nonempty ((nonempty l).map (List.map prune)) = (nonempty l).map (List.map prune) := by
  rw [nonempty_map, nonempty_nonempty]

theorem enumValues_prune (s : Schema) : s.prune.enumValues = s.enumValues := by
  rw [prune_eq]
  exact nonempty_nonempty s.enum

theorem stringEnumValues_prune (s : Schema) : s.prune.stringEnumValues = s.stringEnumValues := by
  have hkind : s.prune.kind = s.kind := by rw [prune_eq]
  rw [stringEnumValues, stringEnumValues, hkind, enumValues_prune]

theorem unionMembers_prune (s : Schema) :
    s.prune.unionMembers = s.unionMembers.map (List.map prune) := by
  rw [prune_eq]
  unfold unionMembers
  simp only [nonempty_prune]
  cases nonempty s.oneOf with
  | none => rfl
  | some ms => rfl

theorem intersectionMembers_prune (s : Schema) :
    s.prune.intersectionMembers = s.intersectionMembers.map (List.map prune) := by
  rw [prune_eq]
  exact nonempty_prune s.allOf

/-- A pruned schema is typed by the same rule, with the parts pruned. -/
theorem rule_prune (s : Schema) : s.prune.rule = s.rule.map prune := by
  have hreference : s.prune.reference = s.reference := by rw [prune_eq]
  have hkind : s.prune.kindRule = s.kindRule.map prune := by
    rw [prune_eq]
    exact kindRule_map rfl rfl rfl
  exact rule_map hreference (stringEnumValues_prune s) (unionMembers_prune s)
    (intersectionMembers_prune s) hkind

/-- A pruned schema is declared by the same row, with the members pruned. -/
theorem row_prune (s : Schema) : s.prune.row = s.row.map prune := by
  have hshape : s.prune.isObjectShaped = s.isObjectShaped := by
    rw [prune_eq, isObjectShaped, isObjectShaped, Option.isSome_map]
  exact row_map (enumValues_prune s) (unionMembers_prune s) (intersectionMembers_prune s) hshape

end SchemaTypes.Schema
