/-
# Schemas inside of schemas

A schema holds other schemas under five of its keywords, whether or not they
have a say in its type. `Contains` goes down through all of them, and
`Mentions` is a reference that stands anywhere below. What typing a schema
meets is among what the schema mentions.

Key definitions: `Schema.subschemas`, `Schema.Contains`, `Schema.Mentions`,
`Schema.fieldReferences`.
Key theorems: `Schema.mentions_of_mem_references`,
`Schema.mentions_of_mem_fieldReferences`.
-/
import SchemaTypes.Proofs.Typing.References

namespace SchemaTypes.Schema

/-- The schemas that stand under a keyword of a schema. -/
def subschemas (s : Schema) : List Schema :=
  (s.properties.getD []).map Prod.snd ++ s.oneOf.getD [] ++ s.anyOf.getD [] ++ s.allOf.getD [] ++
    s.items.toList

/-- The second schema is the first one or stands in it, at any depth. -/
inductive Contains : Schema → Schema → Prop
  | refl (s : Schema) : Contains s s
  | sub {s t u : Schema} (h : t ∈ s.subschemas) (hu : Contains t u) : Contains s u

/-- The reference stands anywhere in the schema. -/
def Mentions (s : Schema) (r : String) : Prop :=
  ∃ u, Contains s u ∧ u.reference = some r

/-- The references that typing the properties of a schema meets. -/
def fieldReferences (s : Schema) : List String :=
  (s.properties.getD []).flatMap fun p => p.2.references

variable {s t : Schema} {r : String}

/-- A schema mentions its own reference and what the schemas under its keywords
mention. -/
theorem mentions_iff : s.Mentions r ↔ s.reference = some r ∨ ∃ t ∈ s.subschemas, t.Mentions r := by
  constructor
  · rintro ⟨u, hu, hr⟩
    cases hu with
    | refl => exact .inl hr
    | sub ht hu => exact .inr ⟨_, ht, u, hu, hr⟩
  · rintro (hr | ⟨t, ht, u, hu, hr⟩)
    · exact ⟨s, .refl s, hr⟩
    · exact ⟨u, .sub ht hu, hr⟩

theorem Mentions.sub (h : t ∈ s.subschemas) (hr : t.Mentions r) : s.Mentions r :=
  mentions_iff.2 (.inr ⟨t, h, hr⟩)

theorem mentions_of_reference (h : s.reference = some r) : s.Mentions r :=
  mentions_iff.2 (.inl h)

theorem eq_of_mentions_ofReference {r' : String} (h : (ofReference r).Mentions r') : r' = r := by
  rcases mentions_iff.1 h with h | ⟨t, ht, -⟩
  · exact (Option.some.inj h).symm
  · cases ht

/-- A schema with one property, a reference, mentions nothing else. -/
theorem eq_of_mentions_link {key r' : String} (h : (link key r).Mentions r') : r' = r := by
  rcases mentions_iff.1 h with h | ⟨t, ht, hr⟩
  · cases h
  · obtain rfl : t = ofReference r := List.mem_singleton.1 ht
    exact eq_of_mentions_ofReference hr

theorem mem_subschemas_of_property {p : String × Schema} (h : p ∈ s.properties.getD []) :
    p.2 ∈ s.subschemas := by
  simp only [subschemas, List.mem_append]
  exact .inl (.inl (.inl (.inl (List.mem_map_of_mem h))))

theorem mem_subschemas_of_unionMember {ms : List Schema} (h : s.unionMembers = some ms)
    (ht : t ∈ ms) : t ∈ s.subschemas := by
  simp only [subschemas, List.mem_append]
  rcases (unionMembers_eq_some h).1 with h | h
  · exact .inl (.inl (.inl (.inr (by rw [h]; exact ht))))
  · exact .inl (.inl (.inr (by rw [h]; exact ht)))

theorem mem_subschemas_of_intersectionMember {ms : List Schema}
    (h : s.intersectionMembers = some ms) (ht : t ∈ ms) : t ∈ s.subschemas := by
  simp only [subschemas, List.mem_append]
  exact .inl (.inr (by rw [(eq_some_of_nonempty h).1]; exact ht))

/-- The parts of a schema stand under its keywords. -/
theorem mem_subschemas_of_mem_parts (h : t ∈ s.rule.parts) : t ∈ s.subschemas := by
  have hk := keyword_of_rule s
  cases hr : s.rule with
  | reference r => rw [hr] at h; cases h
  | literals vs => rw [hr] at h; cases h
  | plain p => rw [hr] at h; cases h
  | union ms =>
    rw [hr] at h hk
    exact mem_subschemas_of_unionMember hk h
  | intersection ms =>
    rw [hr] at h hk
    exact mem_subschemas_of_intersectionMember hk h
  | array item =>
    rw [hr] at h hk
    simp only [subschemas, List.mem_append]
    exact .inr (by rw [hk, List.mem_singleton.1 h]; exact List.mem_singleton_self item)
  | object ps =>
    rw [hr] at h hk
    obtain ⟨p, hp, rfl⟩ := List.mem_map.1 h
    exact mem_subschemas_of_property (by rw [hk]; exact hp)

/-- What typing a schema meets, the schema mentions. -/
theorem mentions_of_mem_references (h : r ∈ s.references) : s.Mentions r := by
  induction s using part_induction with
  | step s ih =>
    by_cases hs : ∃ r', s.rule = .reference r'
    · obtain ⟨r', hr'⟩ := hs
      have hk := keyword_of_rule s
      rw [hr'] at hk
      rw [references_of_reference hr'] at h
      exact mentions_of_reference (List.mem_singleton.1 h ▸ hk)
    · rw [references_of_parts fun r' hr' => hs ⟨r', hr'⟩] at h
      obtain ⟨t, ht, hr⟩ := List.mem_flatMap.1 h
      exact (ih t ht hr).sub (mem_subschemas_of_mem_parts ht)

theorem mentions_of_mem_fieldReferences (h : r ∈ s.fieldReferences) : s.Mentions r := by
  obtain ⟨p, hp, hr⟩ := List.mem_flatMap.1 h
  exact (mentions_of_mem_references hr).sub (mem_subschemas_of_property hp)

end SchemaTypes.Schema
