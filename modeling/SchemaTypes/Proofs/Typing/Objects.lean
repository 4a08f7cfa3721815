/-
# The schemas that objects come from

An object type with fields is made of the properties of one schema. `ObjectOf`
tells that schema for each position of a type: the schema that is typed, one of
its parts, or a schema of the catalog that a reference was expanded to, at any
depth.

The fields of the object are marked by that schema and by no other: there is
one field for each of its properties, in order, and a field may be left out
exactly if the name of its property is not in the `required` list of the
schema. The name is the one the schema gives to the property, before it is
written as a key.

Key definitions: `Schema.Marks`, `Typing.ObjectOf`, `Typing.FieldsOf`.
Key theorems: `Typing.subterm?_of_objectOf`, `Typing.objectOf_of_subterm?`,
`Typing.marks_of_objectOf`, `Typing.exists_marks_of_subterm?`.
-/
import SchemaTypes.Proofs.Typing.Congruence
import SchemaTypes.Proofs.Typing.Leaves

namespace SchemaTypes

/-- The fields are those of the properties of the schema, and they are marked
by its `required` list. -/
def Schema.Marks (s : Schema) (fs : List Field) : Prop :=
  List.Forall₂ (fun p f => f.key = Identifier.propertyKey p.1 ∧
    (f.isOptional = false ↔ p.1 ∈ s.required)) (s.properties.getD []) fs

namespace Typing

variable {c : Catalog} {o : Settings} {stack : List String} {s t u : Schema} {position : List Nat}
  {f : Field} {fs : List Field}

/-- The fields of a schema are marked by it. -/
theorem marks_fields (c : Catalog) (o : Settings) (stack : List String) (s : Schema) :
    s.Marks (fields c o stack s).value := by
  rw [Schema.Marks, fields, Schema.value_fieldsWith, List.forall₂_map_right_iff, List.forall₂_same]
  intro p _
  refine ⟨rfl, ?_⟩
  rw [Schema.fieldWith, Bool.not_eq_false', List.contains_iff_mem]

/-- Typing the schema inside of the expansion of the names on the stack makes
the object type of the other schema at the position of the type. -/
inductive ObjectOf (c : Catalog) (o : Settings) :
    List String → Schema → List Nat → Schema → Prop
  | own {stack : List String} {s : Schema} {ps : List (String × Schema)}
      (hr : s.rule = .object ps) : ObjectOf c o stack s [] s
  | part {stack : List String} {s t u : Schema} {i : Nat} {position : List Nat}
      (ht : s.rule.parts[i]? = some t) (h : ObjectOf c o stack t position u) :
      ObjectOf c o stack s (i :: position) u
  | expand {stack : List String} {s t u : Schema} {r : String} {position : List Nat}
      (hi : o.inlineRefs = true) (hr : s.rule = .reference r) (hs : Reference.target r ∉ stack)
      (ht : Reference.resolve? r c = some t)
      (h : ObjectOf c o (stack ++ [Reference.target r]) t position u) :
      ObjectOf c o stack s position u

/-- The object type of the properties of the schema has the object type of the
other schema at the position. -/
def FieldsOf (c : Catalog) (o : Settings) (stack : List String) (s : Schema) (position : List Nat)
    (u : Schema) : Prop :=
  match position with
  | [] => u = s
  | i :: position =>
    ∃ p, (s.properties.getD [])[i]? = some p ∧ ObjectOf c o stack p.2 position u

/-! ### The object is that of the schema -/

theorem term_of_object {ps : List (String × Schema)} (hr : s.rule = .object ps) :
    term c o stack (some s) = object c o stack s := by
  have hk := Schema.keyword_of_rule s
  rw [hr] at hk
  rw [term, Schema.termWith_eq_rule, hr, object, fields, Schema.fieldsWith, hk, Schema.Rule.termWith]

/-- What stands at the position is the object type of the schema. -/
theorem subterm?_of_objectOf (h : ObjectOf c o stack s position u) :
    ∃ stack', (term c o stack (some s)).value.subterm? position =
      some (object c o stack' u).value := by
  induction h with
  | @own stack s ps hr => exact ⟨stack, by rw [TypeTerm.subterm?_nil, term_of_object hr]⟩
  | part ht _ ih =>
    rw [TypeTerm.subterm?_cons_of_child (getElem?_children_term ht)]
    exact ih
  | expand hi hr hs ht _ ih =>
    rw [term_expanded hi hr hs ht]
    exact ih

theorem getElem?_children_object {p : String × Schema} {i : Nat}
    (h : (s.properties.getD [])[i]? = some p) :
    (object c o stack s).value.children[i]? = some (term c o stack (some p.2)).value := by
  rw [object, Logged.value_map, TypeTerm.children, fields, Schema.types_fieldsWith,
    List.getElem?_map, h]
  rfl

theorem subterm?_of_fieldsOf (h : FieldsOf c o stack s position u) :
    ∃ stack', (object c o stack s).value.subterm? position = some (object c o stack' u).value := by
  cases position with
  | nil =>
    obtain rfl : u = s := h
    exact ⟨stack, TypeTerm.subterm?_nil _⟩
  | cons i position =>
    obtain ⟨p, hp, hu⟩ := h
    rw [TypeTerm.subterm?_cons_of_child (getElem?_children_object hp)]
    exact subterm?_of_objectOf hu

/-! ### Every object is that of a schema -/

/-- A type that is an object type with fields is made by the rule for
properties. -/
theorem rule_of_object (hs : ∀ r, s.rule ≠ .reference r)
    (h : (term c o stack (some s)).value = .object fs) : ∃ ps, s.rule = .object ps := by
  rw [term, Schema.termWith_eq_rule] at h
  cases hr : s.rule with
  | reference r => exact absurd hr (hs r)
  | object ps => exact ⟨ps, rfl⟩
  | plain p => rw [hr] at h; cases p <;> cases h
  | _ => rw [hr] at h; cases h

/-- There are no objects in the leaves. -/
theorem subterm?_leaf_ne_object {w : TypeTerm} (hw : w ∈ s.rule.leaves) (position : List Nat) :
    w.subterm? position ≠ some (.object fs) := by
  intro h
  obtain rfl | ⟨v, rfl⟩ := Schema.eq_of_mem_leaves hw
  · cases (TypeTerm.eq_of_subterm?_leaf rfl h).2
  · cases (TypeTerm.eq_of_subterm?_leaf rfl h).2

/-- An object type with fields is that of a schema. -/
theorem objectOf_of_subterm? (stack : List String) (s : Schema) :
    ∀ position, (term c o stack (some s)).value.subterm? position = some (.object (f :: fs)) →
      ∃ u, ObjectOf c o stack s position u := by
  induction stack, s using Typing.induction with
  | left stack s r hr h =>
    -- What is left for a reference is a name or an object without fields.
    intro position hp
    rw [term_of_reference hr] at hp
    rcases value_of_isLeft h with hv | ⟨-, hv⟩
    · rw [hv] at hp
      obtain ⟨-, hp⟩ := TypeTerm.eq_of_subterm?_leaf rfl hp
      cases hp
    · rw [hv] at hp
      obtain ⟨-, hp⟩ := TypeTerm.eq_of_subterm?_leaf rfl hp
      cases hp
  | expand stack s r t hi hr hs ht ih =>
    intro position hp
    rw [term_expanded hi hr hs ht] at hp
    obtain ⟨u, hu⟩ := ih position hp
    exact ⟨u, .expand hi hr hs ht hu⟩
  | parts stack s hs ih =>
    intro position hp
    rcases TypeTerm.subterm?_cases hp with ⟨rfl, hv⟩ | ⟨i, v, rest, rfl, hv, hp⟩
    · obtain ⟨ps, hr⟩ := rule_of_object hs hv.symm
      exact ⟨s, .own hr⟩
    · rcases part_or_leaf_of_child hs hv with ⟨t, ht, rfl⟩ | hleaf
      · obtain ⟨u, hu⟩ := ih t (List.mem_of_getElem? ht) rest hp
        exact ⟨u, .part ht hu⟩
      · exact absurd hp (subterm?_leaf_ne_object hleaf rest)

theorem fieldsOf_of_subterm?
    (h : (object c o stack s).value.subterm? position = some (.object (f :: fs))) :
    ∃ u, FieldsOf c o stack s position u := by
  rcases TypeTerm.subterm?_cases h with ⟨rfl, -⟩ | ⟨i, v, rest, rfl, hv, h⟩
  · exact ⟨s, rfl⟩
  · rw [object, Logged.value_map, TypeTerm.children, fields, Schema.types_fieldsWith,
      List.getElem?_map, Option.map_eq_some_iff] at hv
    obtain ⟨p, hp, rfl⟩ := hv
    obtain ⟨u, hu⟩ := objectOf_of_subterm? stack p.2 rest h
    exact ⟨u, p, hp, hu⟩

/-- The fields of an object are marked by the schema that it comes from. -/
theorem marks_of_objectOf (h : ObjectOf c o stack s position u) :
    ∃ fs, (term c o stack (some s)).value.subterm? position = some (.object fs) ∧ u.Marks fs := by
  obtain ⟨stack', h⟩ := subterm?_of_objectOf h
  exact ⟨_, h, marks_fields c o stack' u⟩

theorem exists_marks_of_subterm?
    (h : (term c o stack (some s)).value.subterm? position = some (.object (f :: fs))) :
    ∃ u, ObjectOf c o stack s position u ∧ u.Marks (f :: fs) := by
  obtain ⟨u, hu⟩ := objectOf_of_subterm? stack s position h
  obtain ⟨fs', hfs, hmarks⟩ := marks_of_objectOf hu
  rw [h] at hfs
  cases hfs
  exact ⟨u, hu, hmarks⟩

end Typing
end SchemaTypes
