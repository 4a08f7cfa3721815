/-
# The references that typing a schema meets

Typing a schema asks for the types of the references it meets, from left to
right (`Schema.references`), and uses nothing else of the catalog. So the
names left in its type and the events of its making are those of these
references, in order, and the type changes only with theirs.

A reference has one of four outcomes: it is kept by name, it is cut because
its target is being expanded, its target is missing, or it is expanded. An
expansion pushes one more name of the catalog, so what holds of a stack as
soon as it holds of the longer ones holds of every stack
(`Catalog.stack_induction`).

Key definitions: `Schema.references`, `Typing.Meets`, `Typing.Visits`.
Key theorems: `Schema.names_termWith`, `Schema.events_termWith`,
`Typing.reference_expanded`, `Catalog.stack_induction`.
-/
import Mathlib.Data.List.Basic
import SchemaTypes.Proofs.Schema.Rule
import SchemaTypes.Proofs.TypeTerm.Position
import SchemaTypes.Typing

namespace SchemaTypes

namespace Schema

/-- The references that typing a schema meets, from left to right. -/
def references (s : Schema) : List String :=
  match s.rule with
  | .reference r => [r]
  | _ => s.rule.parts.attach.flatMap fun t => references t.1
termination_by sizeOf s
decreasing_by exact sizeOf_lt_of_mem_parts t.2

theorem references_of_reference {s : Schema} {r : String} (h : s.rule = .reference r) :
    s.references = [r] := by
  rw [references, h]

theorem references_of_parts {s : Schema} (h : ∀ r, s.rule ≠ .reference r) :
    s.references = s.rule.parts.flatMap references := by
  rw [references]
  split
  · rename_i r hr
    exact absurd hr (h r)
  · rw [List.flatMap_subtype (g := references) fun _ _ => rfl, List.unattach_attach]

/-- The children of a type that are the same whatever its references are. -/
def Rule.leaves : Rule → List TypeTerm
  | .literals vs => Schema.literals vs
  | .plain .anyArray => [.any]
  | _ => []

variable {refer refer' : String → Logged TypeTerm}

theorem termWith_of_reference {s : Schema} {r : String} (h : s.rule = .reference r) :
    s.termWith refer = refer r := by
  rw [termWith_eq_rule, h, Rule.termWith]

/-- The children of a type are the types of the parts of its schema, and the
leaves. -/
theorem children_termWith {s : Schema} (h : ∀ r, s.rule ≠ .reference r) :
    (s.termWith refer).value.children =
      (s.rule.parts.map fun t => (t.termWith refer).value) ++ s.rule.leaves := by
  rw [termWith_eq_rule]
  cases hr : s.rule with
  | reference r => exact absurd hr (h r)
  | literals vs => simp [Rule.termWith, Rule.parts, Rule.leaves, TypeTerm.children]
  | union ms => simp [Rule.termWith, Rule.parts, Rule.leaves, TypeTerm.children]
  | intersection ms => simp [Rule.termWith, Rule.parts, Rule.leaves, TypeTerm.children]
  | array item => simp [Rule.termWith, Rule.parts, Rule.leaves, TypeTerm.children]
  | object ps =>
    simp [Rule.termWith, Rule.parts, Rule.leaves, TypeTerm.children, fieldWith,
      Function.comp_def]
  | plain p => cases p <;> rfl

/-- Only a reference becomes a name. -/
theorem termWith_ne_named {s : Schema} (h : ∀ r, s.rule ≠ .reference r) (n : String) :
    (s.termWith refer).value ≠ .named n := by
  rw [termWith_eq_rule]
  cases hr : s.rule with
  | reference r => exact absurd hr (h r)
  | plain p => cases p <;> exact TypeTerm.noConfusion
  | _ => exact TypeTerm.noConfusion

/-- A leaf is the item of an array without a schema or the literal of a value. -/
theorem eq_of_mem_leaves {rule : Rule} {u : TypeTerm} (h : u ∈ rule.leaves) :
    u = .any ∨ ∃ v : Json, u = .literal v.compact := by
  cases rule with
  | literals vs =>
    obtain ⟨v, -, rfl⟩ := List.mem_map.1 h
    exact .inr ⟨v, rfl⟩
  | plain p =>
    cases p with
    | anyArray => exact .inl (List.mem_singleton.1 h)
    | _ => cases h
  | _ => cases h

/-- The leaves have no names in them. -/
theorem names_leaves (rule : Rule) : rule.leaves.flatMap TypeTerm.names = [] := by
  rw [List.flatMap_eq_nil_iff]
  intro u hu
  obtain rfl | ⟨v, rfl⟩ := eq_of_mem_leaves hu
  · rfl
  · rfl

/-- The names left in the type of a schema are those left in the types of its
references. -/
theorem names_termWith (s : Schema) :
    (s.termWith refer).value.names = s.references.flatMap fun r => (refer r).value.names := by
  induction s using part_induction with
  | step s ih =>
    by_cases h : ∃ r, s.rule = .reference r
    · obtain ⟨r, hr⟩ := h
      rw [termWith_of_reference hr, references_of_reference hr, List.flatMap_singleton]
    · have h : ∀ r, s.rule ≠ .reference r := fun r hr => h ⟨r, hr⟩
      rw [TypeTerm.names_eq (termWith_ne_named h), children_termWith h, List.flatMap_append,
        names_leaves, List.append_nil, List.flatMap_map, references_of_parts h,
        List.flatMap_assoc]
      exact List.flatMap_congr fun t ht => ih t ht

/-- The events of typing a schema are those of its references. -/
theorem events_termWith (s : Schema) :
    (s.termWith refer).events = s.references.flatMap fun r => (refer r).events := by
  induction s using part_induction with
  | step s ih =>
    by_cases h : ∃ r, s.rule = .reference r
    · obtain ⟨r, hr⟩ := h
      rw [termWith_of_reference hr, references_of_reference hr, List.flatMap_singleton]
    · have h : ∀ r, s.rule ≠ .reference r := fun r hr => h ⟨r, hr⟩
      have hparts : (s.termWith refer).events =
          s.rule.parts.flatMap fun t => (t.termWith refer).events := by
        rw [termWith_eq_rule]
        cases hr : s.rule with
        | reference r => exact absurd hr (h r)
        | object ps => simp [Rule.termWith, Rule.parts, List.flatMap_map]
        | _ => simp [Rule.termWith, Rule.parts]
      rw [hparts, references_of_parts h, List.flatMap_assoc]
      exact List.flatMap_congr fun t ht => ih t ht

end Schema

/-! ### The outcomes of a reference -/

namespace Catalog

theorem mem_names_of_resolve? {c : Catalog} {r : String} {s : Schema}
    (h : Reference.resolve? r c = some s) : Reference.target r ∈ c.names :=
  mem_names_of_find? h

/-- What holds of a stack as soon as it holds of every stack with one more
name of the catalog holds of every stack. -/
@[elab_as_elim]
theorem stack_induction (c : Catalog) {motive : List String → Prop}
    (step : ∀ stack, (∀ n ∈ c.names, n ∉ stack → motive (stack ++ [n])) → motive stack)
    (stack : List String) : motive stack :=
  step stack fun n _ _ => stack_induction c step (stack ++ [n])
termination_by c.unexpanded stack
decreasing_by exact unexpanded_push ‹_› ‹_›

end Catalog

namespace Typing

variable {c : Catalog} {o : Settings} {stack : List String} {r : String}

theorem reference_kept (h : o.inlineRefs = false) :
    reference c o stack r =
      ⟨named o r, if c.contains (Reference.target r) then [] else [.unknown r]⟩ := by
  rw [reference, h]
  cases c.contains (Reference.target r) <;> rfl

theorem reference_cut (h : o.inlineRefs = true) (hs : Reference.target r ∈ stack) :
    reference c o stack r = ⟨named o r, [.cycle r]⟩ := by
  rw [reference, if_pos h, dif_pos hs]

theorem reference_missing (h : o.inlineRefs = true) (hs : Reference.target r ∉ stack)
    (hc : Reference.resolve? r c = none) :
    reference c o stack r = ⟨.object [], [.unknownExpanded r]⟩ := by
  rw [reference, if_pos h, dif_neg hs]
  split
  · rfl
  · rename_i s hs'
    rw [hc] at hs'
    cases hs'

theorem reference_expanded {s : Schema} (h : o.inlineRefs = true)
    (hs : Reference.target r ∉ stack) (hc : Reference.resolve? r c = some s) :
    reference c o stack r = s.termWith (reference c o (stack ++ [Reference.target r])) := by
  rw [reference, if_pos h, dif_neg hs]
  split
  · rename_i hs'
    rw [hc] at hs'
    cases hs'
  · rename_i s' hs'
    rw [hc] at hs'
    cases hs'
    rfl

/-! ### What typing a schema comes to -/

/-- Typing the first schema comes to the second one: by parts, and from a
reference that is expanded to the schema of its target. -/
inductive Meets (c : Catalog) (o : Settings) : Schema → Schema → Prop
  | refl (s : Schema) : Meets c o s s
  | part {s t u : Schema} (h : t ∈ s.rule.parts) (hu : Meets c o t u) : Meets c o s u
  | expand {s t u : Schema} {r : String} (hi : o.inlineRefs = true) (hr : s.rule = .reference r)
      (ht : Reference.resolve? r c = some t) (hu : Meets c o t u) : Meets c o s u

/-- Typing the schema comes to the reference. -/
def Visits (c : Catalog) (o : Settings) (s : Schema) (r : String) : Prop :=
  ∃ u, Meets c o s u ∧ u.rule = .reference r

theorem Meets.trans {s t u : Schema} (h : Meets c o s t) (h' : Meets c o t u) : Meets c o s u := by
  induction h with
  | refl => exact h'
  | part hp _ ih => exact .part hp (ih h')
  | expand hi hr ht _ ih => exact .expand hi hr ht (ih h')

/-- The references of a schema stand in nodes that typing it comes to. -/
theorem exists_meets_of_mem_references {s : Schema} (h : r ∈ s.references) :
    ∃ u, Meets c o s u ∧ u.rule = .reference r := by
  induction s using Schema.part_induction with
  | step s ih =>
    by_cases hs : ∃ r', s.rule = .reference r'
    · obtain ⟨r', hr'⟩ := hs
      rw [Schema.references_of_reference hr'] at h
      exact ⟨s, .refl s, List.mem_singleton.1 h ▸ hr'⟩
    · rw [Schema.references_of_parts fun r' hr' => hs ⟨r', hr'⟩] at h
      obtain ⟨t, ht, hr⟩ := List.mem_flatMap.1 h
      obtain ⟨u, hu, hur⟩ := ih t ht hr
      exact ⟨u, .part ht hu, hur⟩

theorem visits_of_mem_references {s : Schema} (h : r ∈ s.references) : Visits c o s r :=
  exists_meets_of_mem_references h

/-- What the target of an expanded reference comes to, the schema comes to. -/
theorem meets_of_mem_references {s t u : Schema} (hi : o.inlineRefs = true)
    (h : r ∈ s.references) (ht : Reference.resolve? r c = some t) (hu : Meets c o t u) :
    Meets c o s u := by
  obtain ⟨v, hv, hr⟩ := exists_meets_of_mem_references (c := c) (o := o) h
  exact hv.trans (.expand hi hr ht hu)

/-- If the references of a schema and of the entries all have targets in the
catalog, so has every reference that typing the schema comes to. -/
theorem contains_of_visits {s : Schema}
    (hs : ∀ r ∈ s.references, c.contains (Reference.target r) = true)
    (hc : ∀ n t, c.find? n = some t → ∀ r ∈ t.references, c.contains (Reference.target r) = true)
    (h : Visits c o s r) : c.contains (Reference.target r) = true := by
  obtain ⟨u, hu, hr⟩ := h
  induction hu with
  | refl u =>
    rw [Schema.references_of_reference hr] at hs
    exact hs r (List.mem_singleton_self r)
  | part hp _ ih =>
    refine ih (fun r' hr' => hs r' ?_) hr
    rw [Schema.references_of_parts (Schema.rule_ne_reference_of_mem_parts hp)]
    exact List.mem_flatMap.2 ⟨_, hp, hr'⟩
  | expand _ _ ht _ ih => exact ih (hc _ _ ht) hr

end Typing

/-! ### A ring of two schemas -/

/-- A schema with one property, a reference. -/
def Schema.link (key reference : String) : Schema :=
  { properties := some [(key, .ofReference reference)] }

/-- Two schemas, each with a property that refers to the other one. -/
def Catalog.ring : Catalog where
  entries :=
    [("A", .link "b" "#/components/schemas/B"), ("B", .link "a" "#/components/schemas/A")]
  nodup := by decide

theorem Catalog.eq_link_of_ring {n : String} {s : Schema} (h : ring.find? n = some s) :
    n = "A" ∧ s = .link "b" "#/components/schemas/B" ∨
      n = "B" ∧ s = .link "a" "#/components/schemas/A" := by
  have := Entries.mem_of_find? h
  simpa [ring] using this

/-- The type of a schema with one property, a reference. -/
theorem Schema.termWith_link (refer : String → Logged TypeTerm) (key r : String) :
    (link key r).termWith refer =
      ⟨.object [⟨Identifier.propertyKey key, true, (refer r).value⟩], (refer r).events ++ []⟩ :=
  rfl

/-- Inside of the declaration of `A` the ring is cut at the reference back to
`A`. -/
theorem Typing.term_ring :
    term .ring { inlineRefs := true } ["A"] (some (.link "b" "#/components/schemas/B")) =
      ⟨.object [⟨"b", true, .object [⟨"a", true, .named "IA"⟩]⟩],
        [.cycle "#/components/schemas/A"]⟩ := by
  rw [term, Schema.termWith_link, reference_expanded rfl (by decide) rfl, Schema.termWith_link,
    reference_cut rfl (by decide)]
  rfl

end SchemaTypes
