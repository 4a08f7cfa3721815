/-
# The rule that decides the type of a schema

Of the keywords of a schema the first that applies decides its type; the
others are not looked at. `rule` is that decision with what it goes on to:
the reference to follow, the values to list, or the schemas whose types are
parts of the type. What is proved of every schema follows the parts of its
rule, which are smaller (`part_induction`).

Key definitions: `Schema.Rule`, `Schema.rule`, `Schema.Rule.parts`.
Key theorems: `Schema.termWith_eq_rule`, `Schema.part_induction`.
-/
import SchemaTypes.Typing

namespace SchemaTypes.Schema

/-- A type with no parts that depend on the schema. -/
inductive Plain where
  | number
  | string
  | boolean
  | anyArray
  | record
  | any
deriving DecidableEq, Repr

/-- The type that a plain type is. -/
def Plain.term : Plain → TypeTerm
  | .number => .number
  | .string => .string
  | .boolean => .boolean
  | .anyArray => .array .any
  | .record => .record
  | .any => .any

/-- What decides the type of a schema. -/
inductive Rule where
  | reference (r : String)
  | literals (values : List Json)
  | union (members : List Schema)
  | intersection (members : List Schema)
  | array (item : Schema)
  | object (properties : List (String × Schema))
  | plain (p : Plain)

/-- The rule of a schema by its kind alone. -/
def kindRule (s : Schema) : Rule :=
  match s.kind with
  | some .integer | some .number => .plain .number
  | some .string => .plain .string
  | some .boolean => .plain .boolean
  | some .array =>
    match s.items with
    | some item => .array item
    | none => .plain .anyArray
  | some .object =>
    match s.properties with
    | some ps => .object ps
    | none => .plain .record
  | some .unknown | none =>
    match s.properties with
    | some ps => .object ps
    | none => .plain .any

/-- The first rule that applies to a schema. -/
def rule (s : Schema) : Rule :=
  match s.reference with
  | some r => .reference r
  | none =>
    match s.stringEnumValues with
    | some vs => .literals vs
    | none =>
      match s.unionMembers with
      | some ms => .union ms
      | none =>
        match s.intersectionMembers with
        | some ms => .intersection ms
        | none => s.kindRule

/-- The schemas whose types are parts of the type. -/
def Rule.parts : Rule → List Schema
  | .union ms | .intersection ms => ms
  | .array item => [item]
  | .object ps => ps.map Prod.snd
  | .reference _ | .literals _ | .plain _ => []

/-- The type that a rule gives, where `required` lists the properties that
may not be left out. -/
def Rule.termWith (refer : String → Logged TypeTerm) (required : List String) :
    Rule → Logged TypeTerm
  | .reference r => refer r
  | .literals vs => ⟨.union (Schema.literals vs), []⟩
  | .union ms => (membersWith refer ms).map .union
  | .intersection ms => (membersWith refer ms).map .intersection
  | .array item => (Schema.termWith refer item).map .array
  | .object ps => (propertiesWith refer required ps).map .object
  | .plain p => ⟨p.term, []⟩

variable (refer : String → Logged TypeTerm)

theorem kindTermWith_eq_kindRule (s : Schema) :
    s.kindTermWith refer = s.kindRule.termWith refer s.required := by
  unfold kindTermWith kindRule fieldsWith
  rcases s.kind with _ | kind
  · cases s.properties <;> rfl
  · cases kind <;> cases s.properties <;> cases s.items <;> rfl

/-- The type of a schema is the one that its rule gives. -/
theorem termWith_eq_rule (s : Schema) :
    s.termWith refer = s.rule.termWith refer s.required := by
  rw [termWith_eq, rule]
  cases s.reference with
  | some r => rfl
  | none =>
    cases s.stringEnumValues with
    | some vs => rfl
    | none =>
      cases s.unionMembers with
      | some ms => rfl
      | none =>
        cases s.intersectionMembers with
        | some ms => rfl
        | none => exact kindTermWith_eq_kindRule refer s

/-! ### Lists of members and properties, entry by entry -/

@[simp] theorem value_membersWith (ms : List Schema) :
    (membersWith refer ms).value = ms.map fun m => (m.termWith refer).value := by
  induction ms with
  | nil => rfl
  | cons m ms ih => rw [membersWith, Logged.value_cons, ih, List.map_cons]

@[simp] theorem events_membersWith (ms : List Schema) :
    (membersWith refer ms).events = ms.flatMap fun m => (m.termWith refer).events := by
  induction ms with
  | nil => rfl
  | cons m ms ih => rw [membersWith, Logged.events_cons, ih, List.flatMap_cons]

/-- The field of a property. -/
def fieldWith (required : List String) (p : String × Schema) : Field :=
  ⟨Identifier.propertyKey p.1, !required.contains p.1, (p.2.termWith refer).value⟩

@[simp] theorem value_propertiesWith (required : List String) (ps : List (String × Schema)) :
    (propertiesWith refer required ps).value = ps.map (fieldWith refer required) := by
  induction ps with
  | nil => rfl
  | cons p ps ih => rw [propertiesWith, Logged.value_cons, ih, List.map_cons]; rfl

@[simp] theorem events_propertiesWith (required : List String) (ps : List (String × Schema)) :
    (propertiesWith refer required ps).events = ps.flatMap fun p => (p.2.termWith refer).events := by
  induction ps with
  | nil => rfl
  | cons p ps ih => rw [propertiesWith, Logged.events_cons, ih, List.flatMap_cons]; rfl

/-! ### The parts of a schema -/

theorem eq_some_of_nonempty {α : Type} {l : Option (List α)} {as : List α}
    (h : nonempty l = some as) : l = some as ∧ as ≠ [] := by
  unfold nonempty at h
  split at h
  · cases h
    exact ⟨rfl, List.cons_ne_nil _ _⟩
  · cases h

/-- Members of a union are those of `oneOf` or of `anyOf`, and there are some. -/
theorem unionMembers_eq_some {s : Schema} {ms : List Schema} (h : s.unionMembers = some ms) :
    (s.oneOf = some ms ∨ s.anyOf = some ms) ∧ ms ≠ [] := by
  unfold unionMembers at h
  split at h
  · rename_i ms' h'
    cases h
    exact ⟨.inl (eq_some_of_nonempty h').1, (eq_some_of_nonempty h').2⟩
  · exact ⟨.inr (eq_some_of_nonempty h).1, (eq_some_of_nonempty h).2⟩

theorem stringEnumValues_ne_nil {s : Schema} {vs : List Json} (h : s.stringEnumValues = some vs) :
    vs ≠ [] := by
  unfold stringEnumValues at h
  split at h
  · exact (eq_some_of_nonempty h).2
  · exact (eq_some_of_nonempty h).2
  · cases h

/-- What a rule goes on to stands under a keyword of the schema. -/
theorem keyword_of_rule (s : Schema) :
    match s.rule with
    | .reference r => s.reference = some r
    | .literals vs => s.stringEnumValues = some vs
    | .union ms => s.unionMembers = some ms
    | .intersection ms => s.intersectionMembers = some ms
    | .array item => s.items = some item
    | .object ps => s.properties = some ps
    | .plain _ => True := by
  unfold rule
  cases hr : s.reference with
  | some r => rfl
  | none =>
    cases hv : s.stringEnumValues with
    | some vs => rfl
    | none =>
      cases hu : s.unionMembers with
      | some ms => rfl
      | none =>
        cases hi : s.intersectionMembers with
        | some ms => rfl
        | none =>
          unfold kindRule
          rcases s.kind with _ | kind
          · cases hp : s.properties <;> simp
          · cases kind <;> cases hp : s.properties <;> cases ht : s.items <;> simp

/-- A rule that lists members or values lists at least one. -/
theorem rule_ne_nil (s : Schema) :
    match s.rule with
    | .literals vs => vs ≠ []
    | .union ms | .intersection ms => ms ≠ []
    | _ => True := by
  have h := keyword_of_rule s
  cases hr : s.rule with
  | literals vs => rw [hr] at h; exact stringEnumValues_ne_nil h
  | union ms => rw [hr] at h; exact (unionMembers_eq_some h).2
  | intersection ms => rw [hr] at h; exact (eq_some_of_nonempty h).2
  | _ => trivial

theorem sizeOf_lt_of_mem_some {l : Option (List Schema)} {ms : List Schema} {t : Schema}
    (h : l = some ms) (ht : t ∈ ms) : sizeOf t < sizeOf l := by
  have := List.sizeOf_lt_of_mem ht
  rw [h, Option.some.sizeOf_spec]
  omega

theorem sizeOf_lt_of_keyword {s t : Schema}
    (h : (∃ ms, (s.oneOf = some ms ∨ s.anyOf = some ms ∨ s.allOf = some ms) ∧ t ∈ ms) ∨
      s.items = some t ∨ ∃ ps, s.properties = some ps ∧ t ∈ ps.map Prod.snd) :
    sizeOf t < sizeOf s := by
  obtain ⟨kind, enum, properties, required, oneOf, anyOf, allOf, reference, items⟩ := s
  simp only at h
  rw [mk.sizeOf_spec]
  obtain ⟨ms, h | h | h, ht⟩ | h | ⟨ps, h, ht⟩ := h
  · have := sizeOf_lt_of_mem_some h ht
    omega
  · have := sizeOf_lt_of_mem_some h ht
    omega
  · have := sizeOf_lt_of_mem_some h ht
    omega
  · rw [h, Option.some.sizeOf_spec]
    omega
  · obtain ⟨p, hp, rfl⟩ := List.mem_map.1 ht
    have := List.sizeOf_lt_of_mem hp
    have : sizeOf p.2 < sizeOf p := by
      obtain ⟨n, t⟩ := p
      simp only [Prod.mk.sizeOf_spec]
      omega
    rw [h, Option.some.sizeOf_spec]
    omega

/-- The parts of a schema are smaller than the schema. -/
theorem sizeOf_lt_of_mem_parts {s t : Schema} (h : t ∈ s.rule.parts) : sizeOf t < sizeOf s := by
  have hk := keyword_of_rule s
  refine sizeOf_lt_of_keyword ?_
  cases hr : s.rule with
  | reference r => rw [hr] at h; cases h
  | literals vs => rw [hr] at h; cases h
  | plain p => rw [hr] at h; cases h
  | union ms =>
    rw [hr] at h hk
    exact .inl ⟨ms, (unionMembers_eq_some hk).1.imp_right .inl, h⟩
  | intersection ms =>
    rw [hr] at h hk
    exact .inl ⟨ms, .inr (.inr (eq_some_of_nonempty hk).1), h⟩
  | array item =>
    rw [hr] at h hk
    exact .inr (.inl (List.mem_singleton.1 h ▸ hk))
  | object ps =>
    rw [hr] at h hk
    exact .inr (.inr ⟨ps, hk, h⟩)

/-- A schema with parts is not a reference. -/
theorem rule_ne_reference_of_mem_parts {s t : Schema} (h : t ∈ s.rule.parts) (r : String) :
    s.rule ≠ .reference r := by
  intro hr
  rw [hr] at h
  cases h

/-- What holds of a schema as soon as it holds of its parts holds of every
schema. -/
@[elab_as_elim]
theorem part_induction {motive : Schema → Prop}
    (step : ∀ s : Schema, (∀ t ∈ s.rule.parts, motive t) → motive s) (s : Schema) : motive s :=
  step s fun t _ => part_induction step t
termination_by sizeOf s
decreasing_by exact sizeOf_lt_of_mem_parts ‹_›

end SchemaTypes.Schema
