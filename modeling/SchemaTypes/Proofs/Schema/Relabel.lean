/-
# Relabelings of schemas

A relabeling changes what types only carry along: the text of a declared name
and the flag of a field. Schemas and settings have a part in both, by the
`required` lists and the naming prefix, so a relabeling also says how these
have to change for the types to change in this way.

Four relabelings are of use. One puts a text in front of every declared name;
one takes all names out of the `required` lists, so that every field may be
left out. The other two change no type at all: one turns the switch for
exported declarations, and one cuts the `required` lists down to the names
that matter.

A relabeled schema has the same rule, with the parts relabeled: what decides
the type of a schema does not look at `required`.

Key definitions: `Relabeling`, `Schema.relabel`, `Catalog.relabel`.
Key theorems: `Schema.rule_relabel`, `Schema.relabel_of_required`,
`Catalog.find?_relabel`.
-/
import SchemaTypes.Proofs.Schema.Nesting

namespace SchemaTypes

/-- A change of names and flags in types, with the changes of `required` lists
and settings that bring it about. -/
structure Relabeling where
  /-- What becomes of a declared name. -/
  name : String → String
  /-- What becomes of a flag. -/
  flag : Bool → Bool
  /-- What becomes of a `required` list beside properties of the given names. -/
  required : List String → List String → List String
  settings : Settings → Settings
  flag_required : ∀ names listed n, n ∈ names →
    (!(required names listed).contains n) = flag (!listed.contains n)
  declaredName_settings : ∀ o n, (settings o).declaredName n = name (o.declaredName n)
  inlineRefs_settings : ∀ o, (settings o).inlineRefs = o.inlineRefs
  typedAliases_settings : ∀ o, (settings o).typedAliases = o.typedAliases

namespace Relabeling

/-- Puts a text in front of every declared name. -/
def prefixing (start : String) : Relabeling where
  name n := start ++ n
  flag := id
  required _ listed := listed
  settings o := { o with namePrefix := start ++ o.namePrefix }
  flag_required _ _ _ _ := rfl
  declaredName_settings _ _ := String.append_assoc
  inlineRefs_settings _ := rfl
  typedAliases_settings _ := rfl

/-- Turns the switch for exported declarations. -/
def exporting (exported : Bool) : Relabeling where
  name := id
  flag := id
  required _ listed := listed
  settings o := { o with exported := exported }
  flag_required _ _ _ _ := rfl
  declaredName_settings _ _ := rfl
  inlineRefs_settings _ := rfl
  typedAliases_settings _ := rfl

/-- Requires nothing, so that every field may be left out. -/
def unmarking : Relabeling where
  name := id
  flag _ := true
  required _ _ := []
  settings := id
  flag_required _ _ _ _ := rfl
  declaredName_settings _ _ := rfl
  inlineRefs_settings _ := rfl
  typedAliases_settings _ := rfl

/-- Requires of the names of the properties those that were required, in the
order of the properties. -/
def trimming : Relabeling where
  name := id
  flag := id
  required names listed := names.filter listed.contains
  settings := id
  flag_required names listed n hn := by
    simp [hn]
  declaredName_settings _ _ := rfl
  inlineRefs_settings _ := rfl
  typedAliases_settings _ := rfl

end Relabeling

namespace Schema

/-! ### Schemas under a function -/

theorem nonempty_map {α β : Type} (f : α → β) (l : Option (List α)) :
    nonempty (l.map (List.map f)) = (nonempty l).map (List.map f) := by
  match l with
  | none => rfl
  | some [] => rfl
  | some (a :: as) => rfl

/-- The rule with the schemas that it goes on to under a function. -/
def Rule.map (f : Schema → Schema) : Rule → Rule
  | .reference r => .reference r
  | .literals vs => .literals vs
  | .union ms => .union (ms.map f)
  | .intersection ms => .intersection (ms.map f)
  | .array item => .array (f item)
  | .object ps => .object (ps.map fun p => (p.1, f p.2))
  | .plain p => .plain p

section

variable {f : Schema → Schema} {s t : Schema}

theorem kindRule_map (hkind : t.kind = s.kind)
    (hproperties : t.properties = s.properties.map (List.map fun p => (p.1, f p.2)))
    (hitems : t.items = s.items.map f) : t.kindRule = s.kindRule.map f := by
  rw [kindRule, kindRule, hkind, hproperties, hitems]
  rcases s.kind with _ | kind
  · cases s.properties <;> rfl
  · cases kind <;> cases s.properties <;> cases s.items <;> rfl

/-- If what the rules look at goes over to the other schema with the parts
under the function, so does the rule. -/
theorem rule_map (hreference : t.reference = s.reference)
    (henum : t.stringEnumValues = s.stringEnumValues)
    (hunion : t.unionMembers = s.unionMembers.map (List.map f))
    (hintersection : t.intersectionMembers = s.intersectionMembers.map (List.map f))
    (hkind : t.kindRule = s.kindRule.map f) : t.rule = s.rule.map f := by
  rw [rule, rule, hreference, henum, hunion, hintersection, hkind]
  cases s.reference with
  | some r => rfl
  | none =>
    cases s.stringEnumValues with
    | some vs => rfl
    | none =>
      cases s.unionMembers with
      | some ms => rfl
      | none =>
        cases s.intersectionMembers with
        | some ms => rfl
        | none => rfl

end

/-! ### Relabeled schemas -/

section

variable (ρ : Relabeling)

mutual

/-- The schema with the `required` lists changed, at every depth. -/
def relabel : Schema → Schema
  | { kind, enum, properties, required, oneOf, anyOf, allOf, reference, items } =>
    { kind, enum, reference
      properties := match properties with | some ps => some (relabelProperties ps) | none => none
      required := ρ.required ((properties.getD []).map Prod.fst) required
      oneOf := match oneOf with | some ms => some (relabelMembers ms) | none => none
      anyOf := match anyOf with | some ms => some (relabelMembers ms) | none => none
      allOf := match allOf with | some ms => some (relabelMembers ms) | none => none
      items := match items with | some t => some (relabel t) | none => none }

/-- Each of the schemas relabeled. -/
def relabelMembers : List Schema → List Schema
  | [] => []
  | s :: ss => relabel s :: relabelMembers ss

/-- The properties with their schemas relabeled. -/
def relabelProperties : List (String × Schema) → List (String × Schema)
  | [] => []
  | (name, s) :: ps => (name, relabel s) :: relabelProperties ps

end

theorem relabelMembers_eq (ms : List Schema) : relabelMembers ρ ms = ms.map (relabel ρ) := by
  induction ms with
  | nil => rfl
  | cons m ms ih => rw [relabelMembers, ih, List.map_cons]

theorem relabelProperties_eq (ps : List (String × Schema)) :
    relabelProperties ρ ps = ps.map fun p => (p.1, p.2.relabel ρ) := by
  induction ps with
  | nil => rfl
  | cons p ps ih => rw [relabelProperties, ih, List.map_cons]

/-- What relabeling does, keyword by keyword. -/
theorem relabel_eq (s : Schema) :
    s.relabel ρ =
      { kind := s.kind, enum := s.enum, reference := s.reference
        properties := s.properties.map (List.map fun p => (p.1, p.2.relabel ρ))
        required := ρ.required ((s.properties.getD []).map Prod.fst) s.required
        oneOf := s.oneOf.map (List.map (relabel ρ))
        anyOf := s.anyOf.map (List.map (relabel ρ))
        allOf := s.allOf.map (List.map (relabel ρ))
        items := s.items.map (relabel ρ) } := by
  obtain ⟨kind, enum, properties, required, oneOf, anyOf, allOf, reference, items⟩ := s
  conv_lhs => unfold relabel
  congr
  · cases properties with
    | none => rfl
    | some ps => exact congrArg some (relabelProperties_eq ρ ps)
  · cases oneOf with
    | none => rfl
    | some ms => exact congrArg some (relabelMembers_eq ρ ms)
  · cases anyOf with
    | none => rfl
    | some ms => exact congrArg some (relabelMembers_eq ρ ms)
  · cases allOf with
    | none => rfl
    | some ms => exact congrArg some (relabelMembers_eq ρ ms)
  · cases items with
    | none => rfl
    | some t => rfl

theorem reference_relabel (s : Schema) : (s.relabel ρ).reference = s.reference := by
  rw [relabel_eq]

theorem properties_relabel (s : Schema) :
    (s.relabel ρ).properties = s.properties.map (List.map fun p => (p.1, p.2.relabel ρ)) := by
  conv_lhs => rw [relabel_eq]

theorem required_relabel (s : Schema) :
    (s.relabel ρ).required = ρ.required ((s.properties.getD []).map Prod.fst) s.required := by
  conv_lhs => rw [relabel_eq]

theorem enumValues_relabel (s : Schema) : (s.relabel ρ).enumValues = s.enumValues := by
  rw [relabel_eq]
  rfl

theorem stringEnumValues_relabel (s : Schema) :
    (s.relabel ρ).stringEnumValues = s.stringEnumValues := by
  rw [relabel_eq]
  rfl

theorem unionMembers_relabel (s : Schema) :
    (s.relabel ρ).unionMembers = s.unionMembers.map (List.map (relabel ρ)) := by
  conv_lhs => rw [relabel_eq]
  unfold unionMembers
  simp only [nonempty_map]
  cases nonempty s.oneOf with
  | none => rfl
  | some ms => rfl

theorem intersectionMembers_relabel (s : Schema) :
    (s.relabel ρ).intersectionMembers = s.intersectionMembers.map (List.map (relabel ρ)) := by
  conv_lhs => rw [relabel_eq]
  exact nonempty_map (relabel ρ) s.allOf

theorem isObjectShaped_relabel (s : Schema) : (s.relabel ρ).isObjectShaped = s.isObjectShaped := by
  conv_lhs => rw [relabel_eq]
  rw [isObjectShaped, isObjectShaped, Option.isSome_map]

theorem kindRule_relabel (s : Schema) : (s.relabel ρ).kindRule = s.kindRule.map (relabel ρ) := by
  conv_lhs => rw [relabel_eq]
  exact kindRule_map rfl rfl rfl

/-- **The same rule decides.** A relabeled schema is typed by the same rule,
with the parts relabeled. -/
theorem rule_relabel (s : Schema) : (s.relabel ρ).rule = s.rule.map (relabel ρ) :=
  rule_map (reference_relabel ρ s) (stringEnumValues_relabel ρ s) (unionMembers_relabel ρ s)
    (intersectionMembers_relabel ρ s) (kindRule_relabel ρ s)

end

/-! ### Relabelings that keep the lists -/

theorem sizeOf_lt_of_mem_subschemas {s t : Schema} (h : t ∈ s.subschemas) :
    sizeOf t < sizeOf s := by
  have hlist : ∀ l : Option (List Schema), t ∈ l.getD [] → ∃ ms, l = some ms ∧ t ∈ ms := by
    intro l ht
    cases l with
    | none => cases ht
    | some ms => exact ⟨ms, rfl, ht⟩
  refine sizeOf_lt_of_keyword ?_
  simp only [subschemas, List.mem_append] at h
  rcases h with (((h | h) | h) | h) | h
  · cases hp : s.properties with
    | none => rw [hp] at h; cases h
    | some ps => rw [hp] at h; exact .inr (.inr ⟨ps, rfl, h⟩)
  · obtain ⟨ms, hms, ht⟩ := hlist _ h
    exact .inl ⟨ms, .inl hms, ht⟩
  · obtain ⟨ms, hms, ht⟩ := hlist _ h
    exact .inl ⟨ms, .inr (.inl hms), ht⟩
  · obtain ⟨ms, hms, ht⟩ := hlist _ h
    exact .inl ⟨ms, .inr (.inr hms), ht⟩
  · exact .inr (.inl (Option.mem_toList.1 h))

/-- What holds of a schema as soon as it holds of the schemas under its
keywords holds of every schema. -/
@[elab_as_elim]
theorem subschema_induction {motive : Schema → Prop}
    (step : ∀ s : Schema, (∀ t ∈ s.subschemas, motive t) → motive s) (s : Schema) : motive s :=
  step s fun t _ => subschema_induction step t
termination_by sizeOf s
decreasing_by exact sizeOf_lt_of_mem_subschemas ‹_›

/-- A relabeling that keeps the `required` lists keeps the schema. -/
theorem relabel_of_required {ρ : Relabeling} (h : ∀ names listed, ρ.required names listed = listed)
    (s : Schema) : s.relabel ρ = s := by
  induction s using subschema_induction with
  | step s ih =>
    have hmembers : ∀ l : Option (List Schema), (∀ t ∈ l.getD [], t ∈ s.subschemas) →
        l.map (List.map (relabel ρ)) = l := by
      intro l hl
      cases l with
      | none => rfl
      | some ms =>
        have hms : ms.map (relabel ρ) = ms.map id := List.map_congr_left fun m hm => ih m (hl m hm)
        rw [Option.map_some, hms, List.map_id]
    have hproperties : s.properties.map (List.map fun p => (p.1, p.2.relabel ρ)) = s.properties := by
      cases hp : s.properties with
      | none => rfl
      | some ps =>
        have hps : ps.map (fun p => (p.1, p.2.relabel ρ)) = ps.map id := by
          refine List.map_congr_left fun p hmem => ?_
          rw [ih p.2 (mem_subschemas_of_property (by rw [hp]; exact hmem))]
          rfl
        rw [Option.map_some, hps, List.map_id]
    have hitems : s.items.map (relabel ρ) = s.items := by
      cases hi : s.items with
      | none => rfl
      | some t => rw [Option.map_some, ih t (by simp [subschemas, hi])]
    have honeOf := hmembers s.oneOf (by simp +contextual [subschemas])
    have hanyOf := hmembers s.anyOf (by simp +contextual [subschemas])
    have hallOf := hmembers s.allOf (by simp +contextual [subschemas])
    rw [relabel_eq, h, hproperties, hitems, honeOf, hanyOf, hallOf]
    cases s
    rfl

end Schema

namespace Catalog

/-- The catalog with its schemas relabeled. -/
def relabel (ρ : Relabeling) (c : Catalog) : Catalog where
  entries := c.entries.map fun e => (e.1, e.2.relabel ρ)
  nodup := by
    rw [Entries.names_map]
    exact c.nodup

/-- A name stands for the same schema, relabeled. -/
theorem find?_relabel (ρ : Relabeling) (c : Catalog) (n : String) :
    (c.relabel ρ).find? n = (c.find? n).map (Schema.relabel ρ) :=
  Entries.find?_map (Schema.relabel ρ) n c.entries

/-- A relabeling that keeps the `required` lists keeps the catalog. -/
theorem relabel_of_required {ρ : Relabeling} (h : ∀ names listed, ρ.required names listed = listed)
    (c : Catalog) : c.relabel ρ = c := by
  have hentries : c.entries.map (fun e => (e.1, e.2.relabel ρ)) = c.entries.map id := by
    refine List.map_congr_left fun e _ => ?_
    rw [Schema.relabel_of_required h]
    rfl
  obtain ⟨entries, nodup⟩ := c
  rw [List.map_id] at hentries
  unfold relabel
  simp only [hentries]

theorem contains_relabel (ρ : Relabeling) (c : Catalog) (n : String) :
    (c.relabel ρ).contains n = c.contains n := by
  rw [contains, contains, find?_relabel, Option.isSome_map]

end Catalog
end SchemaTypes
