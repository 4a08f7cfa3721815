/-
# The row that declares a schema

A declaration is chosen from a table of five rows, the first that applies.
`row` is that choice with the members it goes on to. A declaration looks up
only some of the references of its schema (`lookups`): a reference that is
itself a member of a union or an intersection is kept by its name, without a
look at the catalog. The declaration changes only with the types of the
references it looks up, and its events are theirs.

Key definitions: `Schema.Row`, `Schema.row`, `Schema.lookups`,
`Schema.declareWith`, `Declaration.types`.
Key theorems: `Catalog.declare_eq_declareWith`,
`Schema.value_declareWith_congr`, `Schema.events_declareWith`,
`Schema.mem_names_declareWith`.
-/
import SchemaTypes.Declaration.Emit
import SchemaTypes.Proofs.Typing.Congruence

namespace SchemaTypes

/-- The types in a declaration, from left to right. -/
def Declaration.types : Declaration → List TypeTerm
  | .enum .. => []
  | .union _ ts | .intersection _ ts => ts
  | .interface _ fs => fs.map FieldOf.type
  | .typeAlias _ t => [t]

namespace Schema

/-- A row of the table of declarations. -/
inductive Row where
  | enum (values : List Json)
  | union (members : List Schema)
  | intersection (members : List Schema)
  | interface
  | typeAlias

/-- The first row that applies to a schema. -/
def row (s : Schema) : Row :=
  match s.enumValues with
  | some vs => .enum vs
  | none =>
    match s.unionMembers with
    | some ms => .union ms
    | none =>
      match s.intersectionMembers with
      | some ms => .intersection ms
      | none => if s.isObjectShaped then .interface else .typeAlias

/-- The type of a member of a union or an intersection. -/
def memberWith (refer : String → Logged TypeTerm) (o : Settings) (m : Schema) : Logged TypeTerm :=
  match m.reference with
  | some r => ⟨Typing.named o r, []⟩
  | none => (m.fieldsWith refer).map .object

/-- The types of the members of a union or an intersection. -/
def memberListWith (refer : String → Logged TypeTerm) (o : Settings) (ms : List Schema) :
    Logged (List TypeTerm) :=
  ⟨ms.map fun m => (m.memberWith refer o).value, ms.flatMap fun m => (m.memberWith refer o).events⟩

/-- The declaration that a row gives to a schema. -/
def Row.declareWith (refer : String → Logged TypeTerm) (o : Settings) (name : String)
    (s : Schema) : Row → Logged Declaration
  | .enum vs => ⟨.enum (o.declaredName name) (vs.map EnumMember.ofJson), []⟩
  | .union ms => (memberListWith refer o ms).map (.union (o.declaredName name))
  | .intersection ms => (memberListWith refer o ms).map (.intersection (o.declaredName name))
  | .interface => (s.fieldsWith refer).map (.interface (o.declaredName name))
  | .typeAlias =>
    if o.typedAliases then (s.termWith refer).map (.typeAlias (o.declaredName name))
    else ⟨.typeAlias (o.declaredName name) .any, []⟩

/-- The declaration of a schema in which `refer` gives the types of
references. -/
def declareWith (refer : String → Logged TypeTerm) (o : Settings) (name : String) (s : Schema) :
    Logged Declaration :=
  s.row.declareWith refer o name s

/-- The references that typing a member of a union or an intersection looks
up. -/
def memberLookups (m : Schema) : List String :=
  match m.reference with
  | some _ => []
  | none => m.fieldReferences

/-- The references that a row looks up. -/
def Row.lookups (o : Settings) (s : Schema) : Row → List String
  | .enum _ => []
  | .union ms | .intersection ms => ms.flatMap memberLookups
  | .interface => s.fieldReferences
  | .typeAlias => if o.typedAliases then s.references else []

/-- The references that declaring a schema looks up, from left to right. -/
def lookups (o : Settings) (s : Schema) : List String :=
  s.row.lookups o s

end Schema

namespace Catalog

theorem memberTerm_eq_memberWith (c : Catalog) (o : Settings) (stack : List String) (m : Schema) :
    c.memberTerm o stack m = m.memberWith (Typing.reference c o stack) o := by
  rw [memberTerm, Schema.memberWith]
  cases m.reference <;> rfl

theorem memberTerms_eq_memberListWith (c : Catalog) (o : Settings) (stack : List String)
    (ms : List Schema) :
    c.memberTerms o stack ms = Schema.memberListWith (Typing.reference c o stack) o ms := by
  induction ms with
  | nil => rfl
  | cons m ms ih =>
    rw [memberTerms, ih, memberTerm_eq_memberWith]
    rfl

/-- A schema is declared by the first row that applies to it. -/
theorem declare_eq_declareWith (c : Catalog) (o : Settings) (name : String) (s : Schema) :
    c.declare o name s = s.declareWith (Typing.reference c o [name]) o name := by
  rw [declare, Schema.declareWith, Schema.row]
  cases s.enumValues with
  | some vs => rfl
  | none =>
    cases s.unionMembers with
    | some ms =>
      exact congrArg (Logged.map (Declaration.union _))
        (memberTerms_eq_memberListWith c o [name] ms)
    | none =>
      cases s.intersectionMembers with
      | some ms =>
        exact congrArg (Logged.map (Declaration.intersection _))
          (memberTerms_eq_memberListWith c o [name] ms)
      | none => cases s.isObjectShaped <;> rfl

end Catalog

namespace Schema

variable {f g : String → Logged TypeTerm} {o : Settings} {name : String} {s : Schema}

/-- The values or members that a row lists are those of the schema. -/
theorem members_of_row (s : Schema) :
    match s.row with
    | .enum vs => s.enumValues = some vs
    | .union ms => s.unionMembers = some ms
    | .intersection ms => s.intersectionMembers = some ms
    | _ => True := by
  unfold row
  cases he : s.enumValues with
  | some vs => rfl
  | none =>
    cases hu : s.unionMembers with
    | some ms => rfl
    | none =>
      cases hi : s.intersectionMembers with
      | some ms => rfl
      | none => cases s.isObjectShaped <;> trivial

theorem mem_subschemas_of_row {ms : List Schema} {m : Schema}
    (h : s.row = .union ms ∨ s.row = .intersection ms) (hm : m ∈ ms) : m ∈ s.subschemas := by
  have hr := members_of_row s
  rcases h with h | h
  · rw [h] at hr
    exact mem_subschemas_of_unionMember hr hm
  · rw [h] at hr
    exact mem_subschemas_of_intersectionMember hr hm

/-! ### What the references have a say in -/

theorem memberWith_of_reference {m : Schema} {r : String} (h : m.reference = some r) :
    m.memberWith f o = ⟨Typing.named o r, []⟩ := by
  rw [memberWith, h]

theorem memberWith_of_fields {m : Schema} (h : m.reference = none) :
    m.memberWith f o = (m.fieldsWith f).map .object := by
  rw [memberWith, h]

theorem memberLookups_of_fields {m : Schema} (h : m.reference = none) :
    m.memberLookups = m.fieldReferences := by
  rw [memberLookups, h]

theorem value_memberWith_congr {m : Schema}
    (h : ∀ r ∈ m.memberLookups, (f r).value = (g r).value) :
    (m.memberWith f o).value = (m.memberWith g o).value := by
  cases hr : m.reference with
  | some r => rw [memberWith_of_reference hr, memberWith_of_reference hr]
  | none =>
    rw [memberLookups_of_fields hr] at h
    rw [memberWith_of_fields hr, memberWith_of_fields hr]
    exact congrArg TypeTerm.object (value_fieldsWith_congr h)

theorem events_memberWith (f : String → Logged TypeTerm) (o : Settings) (m : Schema) :
    (m.memberWith f o).events = m.memberLookups.flatMap fun r => (f r).events := by
  cases hr : m.reference with
  | some r => rw [memberWith_of_reference hr, memberLookups, hr]; rfl
  | none =>
    rw [memberWith_of_fields hr, memberLookups_of_fields hr]
    exact events_fieldsWith f m

theorem value_memberListWith_congr {ms : List Schema}
    (h : ∀ r ∈ ms.flatMap memberLookups, (f r).value = (g r).value) :
    (memberListWith f o ms).value = (memberListWith g o ms).value :=
  List.map_congr_left fun m hm =>
    value_memberWith_congr fun r hr => h r (List.mem_flatMap.2 ⟨m, hm, hr⟩)

theorem events_memberListWith (f : String → Logged TypeTerm) (o : Settings) (ms : List Schema) :
    (memberListWith f o ms).events = (ms.flatMap memberLookups).flatMap fun r => (f r).events := by
  rw [memberListWith, List.flatMap_assoc]
  exact List.flatMap_congr fun m _ => events_memberWith f o m

/-- A declaration depends on the types of the references it looks up. -/
theorem value_declareWith_congr (h : ∀ r ∈ s.lookups o, (f r).value = (g r).value) :
    (s.declareWith f o name).value = (s.declareWith g o name).value := by
  rw [declareWith, declareWith]
  rw [lookups] at h
  cases hrow : s.row with
  | enum vs => rfl
  | union ms =>
    rw [hrow] at h
    exact congrArg (Declaration.union _) (value_memberListWith_congr h)
  | intersection ms =>
    rw [hrow] at h
    exact congrArg (Declaration.intersection _) (value_memberListWith_congr h)
  | interface =>
    rw [hrow] at h
    exact congrArg (Declaration.interface _) (value_fieldsWith_congr h)
  | typeAlias =>
    rw [hrow] at h
    cases ho : o.typedAliases with
    | false => rw [Row.declareWith, Row.declareWith, ho]; rfl
    | true =>
      rw [Row.lookups, ho] at h
      rw [Row.declareWith, Row.declareWith, ho]
      exact congrArg (Declaration.typeAlias _) (value_termWith_congr h)

/-- The events of a declaration are those of the references it looks up. -/
theorem events_declareWith (f : String → Logged TypeTerm) (o : Settings) (name : String)
    (s : Schema) :
    (s.declareWith f o name).events = (s.lookups o).flatMap fun r => (f r).events := by
  rw [declareWith, lookups]
  cases s.row with
  | enum vs => rfl
  | union ms => exact events_memberListWith f o ms
  | intersection ms => exact events_memberListWith f o ms
  | interface => exact events_fieldsWith f s
  | typeAlias =>
    rw [Row.declareWith, Row.lookups]
    cases o.typedAliases with
    | false => rfl
    | true => exact events_termWith s

theorem declareWith_congr (h : ∀ r ∈ s.lookups o, f r = g r) :
    s.declareWith f o name = s.declareWith g o name := by
  refine Logged.ext (value_declareWith_congr fun r hr => congrArg Logged.value (h r hr)) ?_
  rw [events_declareWith, events_declareWith]
  exact List.flatMap_congr fun r hr => congrArg Logged.events (h r hr)

/-! ### The names in a declaration -/

/-- A name in the type of a member is that of the member itself or comes from
a reference that is looked up. -/
theorem mem_names_memberWith {m : Schema} {x : String}
    (h : x ∈ (m.memberWith f o).value.names) :
    (∃ r, m.reference = some r ∧ x = Reference.declaredName r o.namePrefix) ∨
      ∃ r ∈ m.memberLookups, x ∈ (f r).value.names := by
  cases hr : m.reference with
  | some r =>
    rw [memberWith_of_reference hr] at h
    exact .inl ⟨r, rfl, List.mem_singleton.1 h⟩
  | none =>
    rw [memberWith_of_fields hr, Logged.value_map, names_fieldsWith] at h
    rw [memberLookups_of_fields hr]
    exact .inr (List.mem_flatMap.1 h)

/-- A name in the types of members is that of a reference the schema mentions,
or comes from one that is looked up. -/
theorem mem_names_memberListWith {ms : List Schema} {t : TypeTerm} {x : String}
    (hms : ∀ m ∈ ms, m ∈ s.subschemas) (ht : t ∈ (memberListWith f o ms).value)
    (hx : x ∈ t.names) :
    (∃ r, s.Mentions r ∧ x = Reference.declaredName r o.namePrefix) ∨
      ∃ r ∈ ms.flatMap memberLookups, x ∈ (f r).value.names := by
  obtain ⟨m, hm, rfl⟩ := List.mem_map.1 ht
  rcases mem_names_memberWith hx with ⟨r, hr, hx⟩ | ⟨r, hr, hx⟩
  · exact .inl ⟨r, (mentions_of_reference hr).sub (hms m hm), hx⟩
  · exact .inr ⟨r, List.mem_flatMap.2 ⟨m, hm, hr⟩, hx⟩

/-- A name in a declaration is that of a reference the schema mentions, or
comes from one that is looked up. -/
theorem mem_names_declareWith {t : TypeTerm} {x : String}
    (ht : t ∈ (s.declareWith f o name).value.types) (hx : x ∈ t.names) :
    (∃ r, s.Mentions r ∧ x = Reference.declaredName r o.namePrefix) ∨
      ∃ r ∈ s.lookups o, x ∈ (f r).value.names := by
  rw [declareWith] at ht
  rw [lookups]
  cases hrow : s.row with
  | enum vs => rw [hrow] at ht; cases ht
  | union ms =>
    rw [hrow] at ht
    exact mem_names_memberListWith (fun _ => mem_subschemas_of_row (.inl hrow)) ht hx
  | intersection ms =>
    rw [hrow] at ht
    exact mem_names_memberListWith (fun _ => mem_subschemas_of_row (.inr hrow)) ht hx
  | interface =>
    rw [hrow] at ht
    have hx : x ∈ (TypeTerm.object (s.fieldsWith f).value).names := by
      rw [TypeTerm.names, TypeTerm.fieldNames_eq]
      exact List.mem_flatMap.2 ⟨t, ht, hx⟩
    rw [names_fieldsWith] at hx
    exact .inr (List.mem_flatMap.1 hx)
  | typeAlias =>
    rw [hrow, Row.declareWith] at ht
    rw [Row.lookups]
    cases ho : o.typedAliases with
    | false =>
      rw [ho] at ht
      rw [List.mem_singleton.1 ht] at hx
      cases hx
    | true =>
      rw [ho] at ht
      rw [List.mem_singleton.1 ht, names_termWith] at hx
      exact .inr (List.mem_flatMap.1 hx)

theorem mentions_of_mem_memberLookups {ms : List Schema} {r : String}
    (hms : ∀ m ∈ ms, m ∈ s.subschemas) (h : r ∈ ms.flatMap memberLookups) : s.Mentions r := by
  obtain ⟨m, hm, hr⟩ := List.mem_flatMap.1 h
  refine Mentions.sub (hms m hm) (mentions_of_mem_fieldReferences ?_)
  rw [memberLookups] at hr
  cases hmr : m.reference with
  | some r' => rw [hmr] at hr; cases hr
  | none => rw [hmr] at hr; exact hr

/-- What declaring a schema looks up, the schema mentions. -/
theorem mentions_of_mem_lookups {r : String} (h : r ∈ s.lookups o) : s.Mentions r := by
  rw [lookups] at h
  cases hrow : s.row with
  | enum vs => rw [hrow] at h; cases h
  | union ms =>
    rw [hrow] at h
    exact mentions_of_mem_memberLookups (fun _ => mem_subschemas_of_row (.inl hrow)) h
  | intersection ms =>
    rw [hrow] at h
    exact mentions_of_mem_memberLookups (fun _ => mem_subschemas_of_row (.inr hrow)) h
  | interface => rw [hrow] at h; exact mentions_of_mem_fieldReferences h
  | typeAlias =>
    rw [hrow, Row.lookups] at h
    cases ho : o.typedAliases with
    | false => rw [ho] at h; cases h
    | true => rw [ho] at h; exact mentions_of_mem_references h

end Schema
end SchemaTypes
