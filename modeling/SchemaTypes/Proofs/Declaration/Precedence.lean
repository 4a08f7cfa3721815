/-
# Types and declarations by the same precedence

The type of a schema and its declaration are chosen by two tables: a reference
and what the members of a union are typed as apart, the rows are enum, union,
intersection, object shape, all else. `SameRow` says that both choices come
from the same row. They do for every schema that is no reference and has an
enum only as a string or without a type, unless it has properties that its
type hides: of a schema with properties and a type that is primitive or an
array, the declaration is made of the properties and the type is not.

Key definitions: `Catalog.SameRow`, `Schema.HidesProperties`.
Key theorems: `Catalog.sameRow_iff`, `Catalog.interface_typed_as_string`.
-/
import SchemaTypes.Proofs.Declaration.Row

namespace SchemaTypes

/-- A primitive type, an array or `any`. -/
def TypeTerm.isSimple : TypeTerm → Bool
  | .any | .number | .string | .boolean | .array _ => true
  | _ => false

/-- A simple type joins no members or fields. -/
theorem TypeTerm.ne_of_isSimple {t : TypeTerm} (h : t.isSimple = true) :
    (∀ ms, t ≠ .union ms) ∧ (∀ ms, t ≠ .intersection ms) ∧ (∀ fs, t ≠ .object fs) ∧
      t ≠ .record := by
  cases t <;> simp [isSimple] at h ⊢

namespace Catalog

/-- The declaration of the schema and its type come from the same row: an enum
goes with the union of the literals of its values, a union or an intersection
with that of the types of the same members, an interface with the object type
of the same fields, or the record type if there are no properties, and an
alias with all else. -/
structure SameRow (c : Catalog) (o : Settings) (name : String) (s : Schema) : Prop where
  enum : ∀ members, (c.declare o name s).value = .enum (o.declaredName name) members ↔
    ∃ vs, s.enumValues = some vs ∧ vs.map EnumMember.ofJson = members ∧
      (Typing.term c o [name] (some s)).value = .union (Schema.literals vs)
  union : ∀ members, (c.declare o name s).value = .union (o.declaredName name) members ↔
    ∃ ms, s.unionMembers = some ms ∧ (c.memberTerms o [name] ms).value = members ∧
      (Typing.term c o [name] (some s)).value =
        .union (ms.map fun m => (Typing.term c o [name] (some m)).value)
  intersection : ∀ members,
    (c.declare o name s).value = .intersection (o.declaredName name) members ↔
      ∃ ms, s.intersectionMembers = some ms ∧ (c.memberTerms o [name] ms).value = members ∧
        (Typing.term c o [name] (some s)).value =
          .intersection (ms.map fun m => (Typing.term c o [name] (some m)).value)
  interface : ∀ fields, (c.declare o name s).value = .interface (o.declaredName name) fields ↔
    (Typing.term c o [name] (some s)).value = .object fields ∨
      (Typing.term c o [name] (some s)).value = .record ∧ s.properties = none ∧ [] = fields
  typeAlias : ∀ t, (c.declare o name s).value = .typeAlias (o.declaredName name) t ↔
    (Typing.term c o [name] (some s)).value.isSimple = true ∧
      (if o.typedAliases then (Typing.term c o [name] (some s)).value else .any) = t

end Catalog

namespace Schema

/-- The schema is object-shaped by its properties, but its type is primitive
or an array. -/
def HidesProperties (s : Schema) : Prop :=
  s.enumValues = none ∧ s.unionMembers = none ∧ s.intersectionMembers = none ∧
    s.properties ≠ none ∧ ∃ k, s.kind = some k ∧ k ≠ .object ∧ k ≠ .unknown

variable {s : Schema}

theorem stringEnumValues_of_enumValues {vs : List Json} (hv : s.enumValues = some vs)
    (hk : s.kind = none ∨ s.kind = some .string) : s.stringEnumValues = some vs := by
  unfold stringEnumValues
  rcases hk with hk | hk <;> rw [hk] <;> exact hv

theorem stringEnumValues_eq_none (hv : s.enumValues = none) : s.stringEnumValues = none := by
  unfold stringEnumValues
  split
  · exact hv
  · exact hv
  · rfl

theorem rule_eq_kindRule (hr : s.reference = none) (hv : s.enumValues = none)
    (hu : s.unionMembers = none) (hi : s.intersectionMembers = none) : s.rule = s.kindRule := by
  rw [rule, hr, stringEnumValues_eq_none hv, hu, hi]

/-- A schema without lists that apply is declared by its shape. -/
theorem row_eq_of_shape (hv : s.enumValues = none) (hu : s.unionMembers = none)
    (hi : s.intersectionMembers = none) :
    s.row = if s.isObjectShaped then .interface else .typeAlias := by
  rw [row, hv, hu, hi]

end Schema

namespace Typing

/-- The type of a schema is no literal by itself: literals come in unions. -/
theorem term_ne_literal {c : Catalog} {o : Settings} (stack : List String) :
    ∀ s x, (term c o stack (some s)).value ≠ .literal x := by
  induction stack using c.stack_induction with
  | step stack ih =>
    intro s x
    rw [term, Schema.termWith_eq_rule]
    cases s.rule with
    | reference r =>
      rw [Schema.Rule.termWith]
      cases hi : o.inlineRefs with
      | false => rw [reference_kept hi]; exact TypeTerm.noConfusion
      | true =>
        by_cases hs : Reference.target r ∈ stack
        · rw [reference_cut hi hs]; exact TypeTerm.noConfusion
        · cases hc : Reference.resolve? r c with
          | none => rw [reference_missing hi hs hc]; exact TypeTerm.noConfusion
          | some t =>
            rw [reference_expanded hi hs hc]
            exact ih _ (Catalog.mem_names_of_resolve? hc) hs t x
    | plain p => cases p <;> exact TypeTerm.noConfusion
    | _ => exact TypeTerm.noConfusion

/-- The literals of an enum are not the types of any schemas. -/
theorem literals_ne_terms (c : Catalog) (o : Settings) (stack : List String) {vs : List Json}
    (hv : vs ≠ []) (ms : List Schema) :
    Schema.literals vs ≠ ms.map fun m => (term c o stack (some m)).value := by
  intro h
  obtain ⟨v, vs, rfl⟩ := List.exists_cons_of_ne_nil hv
  cases ms with
  | nil => cases h
  | cons m ms => exact term_ne_literal stack m _ (List.cons.inj h).1.symm

end Typing

namespace Catalog

variable {c : Catalog} {o : Settings} {name : String} {s : Schema}

/-! ### The rows, one by one -/

theorem value_declare_of_row (c : Catalog) (o : Settings) (name : String) {row : Schema.Row}
    (h : s.row = row) :
    (c.declare o name s).value =
      (row.declareWith (Typing.reference c o [name]) o name s).value := by
  rw [declare_eq_declareWith, Schema.declareWith, h]

theorem value_term_of_rule (c : Catalog) (o : Settings) (stack : List String)
    {rule : Schema.Rule} (h : s.rule = rule) :
    (Typing.term c o stack (some s)).value =
      (rule.termWith (Typing.reference c o stack) s.required).value := by
  rw [Typing.term, Schema.termWith_eq_rule, h]

theorem value_membersWith_reference (stack : List String) (ms : List Schema) :
    (Schema.membersWith (Typing.reference c o stack) ms).value =
      ms.map fun m => (Typing.term c o stack (some m)).value :=
  Schema.value_membersWith _ ms

theorem sameRow_of_enum {vs : List Json} (hr : s.reference = none)
    (hv : s.enumValues = some vs) (hk : s.kind = none ∨ s.kind = some .string) :
    c.SameRow o name s := by
  have hs := Schema.stringEnumValues_of_enumValues hv hk
  have hrow : s.row = .enum vs := by rw [Schema.row, hv]
  have hrule : s.rule = .literals vs := by rw [Schema.rule, hr, hs]
  have hd := value_declare_of_row c o name hrow
  have ht := value_term_of_rule c o [name] hrule
  have hne := Typing.literals_ne_terms c o [name] (Schema.stringEnumValues_ne_nil hs)
  simp only [Schema.Row.declareWith] at hd
  simp only [Schema.Rule.termWith] at ht
  constructor <;> simp [hd, ht, hv, hne, TypeTerm.isSimple]

theorem sameRow_of_union {ms : List Schema} (hr : s.reference = none)
    (hv : s.enumValues = none) (hu : s.unionMembers = some ms) : c.SameRow o name s := by
  have hrow : s.row = .union ms := by rw [Schema.row, hv, hu]
  have hrule : s.rule = .union ms := by
    rw [Schema.rule, hr, Schema.stringEnumValues_eq_none hv, hu]
  have hd := value_declare_of_row c o name hrow
  have ht := value_term_of_rule c o [name] hrule
  rw [Schema.Row.declareWith, ← memberTerms_eq_memberListWith, Logged.value_map] at hd
  rw [Schema.Rule.termWith, Logged.value_map, value_membersWith_reference] at ht
  constructor <;> simp [hd, ht, hv, hu, TypeTerm.isSimple]

theorem sameRow_of_intersection {ms : List Schema} (hr : s.reference = none)
    (hv : s.enumValues = none) (hu : s.unionMembers = none)
    (hi : s.intersectionMembers = some ms) : c.SameRow o name s := by
  have hrow : s.row = .intersection ms := by rw [Schema.row, hv, hu, hi]
  have hrule : s.rule = .intersection ms := by
    rw [Schema.rule, hr, Schema.stringEnumValues_eq_none hv, hu, hi]
  have hd := value_declare_of_row c o name hrow
  have ht := value_term_of_rule c o [name] hrule
  rw [Schema.Row.declareWith, ← memberTerms_eq_memberListWith, Logged.value_map] at hd
  rw [Schema.Rule.termWith, Logged.value_map, value_membersWith_reference] at ht
  constructor <;> simp [hd, ht, hv, hu, hi, TypeTerm.isSimple]

/-- Of a schema with properties that nothing hides both are made of the
properties. -/
theorem sameRow_of_properties {ps : List (String × Schema)} (hr : s.reference = none)
    (hv : s.enumValues = none) (hu : s.unionMembers = none) (hi : s.intersectionMembers = none)
    (hp : s.properties = some ps) (hk : ∀ k, s.kind = some k → k = .object ∨ k = .unknown) :
    c.SameRow o name s := by
  have hshaped : s.isObjectShaped = true := by simp [Schema.isObjectShaped, hp]
  have hrow : s.row = .interface := by rw [Schema.row_eq_of_shape hv hu hi, hshaped, if_pos rfl]
  have hrule : s.rule = .object ps := by
    rw [Schema.rule_eq_kindRule hr hv hu hi, Schema.kindRule, hp]
    cases hkind : s.kind with
    | none => rfl
    | some k => rcases hk k hkind with rfl | rfl <;> rfl
  have hfields : s.fieldsWith (Typing.reference c o [name]) =
      Schema.propertiesWith (Typing.reference c o [name]) s.required ps := by
    rw [Schema.fieldsWith, hp]
  have hd := value_declare_of_row c o name hrow
  have ht := value_term_of_rule c o [name] hrule
  rw [Schema.Row.declareWith, hfields, Logged.value_map] at hd
  rw [Schema.Rule.termWith, Logged.value_map] at ht
  constructor <;> simp [hd, ht, hv, hu, hi, TypeTerm.isSimple]

theorem sameRow_of_record (hr : s.reference = none) (hv : s.enumValues = none)
    (hu : s.unionMembers = none) (hi : s.intersectionMembers = none) (hp : s.properties = none)
    (hk : s.kind = some .object) : c.SameRow o name s := by
  have hshaped : s.isObjectShaped = true := by simp [Schema.isObjectShaped, hk]
  have hrow : s.row = .interface := by rw [Schema.row_eq_of_shape hv hu hi, hshaped, if_pos rfl]
  have hrule : s.rule = .plain .record := by
    rw [Schema.rule_eq_kindRule hr hv hu hi, Schema.kindRule, hk, hp]
  have hd := value_declare_of_row c o name hrow
  have ht := value_term_of_rule c o [name] hrule
  rw [Schema.Row.declareWith, Schema.fieldsWith, hp, Logged.value_map] at hd
  simp only [Schema.Rule.termWith, Schema.Plain.term] at ht
  constructor <;> simp [hd, ht, hv, hu, hi, hp, TypeTerm.isSimple]

/-- Without properties, or with a type that hides them, the type of a schema
is a simple one. -/
theorem isSimple_term_of_kind {stack : List String} (hr : s.reference = none)
    (hv : s.enumValues = none) (hu : s.unionMembers = none) (hi : s.intersectionMembers = none)
    (hk : s.kind ≠ some .object)
    (hp : s.properties = none ∨ ∃ k, s.kind = some k ∧ k ≠ .unknown) :
    (Typing.term c o stack (some s)).value.isSimple = true := by
  rw [value_term_of_rule c o stack (Schema.rule_eq_kindRule hr hv hu hi), Schema.kindRule]
  rcases hkind : s.kind with _ | k
  · rcases hp with hp | ⟨k, hk', -⟩
    · rw [hp]; rfl
    · rw [hkind] at hk'; cases hk'
  · cases k with
    | object => exact absurd hkind hk
    | array => cases s.items <;> rfl
    | unknown =>
      rcases hp with hp | ⟨k, hk', hne⟩
      · rw [hp]; rfl
      · rw [hkind] at hk'; cases hk'; exact absurd rfl hne
    | _ => rfl

theorem sameRow_of_rest (hr : s.reference = none) (hv : s.enumValues = none)
    (hu : s.unionMembers = none) (hi : s.intersectionMembers = none) (hp : s.properties = none)
    (hk : s.kind ≠ some .object) : c.SameRow o name s := by
  have hshaped : s.isObjectShaped = false := by simp [Schema.isObjectShaped, hp, hk]
  have hrow : s.row = .typeAlias := by
    rw [Schema.row_eq_of_shape hv hu hi, hshaped, if_neg Bool.false_ne_true]
  have hsimple : (Typing.term c o [name] (some s)).value.isSimple = true :=
    isSimple_term_of_kind hr hv hu hi hk (.inl hp)
  have hd : (c.declare o name s).value = .typeAlias (o.declaredName name)
      (if o.typedAliases then (Typing.term c o [name] (some s)).value else .any) := by
    rw [value_declare_of_row c o name hrow, Schema.Row.declareWith]
    cases o.typedAliases <;> rfl
  obtain ⟨-, -, hobject, hrecord⟩ := TypeTerm.ne_of_isSimple hsimple
  constructor <;> simp [hd, hv, hu, hi, hsimple, hobject, hrecord]

/-- **Types and declarations follow the same precedence.** Of a schema that is
no reference, and has an enum only as a string or without a type, the type and
the declaration come from the same row, exactly if its type does not hide its
properties. -/
theorem sameRow_iff (c : Catalog) (o : Settings) (name : String) (hr : s.reference = none)
    (henum : s.enumValues ≠ none → s.kind = none ∨ s.kind = some .string) :
    c.SameRow o name s ↔ ¬ s.HidesProperties := by
  constructor
  · rintro h ⟨hv, hu, hi, hp, k, hk, hobject, hunknown⟩
    have hshaped : s.isObjectShaped = true := by
      rw [Schema.isObjectShaped, Option.isSome_iff_ne_none.2 hp, Bool.or_true]
    have hrow : s.row = .interface := by rw [Schema.row_eq_of_shape hv hu hi, hshaped, if_pos rfl]
    have hsimple : (Typing.term c o [name] (some s)).value.isSimple = true :=
      isSimple_term_of_kind hr hv hu hi (fun h => hobject (Option.some.inj (hk.symm.trans h)))
        (.inr ⟨k, hk, hunknown⟩)
    obtain ⟨-, -, hne, hne'⟩ := TypeTerm.ne_of_isSimple hsimple
    rcases (h.interface _).1 (value_declare_of_row c o name hrow) with ht | ⟨ht, -⟩
    · exact hne _ ht
    · exact hne' ht
  · intro hhides
    cases hv : s.enumValues with
    | some vs => exact sameRow_of_enum hr hv (henum (by rw [hv]; exact Option.some_ne_none vs))
    | none =>
      cases hu : s.unionMembers with
      | some ms => exact sameRow_of_union hr hv hu
      | none =>
        cases hi : s.intersectionMembers with
        | some ms => exact sameRow_of_intersection hr hv hu hi
        | none =>
          cases hp : s.properties with
          | some ps =>
            refine sameRow_of_properties hr hv hu hi hp fun k hk => ?_
            by_contra hne
            rw [not_or] at hne
            exact hhides ⟨hv, hu, hi, by rw [hp]; exact Option.some_ne_none ps, k, hk, hne⟩
          | none =>
            by_cases hk : s.kind = some .object
            · exact sameRow_of_record hr hv hu hi hp hk
            · exact sameRow_of_rest hr hv hu hi hp hk

/-- The schema of `A` in the ring has no type that hides its property. -/
theorem sameRow_ring :
    (Schema.link "b" "#/components/schemas/B").reference = none ∧
      ((Schema.link "b" "#/components/schemas/B").enumValues ≠ none →
        (Schema.link "b" "#/components/schemas/B").kind = none ∨
          (Schema.link "b" "#/components/schemas/B").kind = some .string) ∧
      ring.SameRow { inlineRefs := true } "A" (.link "b" "#/components/schemas/B") :=
  ⟨rfl, fun _ => .inl rfl,
    (sameRow_iff ring { inlineRefs := true } "A" rfl fun _ => .inl rfl).2
      fun ⟨_, _, _, _, _, hk, _⟩ => by cases hk⟩

/-- A schema of type string with a property. -/
def stringWithProperty : Schema where
  kind := some .string
  properties := some [("a", .ofKind .number)]

/-- A schema of type string with a property is declared as an interface with
the property and typed as a string. -/
theorem interface_typed_as_string :
    stringWithProperty.reference = none ∧ stringWithProperty.enumValues = none ∧
      (empty.declare {} "X" stringWithProperty).value = .interface "IX" [⟨"a", true, .number⟩] ∧
      (Typing.term empty {} ["X"] (some stringWithProperty)).value = .string ∧
      ¬ empty.SameRow {} "X" stringWithProperty := by
  have hd : (empty.declare {} "X" stringWithProperty).value =
      .interface "IX" [⟨"a", true, .number⟩] := rfl
  have ht : (Typing.term empty {} ["X"] (some stringWithProperty)).value = .string := rfl
  refine ⟨rfl, rfl, hd, ht, fun h => ?_⟩
  rcases (h.interface _).1 hd with h | ⟨h, -⟩
  · rw [ht] at h
    cases h
  · rw [ht] at h
    cases h

end Catalog
end SchemaTypes
