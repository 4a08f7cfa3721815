/-
# The type of a schema

The type of a schema, given the type of every reference in it. The first rule
that applies decides: a reference; the values of `enum` on a string or
untyped schema, as a union of literals; the members of `oneOf` or `anyOf`, as
a union; the members of `allOf`, as an intersection; the kind, with the
properties as the fields of an object type; and `any` for what is left.

Against a catalog, references are kept by name, or expanded in place if the
settings say so. An expansion remembers the names it is inside of; a reference
back to one of them is kept by name, so that an expansion ends on every catalog:
each step takes one more name of the catalog out of those not yet expanded.

Key definitions: `Schema.termWith`, `Schema.fieldsWith`, `Typing.reference`,
`Typing.term`, `Typing.fields`, `Typing.object`.
Key theorems: `Schema.termWith_eq`.
-/
import SchemaTypes.Catalog
import SchemaTypes.Identifier
import SchemaTypes.Log.Event
import SchemaTypes.Settings
import SchemaTypes.TypeTerm

namespace SchemaTypes

/-! ### Given the types of the references -/

namespace Schema

/-- The literal types of the values of `enum`. -/
def literals (values : List Json) : List TypeTerm :=
  values.map fun v => .literal v.compact

mutual

/-- The type of a schema in which `refer` gives the types of references. -/
def termWith (refer : String → Logged TypeTerm) : Schema → Logged TypeTerm
  | { kind, enum, properties, required, oneOf, anyOf, allOf, reference, items } =>
    match reference with
    | some r => refer r
    | none =>
    match stringEnumValues { kind, enum } with
    | some vs => ⟨.union (literals vs), []⟩
    | none =>
    match oneOf with
    | some (m :: ms) => (membersWith refer (m :: ms)).map .union
    | _ =>
    match anyOf with
    | some (m :: ms) => (membersWith refer (m :: ms)).map .union
    | _ =>
    match allOf with
    | some (m :: ms) => (membersWith refer (m :: ms)).map .intersection
    | _ =>
    match kind with
    | some .integer | some .number => ⟨.number, []⟩
    | some .string => ⟨.string, []⟩
    | some .boolean => ⟨.boolean, []⟩
    | some .array =>
      match items with
      | some item => (termWith refer item).map .array
      | none => ⟨.array .any, []⟩
    | some .object =>
      match properties with
      | some ps => (propertiesWith refer required ps).map .object
      | none => ⟨.record, []⟩
    | some .unknown | none =>
      match properties with
      | some ps => (propertiesWith refer required ps).map .object
      | none => ⟨.any, []⟩

/-- The types of the members of a union or an intersection. -/
def membersWith (refer : String → Logged TypeTerm) : List Schema → Logged (List TypeTerm)
  | [] => ⟨[], []⟩
  | s :: ss => (termWith refer s).cons (membersWith refer ss)

/-- The fields of properties, of which the names in `required` may not be
left out. -/
def propertiesWith (refer : String → Logged TypeTerm) (required : List String) :
    List (String × Schema) → Logged (List Field)
  | [] => ⟨[], []⟩
  | (name, s) :: ps =>
    ((termWith refer s).map fun t =>
      FieldOf.mk (Identifier.propertyKey name) (!required.contains name) t).cons
      (propertiesWith refer required ps)

end

/-- The fields of a schema, one for each property in order. -/
def fieldsWith (refer : String → Logged TypeTerm) (s : Schema) : Logged (List Field) :=
  match s.properties with
  | some ps => propertiesWith refer s.required ps
  | none => ⟨[], []⟩

/-- The type of a schema by its kind alone. -/
def kindTermWith (refer : String → Logged TypeTerm) (s : Schema) : Logged TypeTerm :=
  match s.kind with
  | some .integer | some .number => ⟨.number, []⟩
  | some .string => ⟨.string, []⟩
  | some .boolean => ⟨.boolean, []⟩
  | some .array =>
    match s.items with
    | some item => (termWith refer item).map .array
    | none => ⟨.array .any, []⟩
  | some .object =>
    if s.properties.isSome then (s.fieldsWith refer).map .object else ⟨.record, []⟩
  | some .unknown | none =>
    if s.properties.isSome then (s.fieldsWith refer).map .object else ⟨.any, []⟩

/-- The rules for the type of a schema, in order. -/
theorem termWith_eq (refer : String → Logged TypeTerm) (s : Schema) :
    s.termWith refer =
      match s.reference with
      | some r => refer r
      | none =>
        match s.stringEnumValues with
        | some vs => ⟨.union (literals vs), []⟩
        | none =>
          match s.unionMembers with
          | some ms => (membersWith refer ms).map .union
          | none =>
            match s.intersectionMembers with
            | some ms => (membersWith refer ms).map .intersection
            | none => s.kindTermWith refer := by
  obtain ⟨kind, enum, properties, required, oneOf, anyOf, allOf, reference, items⟩ := s
  unfold termWith
  cases reference with
  | some r => rfl
  | none =>
    change (match stringEnumValues { kind, enum } with | some vs => _ | none => _) =
      match stringEnumValues { kind, enum } with | some vs => _ | none => _
    cases stringEnumValues { kind, enum } with
    | some vs => rfl
    | none =>
      rcases oneOf with _ | _ | ⟨m, ms⟩ <;> rcases anyOf with _ | _ | ⟨m', ms'⟩ <;>
        rcases allOf with _ | _ | ⟨m'', ms''⟩ <;> try rfl
      all_goals
        rcases kind with _ | kind
        · cases properties <;> rfl
        · cases kind <;> cases properties <;> rfl

end Schema

/-! ### Against a catalog -/

namespace Catalog

/-- The number of names that are not on a stack. -/
def unexpanded (c : Catalog) (stack : List String) : Nat :=
  c.names.countP fun n => n ∉ stack

theorem mem_names_of_find? {c : Catalog} {name : String} {s : Schema}
    (h : c.find? name = some s) : name ∈ c.names :=
  Entries.mem_names_of_find? h

/-- A name of the catalog that goes on the stack is one less to expand. -/
theorem unexpanded_push {c : Catalog} {stack : List String} {name : String}
    (hc : name ∈ c.names) (hs : name ∉ stack) :
    c.unexpanded (stack ++ [name]) < c.unexpanded stack := by
  unfold unexpanded
  generalize c.names = l at hc
  induction l with
  | nil => cases hc
  | cons n l ih =>
    have hle : l.countP (fun n => n ∉ stack ++ [name]) ≤ l.countP fun n => n ∉ stack :=
      List.countP_mono_left fun n _ h => by simp at h ⊢; exact h.1
    simp only [List.countP_cons]
    by_cases hn : n = name
    · subst hn
      simp only [hs, List.mem_append, List.mem_singleton, or_true, not_true_eq_false,
        not_false_eq_true, decide_false, decide_true, Bool.false_eq_true, if_false, if_true] at hle ⊢
      omega
    · have := ih (List.mem_of_ne_of_mem (Ne.symm hn) hc)
      by_cases h1 : n ∈ stack <;> simp [h1, hn] at this ⊢ <;> omega

end Catalog

namespace Typing

/-- A reference kept by name. -/
def named (o : Settings) (reference : String) : TypeTerm :=
  .named (Reference.declaredName reference o.namePrefix)

/-- The type of a reference, inside of the expansion of the names on the
stack. -/
def reference (c : Catalog) (o : Settings) (stack : List String) (r : String) : Logged TypeTerm :=
  if o.inlineRefs then
    if _hs : Reference.target r ∈ stack then ⟨named o r, [.cycle r]⟩
    else
      match _hc : Reference.resolve? r c with
      | none => ⟨.object [], [.unknownExpanded r]⟩
      | some s => s.termWith (reference c o (stack ++ [Reference.target r]))
  else if c.contains (Reference.target r) then ⟨named o r, []⟩
  else ⟨named o r, [.unknown r]⟩
termination_by c.unexpanded stack
decreasing_by exact Catalog.unexpanded_push (Catalog.mem_names_of_find? _hc) _hs

/-- The type of a schema, inside of the expansion of the names on the stack.
What has no schema can be anything. -/
def term (c : Catalog) (o : Settings) (stack : List String) : Option Schema → Logged TypeTerm
  | none => ⟨.any, []⟩
  | some s => s.termWith (reference c o stack)

/-- The fields of a schema, one for each property in order. -/
def fields (c : Catalog) (o : Settings) (stack : List String) (s : Schema) : Logged (List Field) :=
  s.fieldsWith (reference c o stack)

/-- The object type of the properties of a schema. -/
def object (c : Catalog) (o : Settings) (stack : List String) (s : Schema) : Logged TypeTerm :=
  (fields c o stack s).map .object

end Typing
end SchemaTypes
