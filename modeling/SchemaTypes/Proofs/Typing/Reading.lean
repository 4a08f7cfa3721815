/-
# Reading the types of schemas back

The type of a schema can be written: its unions and intersections are never
empty, its keys are keys of properties, and its literals are texts of enum
values. So its text is read to the end by a reader of TypeScript types, as
long as the declared names in it are identifiers and the enum values are
scalar. What is read is the type of the schema, up to merging, exactly if the
type is grouped: a union or an intersection that one-member combinators wrap
is written without the parentheses it needs.

Key definitions: `Typing.ScalarValues`.
Key theorems: `Typing.writable_term`, `Typing.read_text_iff_isGrouped`,
`Typing.ungrouped_array`.
-/
import SchemaTypes.Proofs.Reader.Text
import SchemaTypes.Proofs.Typing.References

namespace SchemaTypes

open Reader (Alphabet IsName)
open TypeTerm (Writable)

namespace Typing

/-- The enum values that typing a schema lists are null, booleans, numbers and
strings. -/
def ScalarValues (c : Catalog) (o : Settings) (s : Schema) : Prop :=
  ∀ u, Meets c o s u → ∀ vs, u.rule = .literals vs → ∀ v ∈ vs, v.isScalar = true

variable {a : Alphabet} {c : Catalog} {o : Settings}

theorem scalarValues_of_parts {c : Catalog} {o : Settings} {s : Schema}
    (hself : ∀ vs, s.rule = .literals vs → ∀ v ∈ vs, v.isScalar = true)
    (hparts : ∀ t ∈ s.rule.parts, ScalarValues c o t)
    (hexpand : ∀ r t, o.inlineRefs = true → s.rule = .reference r → Reference.resolve? r c = some t →
      ScalarValues c o t) : ScalarValues c o s := by
  intro u hu
  cases hu with
  | refl => exact hself
  | part ht hu => exact hparts _ ht u hu
  | expand hi hr ht hu => exact hexpand _ _ hi hr ht u hu

theorem ScalarValues.part {s t : Schema} (h : ScalarValues c o s) (ht : t ∈ s.rule.parts) :
    ScalarValues c o t :=
  fun u hu => h u (.part ht hu)

/-- The type of a schema can be written if those of its references can. -/
theorem writable_termWith {refer : String → Logged TypeTerm} (s : Schema)
    (hrefer : ∀ r ∈ s.references, Writable a (refer r).value) (hvalues : ScalarValues c o s) :
    Writable a (s.termWith refer).value := by
  induction s using Schema.part_induction with
  | step s ih =>
    have hparts : (∀ r, s.rule ≠ .reference r) → ∀ t ∈ s.rule.parts,
        Writable a (t.termWith refer).value := by
      intro hs t ht
      refine ih t ht (fun r hr => hrefer r ?_) (hvalues.part ht)
      rw [Schema.references_of_parts hs]
      exact List.mem_flatMap.2 ⟨t, ht, hr⟩
    have hne := s.rule_ne_nil
    have hself := hvalues s (.refl s)
    rw [s.termWith_eq_rule]
    cases hr : s.rule with
    | reference r =>
      rw [Schema.references_of_reference hr] at hrefer
      exact hrefer r (List.mem_singleton_self r)
    | literals vs =>
      rw [hr] at hne
      refine .union (by simpa [Schema.literals] using hne) fun m hm => ?_
      obtain ⟨v, hv, rfl⟩ := List.mem_map.1 hm
      exact .literal (hself vs hr v hv)
    | union ms =>
      rw [hr] at hne hparts
      rw [Schema.Rule.termWith, Logged.value_map, Schema.value_membersWith]
      refine .union (by simpa using hne) fun m hm => ?_
      obtain ⟨t, ht, rfl⟩ := List.mem_map.1 hm
      exact hparts (by simp) t ht
    | intersection ms =>
      rw [hr] at hne hparts
      rw [Schema.Rule.termWith, Logged.value_map, Schema.value_membersWith]
      refine .intersection (by simpa using hne) fun m hm => ?_
      obtain ⟨t, ht, rfl⟩ := List.mem_map.1 hm
      exact hparts (by simp) t ht
    | array item =>
      rw [hr] at hparts
      exact .array (hparts (by simp) item (List.mem_singleton_self item))
    | object ps =>
      rw [hr] at hparts
      rw [Schema.Rule.termWith, Logged.value_map, Schema.value_propertiesWith]
      refine .object (fun f hf => ?_) fun f hf => ?_
      · obtain ⟨p, -, rfl⟩ := List.mem_map.1 hf
        exact ⟨p.1, rfl⟩
      · obtain ⟨p, hp, rfl⟩ := List.mem_map.1 hf
        exact hparts (by simp) p.2 (List.mem_map_of_mem hp)
    | plain p =>
      cases p with
      | number => exact .number
      | string => exact .string
      | boolean => exact .boolean
      | anyArray => exact .array .any
      | record => exact .record
      | any => exact .any

theorem writable_reference (stack : List String) :
    ∀ r, (∀ n ∈ (reference c o stack r).value.names, IsName a n) →
      (∀ s, o.inlineRefs = true → Reference.resolve? r c = some s → ScalarValues c o s) →
      Writable a (reference c o stack r).value := by
  induction stack using c.stack_induction with
  | step stack ih =>
    intro r hnames hvalues
    cases hi : o.inlineRefs with
    | false =>
      rw [reference_kept hi] at hnames ⊢
      exact .named (hnames _ (List.mem_singleton_self _))
    | true =>
      by_cases hs : Reference.target r ∈ stack
      · rw [reference_cut hi hs] at hnames ⊢
        exact .named (hnames _ (List.mem_singleton_self _))
      · cases hc : Reference.resolve? r c with
        | none =>
          rw [reference_missing hi hs hc]
          exact .object (fun f hf => by cases hf) fun f hf => by cases hf
        | some s =>
          rw [reference_expanded hi hs hc] at hnames ⊢
          rw [Schema.names_termWith] at hnames
          refine writable_termWith s (fun r' hr' => ?_) (hvalues s hi hc)
          refine ih _ (Catalog.mem_names_of_resolve? hc) hs r'
            (fun n hn => hnames n (List.mem_flatMap.2 ⟨r', hr', hn⟩)) fun t _ ht u hu => ?_
          exact hvalues s hi hc u (meets_of_mem_references hi hr' ht hu)

/-- The type of a schema can be written if the declared names left in it are
identifiers and its enum values are scalar. -/
theorem writable_term {stack : List String} {s : Option Schema}
    (hnames : ∀ n ∈ (term c o stack s).value.names, IsName a n)
    (hvalues : ∀ t ∈ s, ScalarValues c o t) : Writable a (term c o stack s).value := by
  cases s with
  | none => exact .any
  | some s =>
    have hvalues := hvalues s rfl
    rw [term, Schema.names_termWith] at hnames
    refine writable_termWith s (fun r hr => ?_) hvalues
    refine writable_reference stack r (fun n hn => hnames n (List.mem_flatMap.2 ⟨r, hr, hn⟩))
      fun t hi ht u hu => ?_
    exact hvalues u (meets_of_mem_references hi hr ht hu)

/-- **The text of a type is read back exactly if it is grouped.** Whatever the
schema, the catalog, the settings and the depth, the text is read to the end,
and the type read is the one that was written, up to merging, exactly if no
array item with an operator outside of brackets and no operand of `&` with a
`|` there stands without parentheses. -/
theorem read_text_iff_isGrouped {stack : List String} {s : Option Schema}
    (hnames : ∀ n ∈ (term c o stack s).value.names, IsName a n)
    (hvalues : ∀ t ∈ s, ScalarValues c o t) (depth : ℕ) :
    ∃ t, Reader.read a ((term c o stack s).value.text depth) = some t ∧
      (t.merge = (term c o stack s).value.merge ↔ (term c o stack s).value.isGrouped = true) := by
  have hwritable := writable_term hnames hvalues
  exact ⟨_, TypeTerm.read_text hwritable depth, TypeTerm.merge_readBack_iff_of_writable hwritable⟩

/-- A schema whose type is an intersection of a union of literals and a
name. -/
def literalsAndName : Schema where
  allOf := some [{ enum := some [.string "x|y", .null] }, .ofReference "#/components/schemas/A"]

/-- The union inside of the intersection is in parentheses. -/
theorem read_text_literalsAndName :
    (∀ n ∈ (term .ring {} [] (some literalsAndName)).value.names, IsName .ascii n) ∧
      (∀ t ∈ some literalsAndName, ScalarValues .ring {} t) ∧
      (term .ring {} [] (some literalsAndName)).value.text 0 = "(\"x|y\" | null) & IA" ∧
      ∃ t, Reader.read .ascii ((term .ring {} [] (some literalsAndName)).value.text 0) = some t ∧
        (t.merge = (term .ring {} [] (some literalsAndName)).value.merge ↔
          (term .ring {} [] (some literalsAndName)).value.isGrouped = true) := by
  have hnames : ∀ n ∈ (term .ring {} [] (some literalsAndName)).value.names, IsName .ascii n := by
    rw [show (term .ring {} [] (some literalsAndName)).value.names = ["IA"] by cbv]
    intro n hn
    rw [List.mem_singleton.1 hn]
    exact ⟨rfl, by decide⟩
  have hvalues : ∀ t ∈ some literalsAndName, ScalarValues .ring {} t := by
    rintro t ⟨⟩
    refine scalarValues_of_parts (by rintro vs ⟨⟩) (fun t ht => ?_) (by rintro r t ⟨⟩)
    have ht : t ∈ [{ enum := some [.string "x|y", .null] }, .ofReference "#/components/schemas/A"] := ht
    obtain rfl | rfl := List.mem_pair.1 ht
    · refine scalarValues_of_parts ?_ (by rintro u ⟨⟩) (by rintro r t ⟨⟩)
      rintro vs ⟨⟩ v hv
      obtain rfl | rfl := List.mem_pair.1 hv
      · rfl
      · rfl
    · exact scalarValues_of_parts (by rintro vs ⟨⟩) (by rintro u ⟨⟩) (by rintro r t ⟨⟩)
  exact ⟨hnames, hvalues, by cbv, read_text_iff_isGrouped hnames hvalues 0⟩

/-- An array of a union of two types, inside of a union with one member. -/
def wrappedUnion : Schema where
  kind := some .array
  items := some { oneOf := some [{ oneOf := some [.ofKind .string, .ofKind .number] }] }

/-- A union with one member hides the union inside of it: the array is written
without parentheses, and read as a union. -/
theorem ungrouped_array :
    (term .empty {} [] (some wrappedUnion)).value = .array (.union [.union [.string, .number]]) ∧
      (term .empty {} [] (some wrappedUnion)).value.text 0 = "string | number[]" ∧
      Reader.read .ascii ((term .empty {} [] (some wrappedUnion)).value.text 0) =
        some (.union [.string, .array .number]) ∧
      (TypeTerm.union [.string, .array .number]).merge ≠
        (term .empty {} [] (some wrappedUnion)).value.merge := by
  have hterm : (term .empty {} [] (some wrappedUnion)).value =
      .array (.union [.union [.string, .number]]) := rfl
  have htext : (term .empty {} [] (some wrappedUnion)).value.text 0 = "string | number[]" := by cbv
  refine ⟨hterm, htext, ?_, ?_⟩
  · rw [htext]
    cbv
  · rw [hterm]
    exact TypeTerm.noConfusion

end Typing
end SchemaTypes
