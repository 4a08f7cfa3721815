/-
# What types mean

An interpretation gives each constructor of types a meaning computed from the
meanings of its parts, and each declared name a meaning of its own. Where a
union of unions means the union of all, and likewise for intersections,
merging a type does not change what it means.

Key definitions: `Interpretation`, `Interpretation.meaning`,
`Interpretation.Flat`.
Key theorems: `Interpretation.meaning_merge`.
-/
import SchemaTypes.Proofs.TypeTerm.Merge

namespace SchemaTypes

universe u

/-- What the constructors of types mean, and what the declared names mean. -/
structure Interpretation (α : Type u) where
  any : α
  number : α
  string : α
  boolean : α
  record : α
  literal : String → α
  named : String → α
  array : α → α
  /-- Of the key of each field, whether it may be left out, and the meaning of
  its type. -/
  object : List (String × Bool × α) → α
  union : List α → α
  intersection : List α → α

namespace Interpretation

variable {α : Type u} (I : Interpretation α)

mutual

/-- What a type means. -/
def meaning : TypeTerm → α
  | .any => I.any
  | .number => I.number
  | .string => I.string
  | .boolean => I.boolean
  | .record => I.record
  | .literal t => I.literal t
  | .named n => I.named n
  | .array t => I.array (meaning t)
  | .object fs => I.object (fieldMeanings fs)
  | .union ms => I.union (memberMeanings ms)
  | .intersection ms => I.intersection (memberMeanings ms)

/-- What the members of a union or an intersection mean. -/
def memberMeanings : List TypeTerm → List α
  | [] => []
  | t :: ts => meaning t :: memberMeanings ts

/-- The fields with what their types mean. -/
def fieldMeanings : List (FieldOf TypeTerm) → List (String × Bool × α)
  | [] => []
  | ⟨key, isOptional, t⟩ :: fs => (key, isOptional, meaning t) :: fieldMeanings fs

end

theorem memberMeanings_eq (ts : List TypeTerm) : I.memberMeanings ts = ts.map I.meaning := by
  induction ts with
  | nil => rfl
  | cons t ts ih => rw [memberMeanings, ih, List.map_cons]

theorem fieldMeanings_eq (fs : List Field) :
    I.fieldMeanings fs = fs.map fun f => (f.key, f.isOptional, I.meaning f.type) := by
  induction fs with
  | nil => rfl
  | cons f fs ih => rw [fieldMeanings, ih, List.map_cons]

/-- Unions in a union and intersections in an intersection mean as much as
their members. -/
structure Flat : Prop where
  union_singleton (x : α) : I.union [x] = x
  union_flatten (xss : List (List α)) : I.union xss.flatten = I.union (xss.map I.union)
  intersection_singleton (x : α) : I.intersection [x] = x
  intersection_flatten (xss : List (List α)) :
    I.intersection xss.flatten = I.intersection (xss.map I.intersection)

variable {I}

theorem meaning_unionOf (h : I.Flat) (ts : List TypeTerm) :
    I.meaning (TypeTerm.unionOf ts) = I.union (ts.map I.meaning) := by
  by_cases hlen : ts.length = 1
  · obtain ⟨t, rfl⟩ := List.length_eq_one_iff.1 hlen
    exact (h.union_singleton (I.meaning t)).symm
  · rw [TypeTerm.unionOf_of_length_ne_one hlen, meaning, memberMeanings_eq]

theorem meaning_intersectionOf (h : I.Flat) (ts : List TypeTerm) :
    I.meaning (TypeTerm.intersectionOf ts) = I.intersection (ts.map I.meaning) := by
  by_cases hlen : ts.length = 1
  · obtain ⟨t, rfl⟩ := List.length_eq_one_iff.1 hlen
    exact (h.intersection_singleton (I.meaning t)).symm
  · rw [TypeTerm.intersectionOf_of_length_ne_one hlen, meaning, memberMeanings_eq]

/-- Merging keeps the meaning. -/
theorem meaning_merge (h : I.Flat) (t : TypeTerm) : I.meaning t.merge = I.meaning t := by
  induction t using TypeTerm.child_induction with
  | step t ih =>
    cases t with
    | array t =>
      rw [TypeTerm.merge, meaning, meaning, ih t (List.mem_singleton_self t)]
    | object fs =>
      have hfs : ∀ f ∈ fs, I.meaning f.type.merge = I.meaning f.type := fun f hf =>
        ih f.type (List.mem_map_of_mem hf)
      rw [TypeTerm.merge, TypeTerm.mergeFields_eq, meaning, meaning, fieldMeanings_eq,
        fieldMeanings_eq, List.map_map]
      exact congrArg I.object (List.map_congr_left fun f hf => by
        rw [Function.comp_apply, hfs f hf])
    | union ms =>
      have hms : ∀ m ∈ ms, I.union (m.mergedAlternatives.map I.meaning) = I.meaning m := by
        intro m hm
        rw [← meaning_unionOf h, ← TypeTerm.merge_eq_unionOf]
        exact ih m hm
      rw [TypeTerm.merge_union, meaning_unionOf h, meaning, memberMeanings_eq, List.map_flatMap,
        List.flatMap_def, h.union_flatten, List.map_map]
      exact congrArg I.union (List.map_congr_left hms)
    | intersection ms =>
      have hms : ∀ m ∈ ms, I.intersection (m.mergedFactors.map I.meaning) = I.meaning m := by
        intro m hm
        rw [← meaning_intersectionOf h, ← TypeTerm.merge_eq_intersectionOf]
        exact ih m hm
      rw [TypeTerm.merge_intersection, meaning_intersectionOf h, meaning, memberMeanings_eq,
        List.map_flatMap, List.flatMap_def, h.intersection_flatten, List.map_map]
      exact congrArg I.intersection (List.map_congr_left hms)
    | _ => rfl

end Interpretation
end SchemaTypes
