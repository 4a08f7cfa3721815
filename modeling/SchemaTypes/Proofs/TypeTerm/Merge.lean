/-
# Types with nested unions and intersections merged

How `|` and `&` are grouped among themselves does not show in a type: a union
of unions is the union of all their members, and a union of one member is
that member; intersections likewise. `merge` brings every type into the form
in which nothing is left to merge. A merged type is the union of its
alternatives and the intersection of its factors, so both come apart again:
merging a union is appending alternatives, merging an intersection is
appending factors.

Key definitions: `TypeTerm.unionOf`, `TypeTerm.intersectionOf`,
`TypeTerm.merge`, `TypeTerm.mergedAlternatives`, `TypeTerm.mergedFactors`.
Key theorems: `TypeTerm.merge_union`, `TypeTerm.merge_intersection`,
`TypeTerm.merge_eq_iff_alternatives`, `TypeTerm.merge_eq_iff_factors`.
-/
import SchemaTypes.Proofs.TypeTerm.Position

namespace SchemaTypes.TypeTerm

/-- The union of some types; of one type it is that type. -/
def unionOf : List TypeTerm → TypeTerm
  | [t] => t
  | ts => .union ts

/-- The intersection of some types; of one type it is that type. -/
def intersectionOf : List TypeTerm → TypeTerm
  | [t] => t
  | ts => .intersection ts

/-- The types that a type is the union of. -/
def alternatives : TypeTerm → List TypeTerm
  | .union ms => ms
  | t => [t]

/-- The types that a type is the intersection of. -/
def factors : TypeTerm → List TypeTerm
  | .intersection ms => ms
  | t => [t]

mutual

/-- The type without unions directly inside of unions, intersections directly
inside of intersections, and either of them with one member. -/
def merge : TypeTerm → TypeTerm
  | .array t => .array (merge t)
  | .object fs => .object (mergeFields fs)
  | .union ms => unionOf (mergeUnion ms)
  | .intersection ms => intersectionOf (mergeIntersection ms)
  | t => t

/-- The alternatives of all members, merged. -/
def mergeUnion : List TypeTerm → List TypeTerm
  | [] => []
  | t :: ts => (merge t).alternatives ++ mergeUnion ts

/-- The factors of all members, merged. -/
def mergeIntersection : List TypeTerm → List TypeTerm
  | [] => []
  | t :: ts => (merge t).factors ++ mergeIntersection ts

/-- Fields with their types merged. -/
def mergeFields : List (FieldOf TypeTerm) → List (FieldOf TypeTerm)
  | [] => []
  | ⟨key, isOptional, t⟩ :: fs => ⟨key, isOptional, merge t⟩ :: mergeFields fs

end

/-- The alternatives of a type when it is merged. -/
def mergedAlternatives (t : TypeTerm) : List TypeTerm :=
  t.merge.alternatives

/-- The factors of a type when it is merged. -/
def mergedFactors (t : TypeTerm) : List TypeTerm :=
  t.merge.factors

theorem mergeUnion_eq (ms : List TypeTerm) : mergeUnion ms = ms.flatMap mergedAlternatives := by
  induction ms with
  | nil => rfl
  | cons m ms ih => rw [mergeUnion, ih, List.flatMap_cons, mergedAlternatives]

theorem mergeIntersection_eq (ms : List TypeTerm) :
    mergeIntersection ms = ms.flatMap mergedFactors := by
  induction ms with
  | nil => rfl
  | cons m ms ih => rw [mergeIntersection, ih, List.flatMap_cons, mergedFactors]

theorem mergeFields_eq (fs : List Field) :
    mergeFields fs = fs.map fun f => ⟨f.key, f.isOptional, f.type.merge⟩ := by
  induction fs with
  | nil => rfl
  | cons f fs ih => rw [mergeFields, ih, List.map_cons]

theorem merge_union (ms : List TypeTerm) :
    (union ms).merge = unionOf (ms.flatMap mergedAlternatives) := by
  rw [merge, mergeUnion_eq]

theorem merge_intersection (ms : List TypeTerm) :
    (intersection ms).merge = intersectionOf (ms.flatMap mergedFactors) := by
  rw [merge, mergeIntersection_eq]

/-! ### Nothing is left to merge -/

/-- At the top of the type nothing is left to merge. -/
inductive Merged : TypeTerm → Prop
  | union {ms : List TypeTerm} (hlen : ms.length ≠ 1) (hmem : ∀ m ∈ ms, Merged m)
      (hflat : ∀ m ∈ ms, m.alternatives = [m]) : Merged (.union ms)
  | intersection {ms : List TypeTerm} (hlen : ms.length ≠ 1) (hmem : ∀ m ∈ ms, Merged m)
      (hflat : ∀ m ∈ ms, m.factors = [m]) : Merged (.intersection ms)
  | other {t : TypeTerm} (hu : t.alternatives = [t]) (hi : t.factors = [t]) : Merged t

theorem Merged.mem_alternatives {t m : TypeTerm} (h : Merged t) (hm : m ∈ t.alternatives) :
    Merged m ∧ m.alternatives = [m] := by
  cases h with
  | union hlen hmem hflat => exact ⟨hmem m hm, hflat m hm⟩
  | intersection hlen hmem hflat =>
    rw [List.mem_singleton.1 hm]
    exact ⟨.intersection hlen hmem hflat, rfl⟩
  | other hu hi =>
    rw [hu] at hm
    rw [List.mem_singleton.1 hm]
    exact ⟨.other hu hi, hu⟩

theorem Merged.mem_factors {t m : TypeTerm} (h : Merged t) (hm : m ∈ t.factors) :
    Merged m ∧ m.factors = [m] := by
  cases h with
  | union hlen hmem hflat =>
    rw [List.mem_singleton.1 hm]
    exact ⟨.union hlen hmem hflat, rfl⟩
  | intersection hlen hmem hflat => exact ⟨hmem m hm, hflat m hm⟩
  | other hu hi =>
    rw [hi] at hm
    rw [List.mem_singleton.1 hm]
    exact ⟨.other hu hi, hi⟩

theorem unionOf_of_length_ne_one {ts : List TypeTerm} (h : ts.length ≠ 1) :
    unionOf ts = .union ts := by
  match ts with
  | [] => rfl
  | [t] => exact absurd rfl h
  | t :: u :: ts => rfl

theorem intersectionOf_of_length_ne_one {ts : List TypeTerm} (h : ts.length ≠ 1) :
    intersectionOf ts = .intersection ts := by
  match ts with
  | [] => rfl
  | [t] => exact absurd rfl h
  | t :: u :: ts => rfl

theorem merged_unionOf {ts : List TypeTerm} (h : ∀ t ∈ ts, Merged t ∧ t.alternatives = [t]) :
    Merged (unionOf ts) := by
  by_cases hlen : ts.length = 1
  · obtain ⟨t, rfl⟩ := List.length_eq_one_iff.1 hlen
    exact (h t (List.mem_singleton_self t)).1
  · rw [unionOf_of_length_ne_one hlen]
    exact .union hlen (fun t ht => (h t ht).1) fun t ht => (h t ht).2

theorem merged_intersectionOf {ts : List TypeTerm} (h : ∀ t ∈ ts, Merged t ∧ t.factors = [t]) :
    Merged (intersectionOf ts) := by
  by_cases hlen : ts.length = 1
  · obtain ⟨t, rfl⟩ := List.length_eq_one_iff.1 hlen
    exact (h t (List.mem_singleton_self t)).1
  · rw [intersectionOf_of_length_ne_one hlen]
    exact .intersection hlen (fun t ht => (h t ht).1) fun t ht => (h t ht).2

theorem merged_merge (t : TypeTerm) : Merged t.merge := by
  induction t using child_induction with
  | step t ih =>
    cases t with
    | union ms =>
      rw [merge_union]
      refine merged_unionOf fun u hu => ?_
      obtain ⟨m, hm, hu⟩ := List.mem_flatMap.1 hu
      exact (ih m hm).mem_alternatives hu
    | intersection ms =>
      rw [merge_intersection]
      refine merged_intersectionOf fun u hu => ?_
      obtain ⟨m, hm, hu⟩ := List.mem_flatMap.1 hu
      exact (ih m hm).mem_factors hu
    | _ => exact .other rfl rfl

/-! ### A merged type and its alternatives and factors -/

theorem unionOf_alternatives {t : TypeTerm} (h : Merged t) : unionOf t.alternatives = t := by
  cases h with
  | union hlen _ _ => exact unionOf_of_length_ne_one hlen
  | intersection _ _ _ => rfl
  | other hu _ => rw [hu]; rfl

theorem intersectionOf_factors {t : TypeTerm} (h : Merged t) : intersectionOf t.factors = t := by
  cases h with
  | union _ _ _ => rfl
  | intersection hlen _ _ => exact intersectionOf_of_length_ne_one hlen
  | other _ hi => rw [hi]; rfl

theorem merge_eq_unionOf (t : TypeTerm) : t.merge = unionOf t.mergedAlternatives :=
  (unionOf_alternatives (merged_merge t)).symm

theorem merge_eq_intersectionOf (t : TypeTerm) : t.merge = intersectionOf t.mergedFactors :=
  (intersectionOf_factors (merged_merge t)).symm

/-- Types merge to the same if they merge to the same alternatives. -/
theorem merge_eq_iff_alternatives {t u : TypeTerm} :
    t.merge = u.merge ↔ t.mergedAlternatives = u.mergedAlternatives := by
  constructor
  · intro h
    rw [mergedAlternatives, h, mergedAlternatives]
  · intro h
    rw [merge_eq_unionOf t, h, ← merge_eq_unionOf u]

/-- Types merge to the same if they merge to the same factors. -/
theorem merge_eq_iff_factors {t u : TypeTerm} :
    t.merge = u.merge ↔ t.mergedFactors = u.mergedFactors := by
  constructor
  · intro h
    rw [mergedFactors, h, mergedFactors]
  · intro h
    rw [merge_eq_intersectionOf t, h, ← merge_eq_intersectionOf u]

theorem alternatives_unionOf {ts : List TypeTerm} (h : ∀ t ∈ ts, t.alternatives = [t]) :
    (unionOf ts).alternatives = ts := by
  by_cases hlen : ts.length = 1
  · obtain ⟨t, rfl⟩ := List.length_eq_one_iff.1 hlen
    exact h t (List.mem_singleton_self t)
  · rw [unionOf_of_length_ne_one hlen, alternatives]

theorem factors_intersectionOf {ts : List TypeTerm} (h : ∀ t ∈ ts, t.factors = [t]) :
    (intersectionOf ts).factors = ts := by
  by_cases hlen : ts.length = 1
  · obtain ⟨t, rfl⟩ := List.length_eq_one_iff.1 hlen
    exact h t (List.mem_singleton_self t)
  · rw [intersectionOf_of_length_ne_one hlen, factors]

/-- The alternatives of a union are those of its members. -/
theorem mergedAlternatives_union (ms : List TypeTerm) :
    (union ms).mergedAlternatives = ms.flatMap mergedAlternatives := by
  rw [mergedAlternatives, merge_union]
  refine alternatives_unionOf fun t ht => ?_
  obtain ⟨m, -, ht⟩ := List.mem_flatMap.1 ht
  exact ((merged_merge m).mem_alternatives ht).2

/-- The factors of an intersection are those of its members. -/
theorem mergedFactors_intersection (ms : List TypeTerm) :
    (intersection ms).mergedFactors = ms.flatMap mergedFactors := by
  rw [mergedFactors, merge_intersection]
  refine factors_intersectionOf fun t ht => ?_
  obtain ⟨m, -, ht⟩ := List.mem_flatMap.1 ht
  exact ((merged_merge m).mem_factors ht).2

theorem mergedAlternatives_unionOf (ts : List TypeTerm) :
    (unionOf ts).mergedAlternatives = ts.flatMap mergedAlternatives := by
  by_cases hlen : ts.length = 1
  · obtain ⟨t, rfl⟩ := List.length_eq_one_iff.1 hlen
    rw [unionOf, List.flatMap_singleton]
  · rw [unionOf_of_length_ne_one hlen, mergedAlternatives_union]

theorem mergedFactors_intersectionOf (ts : List TypeTerm) :
    (intersectionOf ts).mergedFactors = ts.flatMap mergedFactors := by
  by_cases hlen : ts.length = 1
  · obtain ⟨t, rfl⟩ := List.length_eq_one_iff.1 hlen
    rw [intersectionOf, List.flatMap_singleton]
  · rw [intersectionOf_of_length_ne_one hlen, mergedFactors_intersection]

end SchemaTypes.TypeTerm
