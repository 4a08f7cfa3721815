/-
# Positions in a type

A type is a tree: its children are the types that its constructor joins, and
a position is the list of the child indices that lead to a subterm. `names`
lists the declared names at the leaves from left to right.

Key definitions: `TypeTerm.children`, `TypeTerm.subterm?`,
`TypeTerm.HasMembers`, `TypeTerm.names`.
Key theorems: `TypeTerm.child_induction`, `TypeTerm.mem_names_iff`.
-/
import SchemaTypes.TypeTerm

namespace SchemaTypes.TypeTerm

/-- The types that a type joins, from left to right. -/
def children : TypeTerm → List TypeTerm
  | .array t => [t]
  | .object fs => fs.map FieldOf.type
  | .union ms | .intersection ms => ms
  | _ => []

theorem sizeOf_lt_of_mem_children {t u : TypeTerm} (h : u ∈ t.children) :
    sizeOf u < sizeOf t := by
  cases t with
  | array t =>
    rw [List.mem_singleton.1 h, array.sizeOf_spec]
    omega
  | object fs =>
    obtain ⟨f, hf, rfl⟩ := List.mem_map.1 h
    have hf := List.sizeOf_lt_of_mem hf
    have : sizeOf f.type < sizeOf f := by
      obtain ⟨key, isOptional, t⟩ := f
      rw [FieldOf.mk.sizeOf_spec]
      simp only
      omega
    rw [object.sizeOf_spec]
    omega
  | union ms =>
    have := List.sizeOf_lt_of_mem (show u ∈ ms from h)
    rw [union.sizeOf_spec]
    omega
  | intersection ms =>
    have := List.sizeOf_lt_of_mem (show u ∈ ms from h)
    rw [intersection.sizeOf_spec]
    omega
  | _ => cases h

/-- What holds of a type as soon as it holds of its children holds of every
type. -/
@[elab_as_elim]
theorem child_induction {motive : TypeTerm → Prop}
    (step : ∀ t : TypeTerm, (∀ u ∈ t.children, motive u) → motive t) (t : TypeTerm) : motive t :=
  step t fun u _ => child_induction step u
termination_by sizeOf t
decreasing_by exact sizeOf_lt_of_mem_children ‹_›

/-- The subterm at a position. -/
def subterm? : TypeTerm → List Nat → Option TypeTerm
  | t, [] => some t
  | t, i :: position => t.children[i]?.bind fun u => u.subterm? position

@[simp] theorem subterm?_nil (t : TypeTerm) : t.subterm? [] = some t := by
  rw [subterm?]

theorem subterm?_cons_of_child {t u : TypeTerm} {i : Nat} (h : t.children[i]? = some u)
    (position : List Nat) : t.subterm? (i :: position) = u.subterm? position := by
  rw [subterm?, h, Option.bind_some]

/-- A subterm is the type itself or a subterm of a child. -/
theorem subterm?_cases {t v : TypeTerm} {position : List Nat} (h : t.subterm? position = some v) :
    (position = [] ∧ v = t) ∨ ∃ i u rest,
      position = i :: rest ∧ t.children[i]? = some u ∧ u.subterm? rest = some v := by
  cases position with
  | nil => exact .inl ⟨rfl, (Option.some.inj h).symm⟩
  | cons i rest =>
    rw [subterm?] at h
    obtain ⟨u, hu, hv⟩ := Option.bind_eq_some_iff.1 h
    exact .inr ⟨i, u, rest, rfl, hu, hv⟩

/-- A type without children has no subterm but itself. -/
theorem eq_of_subterm?_leaf {t v : TypeTerm} {position : List Nat} (ht : t.children = [])
    (h : t.subterm? position = some v) : position = [] ∧ v = t := by
  rcases subterm?_cases h with h | ⟨i, u, rest, -, hu, -⟩
  · exact h
  · rw [ht] at hu
    cases hu

/-- What holds at every position holds of the type and at every position of
its children. -/
theorem forall_subterm?_iff {P : TypeTerm → Prop} {t : TypeTerm} :
    (∀ position v, t.subterm? position = some v → P v) ↔
      P t ∧ ∀ u ∈ t.children, ∀ position v, u.subterm? position = some v → P v := by
  constructor
  · intro h
    refine ⟨h [] t (subterm?_nil t), fun u hu position v hv => ?_⟩
    obtain ⟨i, hi⟩ := List.mem_iff_getElem?.1 hu
    exact h (i :: position) v ((subterm?_cons_of_child hi position).trans hv)
  · rintro ⟨htop, hchildren⟩ position v hv
    rcases subterm?_cases hv with ⟨-, rfl⟩ | ⟨i, u, rest, -, hu, hv⟩
    · exact htop
    · exact hchildren u (List.mem_of_getElem? hu) rest v hv

/-- Nowhere in the type is there a union or an intersection without
members. -/
def HasMembers (t : TypeTerm) : Prop :=
  ∀ position u, t.subterm? position = some u → u ≠ .union [] ∧ u ≠ .intersection []

theorem HasMembers.child {t u : TypeTerm} (h : HasMembers t) (hu : u ∈ t.children) :
    HasMembers u :=
  (forall_subterm?_iff.1 h).2 u hu

mutual

/-- The declared names at the leaves of a type, from left to right. -/
def names : TypeTerm → List String
  | .named n => [n]
  | .array t => names t
  | .object fs => fieldNames fs
  | .union ms | .intersection ms => memberNames ms
  | _ => []

/-- The names of the members of a union or an intersection. -/
def memberNames : List TypeTerm → List String
  | [] => []
  | t :: ts => names t ++ memberNames ts

/-- The names of the types of fields. -/
def fieldNames : List (FieldOf TypeTerm) → List String
  | [] => []
  | ⟨_, _, t⟩ :: fs => names t ++ fieldNames fs

end

theorem memberNames_eq (ts : List TypeTerm) : memberNames ts = ts.flatMap names := by
  induction ts with
  | nil => rfl
  | cons t ts ih => rw [memberNames, ih, List.flatMap_cons]

theorem fieldNames_eq (fs : List Field) : fieldNames fs = (fs.map FieldOf.type).flatMap names := by
  induction fs with
  | nil => rfl
  | cons f fs ih => rw [fieldNames, ih, List.map_cons, List.flatMap_cons]

/-- The names of a type are those of its children, unless it is a name. -/
theorem names_eq {t : TypeTerm} (h : ∀ n, t ≠ .named n) : t.names = t.children.flatMap names := by
  cases t with
  | named n => exact absurd rfl (h n)
  | array t => simp [names, children]
  | object fs => rw [names, fieldNames_eq, children]
  | union ms => rw [names, memberNames_eq, children]
  | intersection ms => rw [names, memberNames_eq, children]
  | _ => rfl

/-- The names of a type are those that stand at some position in it. -/
theorem mem_names_iff {t : TypeTerm} {n : String} :
    n ∈ t.names ↔ ∃ position, t.subterm? position = some (.named n) := by
  induction t using child_induction with
  | step t ih =>
    by_cases ht : ∃ m, t = .named m
    · obtain ⟨m, rfl⟩ := ht
      constructor
      · intro h
        rw [List.mem_singleton.1 h]
        exact ⟨[], subterm?_nil _⟩
      · rintro ⟨position, h⟩
        obtain ⟨-, h⟩ := eq_of_subterm?_leaf rfl h
        cases h
        exact List.mem_singleton_self n
    · have ht : ∀ m, t ≠ .named m := fun m hm => ht ⟨m, hm⟩
      rw [names_eq ht, List.mem_flatMap]
      constructor
      · rintro ⟨u, hu, hn⟩
        obtain ⟨position, hp⟩ := (ih u hu).1 hn
        obtain ⟨i, hi⟩ := List.mem_iff_getElem?.1 hu
        exact ⟨i :: position, (subterm?_cons_of_child hi position).trans hp⟩
      · rintro ⟨position, h⟩
        obtain ⟨-, h⟩ | ⟨i, u, rest, -, hu, hn⟩ := subterm?_cases h
        · exact absurd h.symm (ht n)
        · have hu := List.mem_of_getElem? hu
          exact ⟨u, hu, (ih u hu).2 ⟨rest, hn⟩⟩

end SchemaTypes.TypeTerm
