/-
# The references that are left in a type

Where typing comes to a reference and does not expand it, it leaves something
in its place: the declared name, or an empty object if the target would have
to be expanded and is missing. `Leaves` tells the reference that is left at a
position of the type.

Every name in a type is left for a reference. A reference whose target is not
in the catalog is left somewhere in the type exactly if a warning about it is
reported: an expansion is only cut at names of the catalog, so such a
reference is never taken for one that closes a cycle. What is proved here of
every stack and schema follows the course of typing (`Typing.induction`): a
reference is left, or it is expanded, or the schema is typed by its parts.

Key definitions: `Warned`, `Typing.Leaves`.
Key theorems: `Typing.induction`, `Typing.subterm?_of_leaves`,
`Typing.leaves_of_named`, `Typing.warned_iff_leaves`.
-/
import SchemaTypes.Log.Event
import SchemaTypes.Proofs.Typing.Cycle

namespace SchemaTypes

/-- The reference that an event is about. -/
def ReferenceEvent.reference : ReferenceEvent → String
  | .unknown r | .cycle r | .unknownExpanded r => r

/-- There is a warning about the reference among the events. -/
def Warned (r : String) (events : List ReferenceEvent) : Prop :=
  ∃ e ∈ events, (Log.Event.reference e).level = .warn ∧ e.reference = r

section

variable {r r' : String}

@[simp] theorem not_warned_nil : ¬ Warned r [] := by
  simp [Warned]

@[simp] theorem warned_unknown : Warned r [.unknown r'] ↔ r = r' := by
  simp [Warned, Log.Event.level, ReferenceEvent.reference, eq_comm]

@[simp] theorem warned_unknownExpanded : Warned r [.unknownExpanded r'] ↔ r = r' := by
  simp [Warned, Log.Event.level, ReferenceEvent.reference, eq_comm]

/-- A cut is not warned about. -/
@[simp] theorem not_warned_cycle : ¬ Warned r [.cycle r'] := by
  simp [Warned, Log.Event.level]

theorem warned_flatMap {α : Type} {l : List α} {f : α → List ReferenceEvent} :
    Warned r (l.flatMap f) ↔ ∃ a ∈ l, Warned r (f a) := by
  constructor
  · rintro ⟨e, he, hwarn⟩
    obtain ⟨a, ha, he⟩ := List.mem_flatMap.1 he
    exact ⟨a, ha, e, he, hwarn⟩
  · rintro ⟨a, ha, e, he, hwarn⟩
    exact ⟨e, List.mem_flatMap.2 ⟨a, ha, he⟩, hwarn⟩

end

namespace Typing

variable {c : Catalog} {o : Settings} {stack : List String} {s t : Schema} {position : List Nat}
  {r r' x : String}

/-- The reference is left in place inside of the expansion of the names on the
stack. -/
def IsLeft (c : Catalog) (o : Settings) (stack : List String) (r : String) : Prop :=
  o.inlineRefs = true → Reference.target r ∈ stack ∨ Reference.resolve? r c = none

/-- Typing the schema inside of the expansion of the names on the stack leaves
the reference at the position of the type. -/
inductive Leaves (c : Catalog) (o : Settings) : List String → Schema → List Nat → String → Prop
  | left {stack : List String} {s : Schema} {r : String} (hr : s.rule = .reference r)
      (h : IsLeft c o stack r) : Leaves c o stack s [] r
  | part {stack : List String} {s t : Schema} {i : Nat} {position : List Nat} {r : String}
      (ht : s.rule.parts[i]? = some t) (h : Leaves c o stack t position r) :
      Leaves c o stack s (i :: position) r
  | expand {stack : List String} {s t : Schema} {r' : String} {position : List Nat} {r : String}
      (hi : o.inlineRefs = true) (hr : s.rule = .reference r') (hs : Reference.target r' ∉ stack)
      (ht : Reference.resolve? r' c = some t)
      (h : Leaves c o (stack ++ [Reference.target r']) t position r) :
      Leaves c o stack s position r

/-! ### The course of typing -/

/-- What holds where a reference is left, of a schema that is a reference as
soon as it holds inside of the expansion, and of any other schema as soon as it
holds of the parts, holds on every stack of every schema. -/
theorem induction {motive : List String → Schema → Prop}
    (left : ∀ stack s r, s.rule = .reference r → IsLeft c o stack r → motive stack s)
    (expand : ∀ stack s r t, o.inlineRefs = true → s.rule = .reference r →
      Reference.target r ∉ stack → Reference.resolve? r c = some t →
      motive (stack ++ [Reference.target r]) t → motive stack s)
    (parts : ∀ stack s, (∀ r, s.rule ≠ .reference r) → (∀ t ∈ s.rule.parts, motive stack t) →
      motive stack s) (stack : List String) : ∀ s, motive stack s := by
  induction stack using c.stack_induction with
  | step stack ih =>
    intro s
    induction s using Schema.part_induction with
    | step s ihs =>
      by_cases hs : ∃ r, s.rule = .reference r
      · obtain ⟨r, hr⟩ := hs
        by_cases h : IsLeft c o stack r
        · exact left stack s r hr h
        · obtain ⟨hi, h⟩ := Classical.not_imp.1 h
          obtain ⟨hstack, hc⟩ := not_or.1 h
          obtain ⟨t, ht⟩ := Option.ne_none_iff_exists'.1 hc
          have hname := Catalog.mem_names_of_resolve? ht
          exact expand stack s r t hi hr hstack ht (ih _ hname hstack t)
      · exact parts stack s (fun r hr => hs ⟨r, hr⟩) ihs

theorem leaves_iff_of_left (hr : s.rule = .reference r') (h : IsLeft c o stack r') :
    Leaves c o stack s position r ↔ position = [] ∧ r = r' := by
  constructor
  · intro hl
    cases hl with
    | left hr' _ =>
      rw [hr] at hr'
      cases hr'
      exact ⟨rfl, rfl⟩
    | part ht _ =>
      rw [hr] at ht
      cases ht
    | expand hi hr' hs ht _ =>
      rw [hr] at hr'
      cases hr'
      rcases h hi with h | h
      · exact absurd h hs
      · rw [h] at ht
        cases ht
  · rintro ⟨rfl, rfl⟩
    exact .left hr h

theorem leaves_iff_of_expanded (hi : o.inlineRefs = true) (hr : s.rule = .reference r')
    (hs : Reference.target r' ∉ stack) (ht : Reference.resolve? r' c = some t) :
    Leaves c o stack s position r ↔ Leaves c o (stack ++ [Reference.target r']) t position r := by
  constructor
  · intro hl
    cases hl with
    | left hr' h =>
      rw [hr] at hr'
      cases hr'
      rcases h hi with h | h
      · exact absurd h hs
      · rw [h] at ht
        cases ht
    | part ht' _ =>
      rw [hr] at ht'
      cases ht'
    | expand _ hr' _ ht' h =>
      rw [hr] at hr'
      cases hr'
      rw [ht] at ht'
      cases ht'
      exact h
  · exact .expand hi hr hs ht

theorem leaves_iff_of_parts (hs : ∀ r, s.rule ≠ .reference r) :
    Leaves c o stack s position r ↔
      ∃ i t rest, position = i :: rest ∧ s.rule.parts[i]? = some t ∧ Leaves c o stack t rest r := by
  constructor
  · intro hl
    cases hl with
    | left hr _ => exact absurd hr (hs _)
    | part ht h => exact ⟨_, _, _, rfl, ht, h⟩
    | expand _ hr _ _ _ => exact absurd hr (hs _)
  · rintro ⟨i, t, rest, rfl, ht, h⟩
    exact .part ht h

/-! ### What is left -/

/-- A reference that is left is typed as its declared name or, if its target
is missing, as an empty object. -/
theorem value_of_isLeft (h : IsLeft c o stack r) :
    (reference c o stack r).value = named o r ∨
      c.contains (Reference.target r) = false ∧ (reference c o stack r).value = .object [] := by
  cases hi : o.inlineRefs with
  | false =>
    rw [reference_kept hi]
    exact .inl rfl
  | true =>
    by_cases hs : Reference.target r ∈ stack
    · rw [reference_cut hi hs]
      exact .inl rfl
    · have hc := (h hi).resolve_left hs
      rw [reference_missing hi hs hc]
      exact .inr ⟨congrArg Option.isSome hc, rfl⟩

theorem term_of_reference (hr : s.rule = .reference r) :
    term c o stack (some s) = reference c o stack r := by
  rw [term, Schema.termWith_of_reference hr]

/-- What is left for a reference stands at the position. -/
theorem subterm?_of_leaves (h : Leaves c o stack s position r) :
    (term c o stack (some s)).value.subterm? position = some (named o r) ∨
      c.contains (Reference.target r) = false ∧
        (term c o stack (some s)).value.subterm? position = some (.object []) := by
  induction h with
  | left hr h =>
    rw [term_of_reference hr, TypeTerm.subterm?_nil, Option.some.injEq, Option.some.injEq]
    exact value_of_isLeft h
  | part ht _ ih =>
    rw [TypeTerm.subterm?_cons_of_child (getElem?_children_term ht)]
    exact ih
  | expand hi hr hs ht _ ih =>
    rw [term_expanded hi hr hs ht]
    exact ih

/-- **Every name in a type is left for a reference.** -/
theorem leaves_of_named (stack : List String) (s : Schema) :
    ∀ position x, (term c o stack (some s)).value.subterm? position = some (.named x) →
      ∃ r, Leaves c o stack s position r ∧ x = Reference.declaredName r o.namePrefix := by
  induction stack, s using Typing.induction with
  | left stack s r hr h =>
    intro position x hx
    rw [term_of_reference hr] at hx
    rcases value_of_isLeft h with hv | ⟨-, hv⟩
    · rw [hv] at hx
      obtain ⟨rfl, hx⟩ := TypeTerm.eq_of_subterm?_leaf rfl hx
      cases hx
      exact ⟨r, .left hr h, rfl⟩
    · rw [hv] at hx
      obtain ⟨-, hx⟩ := TypeTerm.eq_of_subterm?_leaf rfl hx
      cases hx
  | expand stack s r t hi hr hs ht ih =>
    intro position x hx
    rw [term_expanded hi hr hs ht] at hx
    obtain ⟨r', h, hx⟩ := ih position x hx
    exact ⟨r', .expand hi hr hs ht h, hx⟩
  | parts stack s hs ih =>
    intro position x hx
    rcases TypeTerm.subterm?_cases hx with ⟨-, hx⟩ | ⟨i, u, rest, rfl, hu, hx⟩
    · exact absurd hx.symm (Schema.termWith_ne_named hs x)
    · obtain ⟨t, ht, rfl⟩ := exists_part_of_child hs hu (TypeTerm.mem_names_iff.2 ⟨rest, hx⟩)
      obtain ⟨r, h, hx⟩ := ih t (List.mem_of_getElem? ht) rest x hx
      exact ⟨r, .part ht h, hx⟩

/-! ### What is reported -/

theorem events_term_of_parts (hs : ∀ r, s.rule ≠ .reference r) :
    (term c o stack (some s)).events =
      s.rule.parts.flatMap fun t => (term c o stack (some t)).events := by
  simp only [term, Schema.events_termWith, Schema.references_of_parts hs, List.flatMap_assoc]

theorem names_term_of_parts (hs : ∀ r, s.rule ≠ .reference r) :
    (term c o stack (some s)).value.names =
      s.rule.parts.flatMap fun t => (term c o stack (some t)).value.names := by
  simp only [term, Schema.names_termWith, Schema.references_of_parts hs, List.flatMap_assoc]

/-- A reference that is left is warned about if its target is not in the
catalog. -/
theorem warned_iff_of_isLeft (hr : c.contains (Reference.target r) = false)
    (hstack : Reference.target r ∉ stack) (h : IsLeft c o stack r') :
    Warned r (reference c o stack r').events ↔ r = r' := by
  cases hi : o.inlineRefs with
  | false =>
    rw [reference_kept hi]
    cases hc : c.contains (Reference.target r') with
    | true =>
      have hne : r ≠ r' := by
        rintro rfl
        rw [hr] at hc
        cases hc
      simp [hne]
    | false => simp
  | true =>
    by_cases hs : Reference.target r' ∈ stack
    · have hne : r ≠ r' := by
        rintro rfl
        exact hstack hs
      rw [reference_cut hi hs]
      simp [hne]
    · rw [reference_missing hi hs ((h hi).resolve_left hs)]
      exact warned_unknownExpanded

/-- **A reference without a target is left exactly if it is warned about.** -/
theorem warned_iff_leaves (hr : c.contains (Reference.target r) = false) (stack : List String)
    (s : Schema) : Reference.target r ∉ stack →
      (Warned r (term c o stack (some s)).events ↔ ∃ position, Leaves c o stack s position r) := by
  induction stack, s using Typing.induction with
  | left stack s r' hr' h =>
    intro hstack
    rw [term_of_reference hr', warned_iff_of_isLeft hr hstack h]
    simp only [leaves_iff_of_left hr' h, exists_eq_left]
  | expand stack s r' t hi hr' hs ht ih =>
    intro hstack
    have hne : Reference.target r ≠ Reference.target r' := by
      intro heq
      have hc : c.contains (Reference.target r') = true := by
        rw [Catalog.contains, show c.find? (Reference.target r') = some t from ht]
        rfl
      rw [← heq, hr] at hc
      cases hc
    have hpush : Reference.target r ∉ stack ++ [Reference.target r'] := by
      simp [hstack, hne]
    rw [term_expanded hi hr' hs ht, ih hpush]
    simp only [leaves_iff_of_expanded hi hr' hs ht]
  | parts stack s hs ih =>
    intro hstack
    rw [events_term_of_parts hs, warned_flatMap]
    constructor
    · rintro ⟨t, ht, hwarned⟩
      obtain ⟨position, h⟩ := (ih t ht hstack).1 hwarned
      obtain ⟨i, hi⟩ := List.mem_iff_getElem?.1 ht
      exact ⟨i :: position, .part hi h⟩
    · rintro ⟨position, h⟩
      obtain ⟨i, t, rest, -, ht, h⟩ := (leaves_iff_of_parts hs).1 h
      have ht := List.mem_of_getElem? ht
      exact ⟨t, ht, (ih t ht hstack).2 ⟨rest, h⟩⟩

end Typing
end SchemaTypes
