/-
# The log tells what is left in a type

Typing a schema comes to references one after the other, each from inside of
the expansion of some names. These are its visits, in the order in which
typing makes them: a reference is visited before what it is expanded to, and
the parts of a schema are visited from left to right.

A visit leaves at most one name in the type and at most one event in the log,
and what it leaves is settled by the visit alone. So the names of a type and
the events of its making are read off the same list. With references kept by
name every visit leaves its name, and it is warned about exactly if the target
is missing. With references expanded the names are those of the visits that
are cut, and these are the ones whose events are not warnings.

Key definitions: `Typing.Visit`, `Typing.visits`, `Log.ofLevel`.
Key theorems: `Typing.mem_visits_iff`, `Typing.left_by_visits`,
`Typing.log_matches`.
-/
import SchemaTypes.Proofs.Typing.Leaves

namespace SchemaTypes

/-- The events of a level, in order. -/
def Log.ofLevel (level : Log.Level) (events : List ReferenceEvent) : List ReferenceEvent :=
  events.filter fun e => (Log.Event.reference e).level = level

namespace Typing

/-- A reference that typing comes to, and the names it is then inside of. -/
structure Visit where
  stack : List String
  reference : String
deriving DecidableEq, Repr

namespace Visit

/-- The name that typing goes inside of if the reference is expanded. -/
def target (v : Visit) : String :=
  Reference.target v.reference

/-- The target is being expanded already. -/
def IsCut (v : Visit) : Prop :=
  v.target ∈ v.stack

instance (v : Visit) : Decidable v.IsCut :=
  inferInstanceAs (Decidable (v.target ∈ v.stack))

/-- The declared name of the reference. -/
def declaredName (o : Settings) (v : Visit) : String :=
  Reference.declaredName v.reference o.namePrefix

/-- The name that the visit leaves in the type. -/
def name? (o : Settings) (v : Visit) : Option String :=
  if o.inlineRefs ∧ ¬ v.IsCut then none else some (v.declaredName o)

/-- The event that the visit leaves in the log. -/
def event? (c : Catalog) (o : Settings) (v : Visit) : Option ReferenceEvent :=
  if o.inlineRefs then
    if v.IsCut then some (.cycle v.reference)
    else if c.contains v.target then none
    else some (.unknownExpanded v.reference)
  else if c.contains v.target then none
  else some (.unknown v.reference)

end Visit

/-- The visits of typing a reference: its own one, and those of the schema of
its target if the reference is expanded. -/
def visitsOf (c : Catalog) (o : Settings) (stack : List String) (r : String) : List Visit :=
  ⟨stack, r⟩ ::
    if o.inlineRefs then
      if _hs : Reference.target r ∈ stack then []
      else
        match _hc : Reference.resolve? r c with
        | none => []
        | some s => s.references.flatMap (visitsOf c o (stack ++ [Reference.target r]))
    else []
termination_by c.unexpanded stack
decreasing_by exact Catalog.unexpanded_push (Catalog.mem_names_of_find? _hc) _hs

/-- The visits of typing a schema inside of the expansion of the names on the
stack, in order. -/
def visits (c : Catalog) (o : Settings) (stack : List String) (s : Schema) : List Visit :=
  s.references.flatMap (visitsOf c o stack)

variable {c : Catalog} {o : Settings} {stack : List String} {s t : Schema} {r : String}

/-! ### The order of the visits -/

/-- A reference that is left is not gone into. -/
theorem visitsOf_of_isLeft (h : IsLeft c o stack r) : visitsOf c o stack r = [⟨stack, r⟩] := by
  rw [visitsOf]
  refine congrArg (List.cons _) ?_
  cases hi : o.inlineRefs with
  | false => rfl
  | true =>
    rw [if_pos rfl]
    by_cases hs : Reference.target r ∈ stack
    · rw [dif_pos hs]
    · rw [dif_neg hs]
      split
      · rfl
      · rename_i t ht
        rw [(h hi).resolve_left hs] at ht
        cases ht

/-- A reference that is expanded is visited before what it is expanded to. -/
theorem visitsOf_expanded (hi : o.inlineRefs = true) (hs : Reference.target r ∉ stack)
    (ht : Reference.resolve? r c = some t) :
    visitsOf c o stack r = ⟨stack, r⟩ :: visits c o (stack ++ [Reference.target r]) t := by
  rw [visitsOf, if_pos hi, dif_neg hs]
  refine congrArg (List.cons _) ?_
  split
  · rename_i ht'
    rw [ht] at ht'
    cases ht'
  · rename_i t' ht'
    rw [ht] at ht'
    cases ht'
    rfl

theorem visits_of_reference (hr : s.rule = .reference r) :
    visits c o stack s = visitsOf c o stack r := by
  rw [visits, Schema.references_of_reference hr, List.flatMap_singleton]

/-- The parts of a schema are visited from left to right. -/
theorem visits_of_parts (hs : ∀ r, s.rule ≠ .reference r) :
    visits c o stack s = s.rule.parts.flatMap (visits c o stack) := by
  rw [visits, Schema.references_of_parts hs, List.flatMap_assoc]
  rfl

/-- With references kept by name, the visits are the references of the
schema. -/
theorem visits_of_kept (hi : o.inlineRefs = false) :
    visits c o stack s = s.references.map (Visit.mk stack) := by
  have hof : ∀ r, visitsOf c o stack r = [⟨stack, r⟩] := fun r =>
    visitsOf_of_isLeft fun hi' => by
      rw [hi] at hi'
      cases hi'
  rw [visits, funext hof, List.map_eq_flatMap]

/-- Inside of the declaration of `A` the ring is visited at both of its
references, and only the first one is expanded. -/
example : visits .ring { inlineRefs := true } ["A"] (.link "b" "#/components/schemas/B") =
    [⟨["A"], "#/components/schemas/B"⟩, ⟨["A", "B"], "#/components/schemas/A"⟩] := by
  have hcut : IsLeft .ring { inlineRefs := true } ["A", "B"] "#/components/schemas/A" :=
    fun _ => .inl (by decide)
  have hb : (Schema.link "b" "#/components/schemas/B").references = ["#/components/schemas/B"] := by
    cbv
  have ha : (Schema.link "a" "#/components/schemas/A").references = ["#/components/schemas/A"] := by
    cbv
  rw [visits, hb, List.flatMap_singleton, visitsOf_expanded rfl (by decide) rfl, visits, ha,
    List.flatMap_singleton]
  exact congrArg (List.cons _) (visitsOf_of_isLeft hcut)

/-- With references expanded, a reference is visited exactly where typing
comes to it, and from inside of the same names. -/
theorem mem_visits_iff (hi : o.inlineRefs = true) (v : Visit) (stack : List String) (s : Schema) :
    v ∈ visits c o stack s ↔
      ∃ position u, Within c stack s position v.stack u ∧ u.rule = .reference v.reference := by
  constructor
  · induction stack, s using Typing.induction (c := c) (o := o) with
    | left stack s r hr h =>
      intro hv
      rw [visits_of_reference hr, visitsOf_of_isLeft h, List.mem_singleton] at hv
      rw [hv]
      exact ⟨[], s, .refl stack s, hr⟩
    | expand stack s r t hi hr hs ht ih =>
      intro hv
      rw [visits_of_reference hr, visitsOf_expanded hi hs ht] at hv
      rcases List.mem_cons.1 hv with rfl | hv
      · exact ⟨[], s, .refl stack s, hr⟩
      · obtain ⟨position, u, hu, hur⟩ := ih hv
        exact ⟨position, u, .expand hr hs ht hu, hur⟩
    | parts stack s hs ih =>
      intro hv
      rw [visits_of_parts hs] at hv
      obtain ⟨t, ht, hv⟩ := List.mem_flatMap.1 hv
      obtain ⟨position, u, hu, hur⟩ := ih t ht hv
      obtain ⟨i, hi⟩ := List.mem_iff_getElem?.1 ht
      exact ⟨i :: position, u, .part hi hu, hur⟩
  · rintro ⟨position, u, h, hur⟩
    obtain ⟨vstack, r⟩ := v
    simp only at h hur
    induction h with
    | refl stack s =>
      rw [visits_of_reference hur, visitsOf]
      exact List.mem_cons_self
    | part ht _ ih =>
      have ht := List.mem_of_getElem? ht
      rw [visits_of_parts (Schema.rule_ne_reference_of_mem_parts ht)]
      exact List.mem_flatMap.2 ⟨_, ht, ih hur⟩
    | expand hr hs ht _ ih =>
      rw [visits_of_reference hr, visitsOf_expanded hi hs ht]
      exact List.mem_cons_of_mem _ (ih hur)

/-- With references kept by name, a reference is visited exactly where it is
left in the type. -/
theorem mem_visits_kept_iff (hi : o.inlineRefs = false) (v : Visit) (stack : List String)
    (s : Schema) :
    v ∈ visits c o stack s ↔
      v.stack = stack ∧ ∃ position, Leaves c o stack s position v.reference := by
  induction stack, s using Typing.induction (c := c) (o := o) with
  | left stack s r hr h =>
    rw [visits_of_reference hr, visitsOf_of_isLeft h, List.mem_singleton]
    simp only [leaves_iff_of_left hr h, exists_eq_left]
    obtain ⟨vstack, vreference⟩ := v
    exact Visit.mk.injEq .. ▸ Iff.rfl
  | expand stack s r t hi' hr hs ht ih =>
    rw [hi] at hi'
    cases hi'
  | parts stack s hs ih =>
    rw [visits_of_parts hs, List.mem_flatMap]
    constructor
    · rintro ⟨t, ht, hv⟩
      obtain ⟨hstack, position, h⟩ := (ih t ht).1 hv
      obtain ⟨i, hi⟩ := List.mem_iff_getElem?.1 ht
      exact ⟨hstack, i :: position, .part hi h⟩
    · rintro ⟨hstack, position, h⟩
      obtain ⟨i, t, rest, -, ht, h⟩ := (leaves_iff_of_parts hs).1 h
      have ht := List.mem_of_getElem? ht
      exact ⟨t, ht, (ih t ht).2 ⟨hstack, rest, h⟩⟩

/-! ### What a visit leaves -/

/-- What is left for a reference is what its visit leaves. -/
theorem left_of_isLeft (h : IsLeft c o stack r) :
    (reference c o stack r).value.names = [⟨stack, r⟩].filterMap (Visit.name? o) ∧
      (reference c o stack r).events = [⟨stack, r⟩].filterMap (Visit.event? c o) := by
  have hnamed : (named o r).names = [Visit.declaredName o ⟨stack, r⟩] := rfl
  have hempty : (TypeTerm.object []).names = [] := rfl
  cases hi : o.inlineRefs with
  | false =>
    rw [reference_kept hi]
    cases hc : c.contains (Reference.target r) with
    | true => simp [Visit.name?, Visit.event?, Visit.target, hi, hc, hnamed]
    | false => simp [Visit.name?, Visit.event?, Visit.target, hi, hc, hnamed]
  | true =>
    by_cases hs : Reference.target r ∈ stack
    · rw [reference_cut hi hs]
      simp [Visit.name?, Visit.event?, Visit.target, Visit.IsCut, hi, hs, hnamed]
    · have hmissing := (h hi).resolve_left hs
      have hc : c.contains (Reference.target r) = false := congrArg Option.isSome hmissing
      rw [reference_missing hi hs hmissing]
      simp [Visit.name?, Visit.event?, Visit.target, Visit.IsCut, hi, hs, hc, hempty]

/-- The visit of a reference that is expanded leaves nothing. -/
theorem left_of_expanded (hi : o.inlineRefs = true) (hs : Reference.target r ∉ stack)
    (ht : Reference.resolve? r c = some t) :
    Visit.name? o ⟨stack, r⟩ = none ∧ Visit.event? c o ⟨stack, r⟩ = none := by
  have hc : c.contains (Reference.target r) = true := congrArg Option.isSome ht
  simp [Visit.name?, Visit.event?, Visit.target, Visit.IsCut, hi, hs, hc]

/-- **The names in a type and the events of its making are those that the
visits leave**, in order. -/
theorem left_by_visits (stack : List String) (s : Schema) :
    (term c o stack (some s)).value.names = (visits c o stack s).filterMap (Visit.name? o) ∧
      (term c o stack (some s)).events = (visits c o stack s).filterMap (Visit.event? c o) := by
  induction stack, s using Typing.induction (c := c) (o := o) with
  | left stack s r hr h =>
    rw [term_of_reference hr, visits_of_reference hr, visitsOf_of_isLeft h]
    exact left_of_isLeft h
  | expand stack s r t hi hr hs ht ih =>
    obtain ⟨hname, hevent⟩ := left_of_expanded hi hs ht
    rw [term_expanded hi hr hs ht, visits_of_reference hr, visitsOf_expanded hi hs ht,
      List.filterMap_cons_none hname, List.filterMap_cons_none hevent]
    exact ih
  | parts stack s hs ih =>
    rw [names_term_of_parts hs, events_term_of_parts hs, visits_of_parts hs, List.filterMap_flatMap,
      List.filterMap_flatMap]
    exact ⟨List.flatMap_congr fun t ht => (ih t ht).1, List.flatMap_congr fun t ht => (ih t ht).2⟩

/-! ### The log against the type -/

section

variable (vs : List Visit)

/-- What the visits of a kind leave, if the others leave nothing. -/
theorem filterMap_eq_map_filter {β : Type} {f : Visit → Option β} {p : Visit → Bool}
    {g : Visit → β} (h : ∀ v, f v = if p v then some (g v) else none) :
    vs.filterMap f = (vs.filter p).map g := by
  rw [← List.filterMap_eq_map, List.filterMap_filter]
  exact List.filterMap_congr fun v _ => h v

theorem filterMap_name?_kept (hi : o.inlineRefs = false) :
    vs.filterMap (Visit.name? o) = vs.map (Visit.declaredName o) := by
  rw [← List.filterMap_eq_map]
  refine List.filterMap_congr fun v _ => ?_
  simp [Visit.name?, hi]

theorem filterMap_event?_kept (hi : o.inlineRefs = false) :
    vs.filterMap (Visit.event? c o) =
      (vs.filter fun v => !c.contains v.target).map fun v => .unknown v.reference := by
  refine filterMap_eq_map_filter vs fun v => ?_
  cases hc : c.contains v.target <;> simp [Visit.event?, hi, hc]

theorem filterMap_name?_inlined (hi : o.inlineRefs = true) :
    vs.filterMap (Visit.name? o) = (vs.filter fun v => v.IsCut).map (Visit.declaredName o) := by
  refine filterMap_eq_map_filter vs fun v => ?_
  by_cases hcut : v.IsCut <;> simp [Visit.name?, hi, hcut]

/-- With references expanded, what is not a warning is a cut. -/
theorem debug_filterMap_event?_inlined (hi : o.inlineRefs = true) :
    Log.ofLevel .debug (vs.filterMap (Visit.event? c o)) =
      (vs.filter fun v => v.IsCut).map fun v => .cycle v.reference := by
  rw [Log.ofLevel, List.filter_filterMap]
  refine filterMap_eq_map_filter vs fun v => ?_
  by_cases hcut : v.IsCut
  · simp [Visit.event?, Log.Event.level, hi, hcut]
  · cases hc : c.contains v.target <;> simp [Visit.event?, Log.Event.level, hi, hcut, hc]

/-- With references expanded, a warning is about a target that is missing and
not being expanded. -/
theorem warn_filterMap_event?_inlined (hi : o.inlineRefs = true) :
    Log.ofLevel .warn (vs.filterMap (Visit.event? c o)) =
      (vs.filter fun v => ¬ v.IsCut ∧ !c.contains v.target).map
        fun v => .unknownExpanded v.reference := by
  rw [Log.ofLevel, List.filter_filterMap]
  refine filterMap_eq_map_filter vs fun v => ?_
  by_cases hcut : v.IsCut
  · simp [Visit.event?, Log.Event.level, hi, hcut]
  · cases hc : c.contains v.target <;> simp [Visit.event?, Log.Event.level, hi, hcut, hc]

end

/-- **The log matches the type.** With references kept by name, the names in a
type are the declared names of the references visited, and the events are one
warning for each of them whose target is missing. With references expanded,
the names are the declared names of the references in the events that are not
warnings, and there is one warning for each reference visited whose target is
missing and not being expanded. All of it is in the order of the visits. -/
theorem log_matches (c : Catalog) (o : Settings) (stack : List String) (s : Schema) :
    (let kept := { o with inlineRefs := false }
      let vs := visits c kept stack s
      let t := term c kept stack (some s)
      vs = s.references.map (Visit.mk stack) ∧
        (∀ v, v ∈ vs ↔ v.stack = stack ∧ ∃ position, Leaves c kept stack s position v.reference) ∧
        t.value.names = vs.map (Visit.declaredName o) ∧
        Log.ofLevel .warn t.events = t.events ∧
        t.events = (vs.filter fun v => !c.contains v.target).map fun v => .unknown v.reference) ∧
      let inlined := { o with inlineRefs := true }
      let vs := visits c inlined stack s
      let t := term c inlined stack (some s)
      (∀ v, v ∈ vs ↔ ∃ position u,
          Within c stack s position v.stack u ∧ u.rule = .reference v.reference) ∧
        t.value.names = (Log.ofLevel .debug t.events).map
          (fun e => Reference.declaredName e.reference o.namePrefix) ∧
        Log.ofLevel .debug t.events =
          (vs.filter fun v => v.IsCut).map (fun v => .cycle v.reference) ∧
        Log.ofLevel .warn t.events = (vs.filter fun v => ¬ v.IsCut ∧ !c.contains v.target).map
          fun v => .unknownExpanded v.reference := by
  constructor
  · intro kept vs t
    have hi : kept.inlineRefs = false := rfl
    obtain ⟨hnames, hevents⟩ := left_by_visits (c := c) (o := kept) stack s
    rw [filterMap_name?_kept vs hi] at hnames
    rw [filterMap_event?_kept vs hi] at hevents
    refine ⟨visits_of_kept hi, fun v => mem_visits_kept_iff hi v stack s, hnames, ?_, hevents⟩
    rw [Log.ofLevel, List.filter_eq_self]
    intro e he
    rw [hevents] at he
    obtain ⟨v, -, rfl⟩ := List.mem_map.1 he
    rfl
  · intro inlined vs t
    have hi : inlined.inlineRefs = true := rfl
    obtain ⟨hnames, hevents⟩ := left_by_visits (c := c) (o := inlined) stack s
    have hcuts := debug_filterMap_event?_inlined (c := c) vs hi
    have hwarnings := warn_filterMap_event?_inlined (c := c) vs hi
    rw [← hevents] at hcuts hwarnings
    refine ⟨fun v => mem_visits_iff hi v stack s, ?_, hcuts, hwarnings⟩
    rw [hcuts, List.map_map]
    exact hnames.trans (filterMap_name?_inlined vs hi)

end Typing
end SchemaTypes
