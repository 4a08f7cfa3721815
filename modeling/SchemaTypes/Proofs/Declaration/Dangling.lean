/-
# Dangling references in a declaration

A reference is left in the types of a declaration in two ways. Typing leaves
it there, in a field or in an alias, at any depth; or it is itself a member of
the union or the intersection that is declared, and is kept by its name.

Typing warns about each reference that it leaves without a target. Members
are kept without a look at the catalog, so nothing is reported about them: a
reference without a target is warned about exactly if typing leaves it
somewhere in the declaration (`Catalog.warned_iff_typingLeaves`).

Key definitions: `Schema.HasMember`, `Catalog.TypingLeaves`,
`Catalog.Leaves`.
Key theorems: `Catalog.warned_iff_typingLeaves`.
-/
import SchemaTypes.Proofs.Declaration.Row
import SchemaTypes.Proofs.Typing.Leaves

namespace SchemaTypes

namespace Schema

/-- The member at this place of the union or intersection that a schema is
declared as is itself this reference. -/
def HasMember (s : Schema) (i : Nat) (r : String) : Prop :=
  ∃ ms m, (s.row = .union ms ∨ s.row = .intersection ms) ∧ ms[i]? = some m ∧ m.reference = some r

/-- A schema of one alternative, which is a reference. -/
def alternative (reference : String) : Schema :=
  { oneOf := some [.ofReference reference] }

variable {f : String → Logged TypeTerm} {o : Settings} {n : String} {s : Schema}

/-! ### The types of a declaration, row by row -/

theorem types_of_members {ms : List Schema} (h : s.row = .union ms ∨ s.row = .intersection ms) :
    (s.declareWith f o n).value.types = ms.map fun m => (m.memberWith f o).value := by
  rw [declareWith]
  rcases h with h | h
  · rw [h]
    rfl
  · rw [h]
    rfl

theorem events_of_members {ms : List Schema} (h : s.row = .union ms ∨ s.row = .intersection ms) :
    (s.declareWith f o n).events = ms.flatMap fun m => (m.memberWith f o).events := by
  rw [declareWith]
  rcases h with h | h
  · rw [h]
    rfl
  · rw [h]
    rfl

theorem types_of_interface (h : s.row = .interface) :
    (s.declareWith f o n).value.types =
      (s.properties.getD []).map fun p => (p.2.termWith f).value := by
  rw [declareWith, h]
  exact types_fieldsWith f s

theorem types_of_typeAlias (h : s.row = .typeAlias) :
    (s.declareWith f o n).value.types = [if o.typedAliases then (s.termWith f).value else .any] := by
  rw [declareWith, h, Row.declareWith]
  split
  · rfl
  · rfl

theorem children_memberWith {m : Schema} (h : m.reference = none) :
    (m.memberWith f o).value.children =
      (m.properties.getD []).map fun p => (p.2.termWith f).value := by
  rw [memberWith_of_fields h, Logged.value_map, TypeTerm.children, types_fieldsWith]

end Schema

namespace Catalog

variable {c : Catalog} {o : Settings} {n : String} {s : Schema} {i : Nat} {position : List Nat}
  {r : String}

/-- Declaring the schema under the name, typing leaves the reference at the
position of one of the types. -/
inductive TypingLeaves (c : Catalog) (o : Settings) (n : String) (s : Schema) :
    Nat → List Nat → String → Prop
  | member {ms : List Schema} {m : Schema} {p : String × Schema} {i j : Nat} {position : List Nat}
      {r : String} (hrow : s.row = .union ms ∨ s.row = .intersection ms) (hm : ms[i]? = some m)
      (hmr : m.reference = none) (hp : (m.properties.getD [])[j]? = some p)
      (h : Typing.Leaves c o [n] p.2 position r) : TypingLeaves c o n s i (j :: position) r
  | field {p : String × Schema} {i : Nat} {position : List Nat} {r : String}
      (hrow : s.row = .interface) (hp : (s.properties.getD [])[i]? = some p)
      (h : Typing.Leaves c o [n] p.2 position r) : TypingLeaves c o n s i position r
  | typeAlias {position : List Nat} {r : String} (hrow : s.row = .typeAlias)
      (ho : o.typedAliases = true) (h : Typing.Leaves c o [n] s position r) :
      TypingLeaves c o n s 0 position r

/-- Declaring the schema under the name leaves the reference at the position of
one of the types. -/
def Leaves (c : Catalog) (o : Settings) (n : String) (s : Schema) (i : Nat) (position : List Nat)
    (r : String) : Prop :=
  s.HasMember i r ∧ position = [] ∨ c.TypingLeaves o n s i position r

/-! ### What is left -/

/-- What is left for a reference stands at the position of the type. -/
theorem subterm?_of_leaves (h : c.Leaves o n s i position r) :
    ∃ t, (c.declare o n s).value.types[i]? = some t ∧
      (t.subterm? position = some (Typing.named o r) ∨
        c.contains (Reference.target r) = false ∧ t.subterm? position = some (.object [])) := by
  rw [declare_eq_declareWith]
  rcases h with ⟨⟨ms, m, hrow, hm, hr⟩, rfl⟩ | h
  · refine ⟨(m.memberWith (Typing.reference c o [n]) o).value, ?_, .inl ?_⟩
    · rw [Schema.types_of_members hrow, List.getElem?_map, hm, Option.map_some]
    · rw [Schema.memberWith_of_reference hr, TypeTerm.subterm?_nil]
  · cases h with
    | @member ms m p _ j position _ hrow hm hmr hp h =>
      refine ⟨(m.memberWith (Typing.reference c o [n]) o).value, ?_, ?_⟩
      · rw [Schema.types_of_members hrow, List.getElem?_map, hm, Option.map_some]
      · have hchild : (m.memberWith (Typing.reference c o [n]) o).value.children[j]? =
            some (Typing.term c o [n] (some p.2)).value := by
          rw [Schema.children_memberWith hmr, List.getElem?_map, hp, Option.map_some, Typing.term]
        rw [TypeTerm.subterm?_cons_of_child hchild]
        exact Typing.subterm?_of_leaves h
    | @field p _ _ _ hrow hp h =>
      refine ⟨(Typing.term c o [n] (some p.2)).value, ?_, Typing.subterm?_of_leaves h⟩
      rw [Schema.types_of_interface hrow, List.getElem?_map, hp, Option.map_some, Typing.term]
    | typeAlias hrow ho h =>
      refine ⟨(Typing.term c o [n] (some s)).value, ?_, Typing.subterm?_of_leaves h⟩
      rw [Schema.types_of_typeAlias hrow, if_pos ho, Typing.term]
      rfl

/-- Every name in a declaration is left for a reference. -/
theorem leaves_of_named {t : TypeTerm} {x : String}
    (ht : (c.declare o n s).value.types[i]? = some t)
    (hx : t.subterm? position = some (.named x)) :
    ∃ r, c.Leaves o n s i position r ∧ x = Reference.declaredName r o.namePrefix := by
  rw [declare_eq_declareWith] at ht
  have hmembers : ∀ ms, s.row = .union ms ∨ s.row = .intersection ms →
      ∃ r, c.Leaves o n s i position r ∧ x = Reference.declaredName r o.namePrefix := by
    intro ms hrow
    rw [Schema.types_of_members hrow, List.getElem?_map, Option.map_eq_some_iff] at ht
    obtain ⟨m, hm, rfl⟩ := ht
    cases hmr : m.reference with
    | some r =>
      rw [Schema.memberWith_of_reference hmr] at hx
      obtain ⟨rfl, hx⟩ := TypeTerm.eq_of_subterm?_leaf rfl hx
      cases hx
      exact ⟨r, .inl ⟨⟨ms, m, hrow, hm, hmr⟩, rfl⟩, rfl⟩
    | none =>
      rcases TypeTerm.subterm?_cases hx with ⟨-, hx⟩ | ⟨j, u, rest, rfl, hu, hx⟩
      · rw [Schema.memberWith_of_fields hmr] at hx
        cases hx
      · rw [Schema.children_memberWith hmr, List.getElem?_map, Option.map_eq_some_iff] at hu
        obtain ⟨p, hp, rfl⟩ := hu
        obtain ⟨r, h, hx⟩ := Typing.leaves_of_named [n] p.2 rest x hx
        exact ⟨r, .inr (.member hrow hm hmr hp h), hx⟩
  cases hrow : s.row with
  | enum vs =>
    rw [Schema.declareWith, hrow] at ht
    cases ht
  | union ms => exact hmembers ms (.inl hrow)
  | intersection ms => exact hmembers ms (.inr hrow)
  | interface =>
    rw [Schema.types_of_interface hrow, List.getElem?_map, Option.map_eq_some_iff] at ht
    obtain ⟨p, hp, rfl⟩ := ht
    obtain ⟨r, h, hx⟩ := Typing.leaves_of_named [n] p.2 position x hx
    exact ⟨r, .inr (.field hrow hp h), hx⟩
  | typeAlias =>
    rw [Schema.types_of_typeAlias hrow, List.getElem?_singleton] at ht
    obtain ⟨rfl, -⟩ := Option.ite_none_right_eq_some.1 ht
    obtain rfl := Option.some.inj ht
    by_cases ho : o.typedAliases = true
    · rw [if_pos ho] at hx
      obtain ⟨r, h, hx⟩ := Typing.leaves_of_named [n] s position x hx
      exact ⟨r, .inr (.typeAlias hrow ho h), hx⟩
    · rw [if_neg ho] at hx
      obtain ⟨-, hx⟩ := TypeTerm.eq_of_subterm?_leaf rfl hx
      cases hx

/-! ### What is reported -/

variable (c o n) in
theorem events_fields (s : Schema) :
    (s.fieldsWith (Typing.reference c o [n])).events =
      (s.properties.getD []).flatMap fun p => (Typing.term c o [n] (some p.2)).events := by
  rw [Schema.fieldsWith]
  cases s.properties with
  | none => rfl
  | some ps => exact Schema.events_propertiesWith _ s.required ps

/-- There is a warning about a reference among the events of the properties of
a schema exactly if typing leaves it in one of them. -/
theorem warned_fields_iff (hr : c.contains (Reference.target r) = false)
    (hn : Reference.target r ∉ [n]) (s : Schema) :
    Warned r (s.fieldsWith (Typing.reference c o [n])).events ↔
      ∃ (j : Nat) (p : String × Schema) (position : List Nat),
        (s.properties.getD [])[j]? = some p ∧ Typing.Leaves c o [n] p.2 position r := by
  rw [events_fields, warned_flatMap]
  constructor
  · rintro ⟨p, hp, hwarned⟩
    obtain ⟨position, h⟩ := (Typing.warned_iff_leaves hr [n] p.2 hn).1 hwarned
    obtain ⟨j, hj⟩ := List.mem_iff_getElem?.1 hp
    exact ⟨j, p, position, hj, h⟩
  · rintro ⟨j, p, position, hj, h⟩
    exact ⟨p, List.mem_of_getElem? hj, (Typing.warned_iff_leaves hr [n] p.2 hn).2 ⟨position, h⟩⟩

theorem warned_of_typingLeaves (hr : c.contains (Reference.target r) = false)
    (hn : Reference.target r ∉ [n]) (h : c.TypingLeaves o n s i position r) :
    Warned r (c.declare o n s).events := by
  rw [declare_eq_declareWith]
  cases h with
  | member hrow hm hmr hp h =>
    rw [Schema.events_of_members hrow, warned_flatMap]
    refine ⟨_, List.mem_of_getElem? hm, ?_⟩
    rw [Schema.memberWith_of_fields hmr, Logged.events_map, warned_fields_iff hr hn]
    exact ⟨_, _, _, hp, h⟩
  | field hrow hp h =>
    rw [Schema.declareWith, hrow, Schema.Row.declareWith, Logged.events_map, warned_fields_iff hr hn]
    exact ⟨_, _, _, hp, h⟩
  | typeAlias hrow ho h =>
    rw [Schema.declareWith, hrow, Schema.Row.declareWith, if_pos ho]
    exact (Typing.warned_iff_leaves hr [n] s hn).2 ⟨_, h⟩

theorem typingLeaves_of_warned (hr : c.contains (Reference.target r) = false)
    (hn : Reference.target r ∉ [n]) (h : Warned r (c.declare o n s).events) :
    ∃ i position, c.TypingLeaves o n s i position r := by
  rw [declare_eq_declareWith] at h
  have hmembers : ∀ ms, s.row = .union ms ∨ s.row = .intersection ms →
      ∃ i position, c.TypingLeaves o n s i position r := by
    intro ms hrow
    rw [Schema.events_of_members hrow, warned_flatMap] at h
    obtain ⟨m, hm, hwarned⟩ := h
    obtain ⟨i, hi⟩ := List.mem_iff_getElem?.1 hm
    cases hmr : m.reference with
    | some r' =>
      -- A member that is a reference is kept without an event.
      rw [Schema.memberWith_of_reference hmr] at hwarned
      exact absurd hwarned not_warned_nil
    | none =>
      rw [Schema.memberWith_of_fields hmr, Logged.events_map, warned_fields_iff hr hn] at hwarned
      obtain ⟨j, p, position, hp, h⟩ := hwarned
      exact ⟨i, j :: position, .member hrow hi hmr hp h⟩
  cases hrow : s.row with
  | enum vs =>
    rw [Schema.declareWith, hrow] at h
    exact absurd h not_warned_nil
  | union ms => exact hmembers ms (.inl hrow)
  | intersection ms => exact hmembers ms (.inr hrow)
  | interface =>
    rw [Schema.declareWith, hrow, Schema.Row.declareWith, Logged.events_map,
      warned_fields_iff hr hn] at h
    obtain ⟨i, p, position, hp, h⟩ := h
    exact ⟨i, position, .field hrow hp h⟩
  | typeAlias =>
    rw [Schema.declareWith, hrow, Schema.Row.declareWith] at h
    by_cases ho : o.typedAliases = true
    · rw [if_pos ho] at h
      obtain ⟨position, h⟩ := (Typing.warned_iff_leaves hr [n] s hn).1 h
      exact ⟨0, position, .typeAlias hrow ho h⟩
    · rw [if_neg ho] at h
      exact absurd h not_warned_nil

/-- The call that writes a declaration reports the events of its making. -/
theorem mem_events_emit {m : ReferenceEvent} :
    .reference m ∈ (c.emit o n s).events ↔ m ∈ (c.declare o n s).events := by
  rw [emit]
  simp

/-- **A dangling reference is reported where typing leaves it, and only
there.** What declaring an entry leaves for a reference stands in the
declaration, and every name in it is left for one. A reference without a target
in the catalog is warned about exactly if typing leaves it, that is in a field
of the declaration, in a field of a member, or in an alias; so everything that
is left of it is reported unless it is itself a member of the union or the
intersection that is declared. -/
theorem warned_iff_typingLeaves (c : Catalog) (o : Settings) {e : String × Schema}
    (he : e ∈ c.entries) :
    (∀ i position r, c.Leaves o e.1 e.2 i position r →
      ∃ t, (c.declare o e.1 e.2).value.types[i]? = some t ∧
        (t.subterm? position = some (Typing.named o r) ∨
          c.contains (Reference.target r) = false ∧ t.subterm? position = some (.object []))) ∧
      (∀ (i : Nat) t position x, (c.declare o e.1 e.2).value.types[i]? = some t →
        t.subterm? position = some (.named x) →
          ∃ r, c.Leaves o e.1 e.2 i position r ∧ x = Reference.declaredName r o.namePrefix) ∧
      ∀ r, c.contains (Reference.target r) = false →
        ((∃ m, .reference m ∈ (c.emit o e.1 e.2).events ∧
            (Log.Event.reference m).level = .warn ∧ m.reference = r) ↔
          ∃ i position, c.TypingLeaves o e.1 e.2 i position r) := by
  refine ⟨fun i position r h => subterm?_of_leaves h,
    fun i t position x ht hx => leaves_of_named ht hx, fun r hr => ?_⟩
  have hn : Reference.target r ∉ [e.1] := by
    rw [List.mem_singleton]
    intro heq
    have hfind : c.find? e.1 = some e.2 := (Entries.find?_eq_some_iff c.nodup).2 he
    rw [Catalog.contains, heq, hfind] at hr
    cases hr
  simp only [mem_events_emit]
  constructor
  · exact typingLeaves_of_warned hr hn
  · rintro ⟨i, position, h⟩
    exact warned_of_typingLeaves hr hn h

/-- A schema with a property that refers to what the catalog does not have. -/
def linkMissing : Catalog where
  entries := [("A", .link "b" "#/components/schemas/Missing")]
  nodup := by decide

/-- The property is typed by the name that is missing, and this is reported. -/
theorem linkMissing_warned :
    ("A", .link "b" "#/components/schemas/Missing") ∈ linkMissing.entries ∧
      linkMissing.contains (Reference.target "#/components/schemas/Missing") = false ∧
      ∃ m, .reference m ∈
          (linkMissing.emit {} "A" (.link "b" "#/components/schemas/Missing")).events ∧
        (Log.Event.reference m).level = .warn ∧ m.reference = "#/components/schemas/Missing" := by
  have hmem : ("A", .link "b" "#/components/schemas/Missing") ∈ linkMissing.entries := .head _
  have hmissing : linkMissing.contains (Reference.target "#/components/schemas/Missing") = false := by
    decide
  have hleaves : linkMissing.TypingLeaves {} "A" (.link "b" "#/components/schemas/Missing") 0 []
      "#/components/schemas/Missing" := .field rfl rfl (.left rfl nofun)
  obtain ⟨-, -, hwarned⟩ := warned_iff_typingLeaves linkMissing {} hmem
  exact ⟨hmem, hmissing, (hwarned _ hmissing).2 ⟨0, [], hleaves⟩⟩

/-- A schema of one alternative that the catalog does not have. -/
def alternativeMissing : Catalog where
  entries := [("A", .alternative "#/components/schemas/Missing")]
  nodup := by decide

/-- The missing name is left in the declaration, but nothing is reported about
it. -/
theorem alternativeMissing_not_warned :
    ("A", .alternative "#/components/schemas/Missing") ∈ alternativeMissing.entries ∧
      alternativeMissing.Leaves {} "A" (.alternative "#/components/schemas/Missing") 0 []
        "#/components/schemas/Missing" ∧
      alternativeMissing.contains (Reference.target "#/components/schemas/Missing") = false ∧
      (alternativeMissing.declare {} "A" (.alternative "#/components/schemas/Missing")).value =
        .union "IA" [.named "IMissing"] ∧
      ¬ ∃ m, .reference m ∈ (alternativeMissing.emit {} "A"
        (.alternative "#/components/schemas/Missing")).events := by
  have hdeclare : alternativeMissing.declare {} "A" (.alternative "#/components/schemas/Missing") =
      ⟨.union "IA" [.named "IMissing"], []⟩ := rfl
  refine ⟨.head _, .inl ⟨⟨_, _, .inl rfl, rfl, rfl⟩, rfl⟩, by decide, ?_, ?_⟩
  · rw [hdeclare]
  · rintro ⟨m, hm⟩
    rw [mem_events_emit, hdeclare] at hm
    cases hm

end Catalog
end SchemaTypes
