/-
# What `required` lists decide

The `required` list of a schema marks the fields that may not be left out, and
decides nothing else. Two runs that differ in the lists alone, at any depth of
the schemas and of the catalog, differ in the flags of fields alone: this is
declaring and typing seen through the relabeling that requires nothing. Of a
list only the names of the schema's own properties matter, whatever their
order and however often they are listed: this is the relabeling that cuts the
lists down to those.

Each flag is decided by the one schema that the object comes from. An object
of a declaration is an interface, a member of a union or an intersection, or
made by typing, perhaps inside of the expansion of a reference; in each case
the fields are marked by the schema whose properties they are.

Key definitions: `Declaration.subterm?`, `Catalog.ObjectOf`.
Key theorems: `Schema.relabel_trimming_iff`, `Catalog.objectOf_of_subterm?`,
`Catalog.declare_required`.
-/
import SchemaTypes.Proofs.Declaration.Precedence
import SchemaTypes.Proofs.Declaration.Relabel
import SchemaTypes.Proofs.Typing.Objects

namespace SchemaTypes

/-- Two lists are cut down to the same one if they have the same of the names
of the properties. -/
theorem Relabeling.trimming_eq_iff {names listed listed' : List String} :
    trimming.required names listed = trimming.required names listed' ↔
      ∀ n ∈ names, n ∈ listed ↔ n ∈ listed' := by
  show names.filter listed.contains = names.filter listed'.contains ↔ _
  constructor
  · intro h n hn
    have hmem : n ∈ names.filter listed.contains ↔ n ∈ names.filter listed'.contains := by rw [h]
    simpa [hn] using hmem
  · intro h
    refine List.filter_congr fun n hn => ?_
    rw [Bool.eq_iff_iff, List.contains_iff_mem, List.contains_iff_mem]
    exact h n hn

/-- Two `required` lists of a schema come to the same if they have the same of
the names of its own properties: order, repetitions and other names do not
matter. -/
theorem Schema.relabel_trimming_iff (s : Schema) (listed listed' : List String) :
    Schema.relabel .trimming { s with required := listed } =
        Schema.relabel .trimming { s with required := listed' } ↔
      ∀ n ∈ (s.properties.getD []).map Prod.fst, n ∈ listed ↔ n ∈ listed' := by
  rw [relabel_eq, relabel_eq, mk.injEq, ← Relabeling.trimming_eq_iff]
  simp only [true_and, and_true]

theorem Logged.map_eq_self {α : Type} {f : α → α} (h : ∀ a, f a = a) (x : Logged α) :
    x.map f = x :=
  Logged.ext (h x.value) rfl

namespace Declaration

/-- The types of a declaration as one type; an enum has none. -/
def body? : Declaration → Option TypeTerm
  | .enum .. => none
  | .union _ ts => some (.union ts)
  | .intersection _ ts => some (.intersection ts)
  | .interface _ fs => some (.object fs)
  | .typeAlias _ t => some t

/-- The subterm of a declaration at a position. -/
def subterm? (d : Declaration) (position : List Nat) : Option TypeTerm :=
  d.body?.bind fun t => t.subterm? position

theorem kind_relabel (ρ : Relabeling) (d : Declaration) : (d.relabel ρ).kind = d.kind := by
  cases d <;> rfl

theorem name_relabel (ρ : Relabeling) (d : Declaration) :
    (d.relabel ρ).name = ρ.name d.name := by
  cases d <;> rfl

end Declaration

namespace Catalog

variable {c c' : Catalog} {o : Settings} {n : String} {s s' u : Schema} {position : List Nat}
  {f : Field} {fs : List Field}

/-! ### Two runs -/

/-- Runs that a relabeling makes one give the same declaration after the
relabeling, made of the same events. -/
theorem declare_of_relabel {ρ : Relabeling} (hsettings : ρ.settings = id)
    (hc : c.relabel ρ = c'.relabel ρ) (hs : s.relabel ρ = s'.relabel ρ) (o : Settings)
    (n : String) :
    (c.declare o n s).map (Declaration.relabel ρ) =
      (c'.declare o n s').map (Declaration.relabel ρ) := by
  have h := declare_relabel ρ c o n s
  have h' := declare_relabel ρ c' o n s'
  rw [hsettings] at h h'
  rw [← h, ← h', hc, hs]

theorem term_of_relabel {ρ : Relabeling} (hsettings : ρ.settings = id)
    (hc : c.relabel ρ = c'.relabel ρ) (hs : s.relabel ρ = s'.relabel ρ) (o : Settings)
    (stack : List String) :
    (Typing.term c o stack (some s)).map (TypeTerm.relabel ρ) =
      (Typing.term c' o stack (some s')).map (TypeTerm.relabel ρ) := by
  have h := Typing.term_relabel ρ c o stack (some s)
  have h' := Typing.term_relabel ρ c' o stack (some s')
  rw [hsettings, Option.map_some] at h h'
  rw [← h, ← h', hc, hs]

/-- What is reported about a declaration does not change with the flags of its
fields. -/
theorem events_emit_of_relabel {ρ : Relabeling} (hname : ∀ n, ρ.name n = n)
    (h : (c.declare o n s).map (Declaration.relabel ρ) =
      (c'.declare o n s').map (Declaration.relabel ρ)) :
    (c.emit o n s).events = (c'.emit o n s').events := by
  have hvalue := congrArg Logged.value h
  have hevents := congrArg Logged.events h
  have hd := congrArg Declaration.name hvalue
  have hk := congrArg Declaration.kind hvalue
  rw [Logged.value_map, Logged.value_map, Declaration.name_relabel, Declaration.name_relabel,
    hname, hname] at hd
  rw [Logged.value_map, Logged.value_map, Declaration.kind_relabel, Declaration.kind_relabel] at hk
  rw [Logged.events_map, Logged.events_map] at hevents
  rw [emit, emit, hevents, hd, hk]

/-! ### The schema that an object comes from -/

/-- Declaring the schema under the name makes the object type of the other
schema at the position. -/
inductive ObjectOf (c : Catalog) (o : Settings) (n : String) (s : Schema) :
    List Nat → Schema → Prop
  | member {ms : List Schema} {m u : Schema} {i : Nat} {position : List Nat}
      (hrow : s.row = .union ms ∨ s.row = .intersection ms) (hm : ms[i]? = some m)
      (hmr : m.reference = none) (h : Typing.FieldsOf c o [n] m position u) :
      ObjectOf c o n s (i :: position) u
  | interface {u : Schema} {position : List Nat} (hrow : s.row = .interface)
      (h : Typing.FieldsOf c o [n] s position u) : ObjectOf c o n s position u
  | typeAlias {u : Schema} {position : List Nat} (hrow : s.row = .typeAlias)
      (ho : o.typedAliases = true) (h : Typing.ObjectOf c o [n] s position u) :
      ObjectOf c o n s position u

variable (c o n) in
/-- The members of a declared union or intersection are its children. -/
theorem body?_of_members {ms : List Schema} (h : s.row = .union ms ∨ s.row = .intersection ms) :
    ∃ t, (c.declare o n s).value.body? = some t ∧ (∀ fs, t ≠ .object fs) ∧
      t.children = ms.map fun m => (m.memberWith (Typing.reference c o [n]) o).value := by
  rcases h with h | h
  · rw [value_declare_of_row c o n h]
    exact ⟨_, rfl, nofun, rfl⟩
  · rw [value_declare_of_row c o n h]
    exact ⟨_, rfl, nofun, rfl⟩

theorem body?_of_interface (h : s.row = .interface) :
    (c.declare o n s).value.body? = some (Typing.object c o [n] s).value := by
  rw [value_declare_of_row c o n h]
  rfl

theorem body?_of_typeAlias (h : s.row = .typeAlias) :
    (c.declare o n s).value.body? =
      some (if o.typedAliases then (Typing.term c o [n] (some s)).value else .any) := by
  rw [value_declare_of_row c o n h, Schema.Row.declareWith]
  split
  · rfl
  · rfl

theorem value_memberWith {m : Schema} (h : m.reference = none) :
    (m.memberWith (Typing.reference c o [n]) o).value = (Typing.object c o [n] m).value := by
  rw [Schema.memberWith_of_fields h]
  rfl

/-- What stands at the position is the object type of the schema. -/
theorem subterm?_of_objectOf (h : c.ObjectOf o n s position u) :
    ∃ stack, (c.declare o n s).value.subterm? position =
      some (Typing.object c o stack u).value := by
  rw [Declaration.subterm?]
  cases h with
  | @member ms m _ i position hrow hm hmr h =>
    obtain ⟨t, ht, -, hchildren⟩ := body?_of_members c o n hrow
    have hchild : t.children[i]? = some (Typing.object c o [n] m).value := by
      rw [hchildren, List.getElem?_map, hm, Option.map_some, value_memberWith hmr]
    rw [ht, Option.bind_some, TypeTerm.subterm?_cons_of_child hchild]
    exact Typing.subterm?_of_fieldsOf h
  | interface hrow h =>
    rw [body?_of_interface hrow]
    exact Typing.subterm?_of_fieldsOf h
  | typeAlias hrow ho h =>
    rw [body?_of_typeAlias hrow, if_pos ho]
    exact Typing.subterm?_of_objectOf h

/-- Every object with fields in a declaration is that of a schema. -/
theorem objectOf_of_subterm?
    (h : (c.declare o n s).value.subterm? position = some (.object (f :: fs))) :
    ∃ u, c.ObjectOf o n s position u := by
  rw [Declaration.subterm?] at h
  have hmembers : ∀ ms, s.row = .union ms ∨ s.row = .intersection ms →
      ∃ u, c.ObjectOf o n s position u := by
    intro ms hrow
    obtain ⟨t, ht, hne, hchildren⟩ := body?_of_members c o n hrow
    rw [ht, Option.bind_some] at h
    rcases TypeTerm.subterm?_cases h with ⟨-, h⟩ | ⟨i, v, rest, rfl, hv, h⟩
    · exact absurd h.symm (hne _)
    · rw [hchildren, List.getElem?_map, Option.map_eq_some_iff] at hv
      obtain ⟨m, hm, rfl⟩ := hv
      cases hmr : m.reference with
      | some r =>
        -- A member that is a reference is a name, with no object in it.
        rw [Schema.memberWith_of_reference hmr] at h
        obtain ⟨-, h⟩ := TypeTerm.eq_of_subterm?_leaf rfl h
        cases h
      | none =>
        rw [value_memberWith hmr] at h
        obtain ⟨u, hu⟩ := Typing.fieldsOf_of_subterm? h
        exact ⟨u, .member hrow hm hmr hu⟩
  cases hrow : s.row with
  | enum vs =>
    rw [value_declare_of_row c o n hrow] at h
    cases h
  | union ms => exact hmembers ms (.inl hrow)
  | intersection ms => exact hmembers ms (.inr hrow)
  | interface =>
    rw [body?_of_interface hrow] at h
    obtain ⟨u, hu⟩ := Typing.fieldsOf_of_subterm? h
    exact ⟨u, .interface hrow hu⟩
  | typeAlias =>
    rw [body?_of_typeAlias hrow, Option.bind_some] at h
    by_cases ho : o.typedAliases = true
    · rw [if_pos ho] at h
      obtain ⟨u, hu⟩ := Typing.objectOf_of_subterm? [n] s position h
      exact ⟨u, .typeAlias hrow ho hu⟩
    · rw [if_neg ho] at h
      obtain ⟨-, h⟩ := TypeTerm.eq_of_subterm?_leaf rfl h
      cases h

/-! ### What is marked -/

/-- The fields of an object are marked by the schema that it comes from. -/
theorem marks_of_objectOf (h : c.ObjectOf o n s position u) :
    ∃ fs, (c.declare o n s).value.subterm? position = some (.object fs) ∧ u.Marks fs := by
  obtain ⟨stack, h⟩ := subterm?_of_objectOf h
  exact ⟨_, h, Typing.marks_fields c o stack u⟩

theorem exists_marks_of_subterm?
    (h : (c.declare o n s).value.subterm? position = some (.object (f :: fs))) :
    ∃ u, c.ObjectOf o n s position u ∧ u.Marks (f :: fs) := by
  obtain ⟨u, hu⟩ := objectOf_of_subterm? h
  obtain ⟨fs', hfs, hmarks⟩ := marks_of_objectOf hu
  rw [h] at hfs
  cases hfs
  exact ⟨u, hu, hmarks⟩

/-- **`required` controls the optional marker only.** If the schemas and the
catalogs of two runs differ in `required` lists alone, the declarations and
the types differ in the flags of fields alone, and the events are the same. If
moreover the lists have the same of the names of the properties beside them,
nothing differs. An object of a declaration or of a type comes from one of the
schemas that are typed, also where a reference is expanded, and its fields are
the properties of that schema, each of which may not be left out exactly if
that schema lists its name in `required`. -/
theorem declare_required (c c' : Catalog) (o : Settings) (n : String) (s s' : Schema) :
    (c.relabel .unmarking = c'.relabel .unmarking →
        s.relabel .unmarking = s'.relabel .unmarking →
        (c.declare o n s).map (Declaration.relabel .unmarking) =
            (c'.declare o n s').map (Declaration.relabel .unmarking) ∧
          (c.emit o n s).events = (c'.emit o n s').events ∧
          ∀ stack, (Typing.term c o stack (some s)).map (TypeTerm.relabel .unmarking) =
            (Typing.term c' o stack (some s')).map (TypeTerm.relabel .unmarking)) ∧
      (c.relabel .trimming = c'.relabel .trimming → s.relabel .trimming = s'.relabel .trimming →
        c.declare o n s = c'.declare o n s' ∧ c.emit o n s = c'.emit o n s' ∧
          ∀ stack, Typing.term c o stack (some s) = Typing.term c' o stack (some s')) ∧
      (∀ position u, c.ObjectOf o n s position u →
        ∃ fs, (c.declare o n s).value.subterm? position = some (.object fs) ∧ u.Marks fs) ∧
      (∀ position f fs, (c.declare o n s).value.subterm? position = some (.object (f :: fs)) →
        ∃ u, c.ObjectOf o n s position u ∧ u.Marks (f :: fs)) ∧
      (∀ stack position u, Typing.ObjectOf c o stack s position u →
        ∃ fs, (Typing.term c o stack (some s)).value.subterm? position = some (.object fs) ∧
          u.Marks fs) ∧
      (∀ stack position f fs,
        (Typing.term c o stack (some s)).value.subterm? position = some (.object (f :: fs)) →
          ∃ u, Typing.ObjectOf c o stack s position u ∧ u.Marks (f :: fs)) := by
  refine ⟨fun hc hs => ?_, fun hc hs => ?_, fun _ _ h => marks_of_objectOf h,
    fun _ _ _ h => exists_marks_of_subterm? h, fun _ _ _ h => Typing.marks_of_objectOf h,
    fun _ _ _ _ h => Typing.exists_marks_of_subterm? h⟩
  · have hd := declare_of_relabel rfl hc hs o n
    exact ⟨hd, events_emit_of_relabel (fun _ => rfl) hd, term_of_relabel rfl hc hs o⟩
  · have hd := declare_of_relabel rfl hc hs o n
    have hdeclaration : ∀ d : Declaration, d.relabel .trimming = d :=
      Declaration.relabel_of_labels (fun _ => rfl) fun _ => rfl
    have htype : ∀ t : TypeTerm, t.relabel .trimming = t :=
      TypeTerm.relabel_of_labels (fun _ => rfl) fun _ => rfl
    rw [Logged.map_eq_self hdeclaration, Logged.map_eq_self hdeclaration] at hd
    refine ⟨hd, ?_, fun stack => ?_⟩
    · rw [emit, emit, hd]
    · have ht := term_of_relabel rfl hc hs o stack
      rwa [Logged.map_eq_self htype, Logged.map_eq_self htype] at ht

/-- A schema that refers to a schema of two properties, with this `required`
list. -/
def listing (listed : List String) : Catalog where
  entries := [("A", .link "b" "#/components/schemas/B"),
    ("B", { properties := some [("x-y", .ofKind .string), ("z", .ofKind .number)]
            required := listed })]
  nodup := show ["A", "B"].Nodup by decide

/-- Names in another order, repeated or of no property make no difference, and
the object that is expanded inside of `A` is marked by `B`. -/
theorem declare_listing :
    (listing ["x-y"]).relabel .unmarking = (listing []).relabel .unmarking ∧
      ((listing ["x-y"]).declare .inlining "A" (.link "b" "#/components/schemas/B")).map
          (Declaration.relabel .unmarking) =
        ((listing []).declare .inlining "A" (.link "b" "#/components/schemas/B")).map
          (Declaration.relabel .unmarking) ∧
      (listing ["x-y"]).relabel .trimming = (listing ["w", "x-y", "x-y"]).relabel .trimming ∧
      (listing ["x-y"]).declare .inlining "A" (.link "b" "#/components/schemas/B") =
        (listing ["w", "x-y", "x-y"]).declare .inlining "A" (.link "b" "#/components/schemas/B") ∧
      ∃ u fs, (listing ["x-y"]).find? "B" = some u ∧
        ((listing ["x-y"]).declare .inlining "A"
          (.link "b" "#/components/schemas/B")).value.subterm? [0] = some (.object fs) ∧
        u.Marks fs := by
  have hflags : (listing ["x-y"]).relabel .unmarking = (listing []).relabel .unmarking := rfl
  have hnames : (listing ["x-y"]).relabel .trimming =
      (listing ["w", "x-y", "x-y"]).relabel .trimming := rfl
  obtain ⟨hunmarked, -⟩ := declare_required (listing ["x-y"]) (listing []) .inlining "A"
    (.link "b" "#/components/schemas/B") (.link "b" "#/components/schemas/B")
  obtain ⟨-, htrimmed, hmarks, -⟩ := declare_required (listing ["x-y"])
    (listing ["w", "x-y", "x-y"]) .inlining "A"
    (.link "b" "#/components/schemas/B") (.link "b" "#/components/schemas/B")
  have hexpanded : (listing ["x-y"]).ObjectOf .inlining "A" (.link "b" "#/components/schemas/B") [0]
      { properties := some [("x-y", .ofKind .string), ("z", .ofKind .number)]
        required := ["x-y"] } :=
    .interface rfl ⟨_, rfl, .expand rfl rfl (by decide) rfl (.own rfl)⟩
  obtain ⟨fs, hfs, hB⟩ := hmarks [0] _ hexpanded
  exact ⟨hflags, (hunmarked hflags rfl).1, hnames, (htrimmed hnames rfl).1, _, fs, rfl, hfs, hB⟩

end Catalog
end SchemaTypes
