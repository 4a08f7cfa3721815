/-
# Empty lists count as absent

A list of `enum`, `oneOf`, `anyOf` or `allOf` that is present but empty is the
same as none: leaving all of them out, in a schema and in every schema of the
catalog, is a change that neither typing nor declaring sees.

So no union, intersection or enum is ever made of an empty list, and none is
made of nothing in another way: a rule that lists members lists at least one,
and what is left for a reference is a name or an object. The words that an
empty union and an empty intersection would be written as are never written.

Key theorems: `Schema.unseen_prune`, `Typing.hasMembers_term`,
`Catalog.hasMembers_body?`, `Catalog.declare_prune`.
-/
import SchemaTypes.Proofs.Declaration.Required
import SchemaTypes.Proofs.Declaration.Unseen
import SchemaTypes.Proofs.Schema.Prune
import SchemaTypes.Proofs.TypeTerm.Members

namespace SchemaTypes

/-- Leaving out empty lists is not seen. -/
theorem Schema.unseen_prune : Schema.Unseen Schema.prune where
  rule := Schema.rule_prune
  row := Schema.row_prune
  reference s := by rw [Schema.prune_eq]
  properties s := by
    conv_lhs => rw [Schema.prune_eq]
  required s := by rw [Schema.prune_eq]

/-- The catalog with the empty lists of its schemas left out. -/
def Catalog.prune (c : Catalog) : Catalog :=
  c.map Schema.prune

/-- A type without children has members everywhere, unless it is an empty union
or intersection itself. -/
theorem TypeTerm.hasMembers_of_leaf {t : TypeTerm} (h : t.children = [])
    (hunion : t ≠ .union []) (hintersection : t ≠ .intersection []) : t.HasMembers := by
  refine TypeTerm.hasMembers_iff.2 ⟨⟨hunion, hintersection⟩, fun u hu => ?_⟩
  rw [h] at hu
  cases hu

namespace Typing

variable {c : Catalog} {o : Settings} {stack : List String}

/-- What is left for a reference has members. -/
theorem hasMembers_of_isLeft {r : String} (h : IsLeft c o stack r) :
    (reference c o stack r).value.HasMembers := by
  rcases value_of_isLeft h with hv | ⟨-, hv⟩
  · rw [hv]
    exact TypeTerm.hasMembers_of_leaf rfl nofun nofun
  · rw [hv]
    exact TypeTerm.hasMembers_of_leaf rfl nofun nofun

/-- A rule makes no empty union or intersection. -/
theorem value_term_ne_empty {s : Schema} (hs : ∀ r, s.rule ≠ .reference r) :
    (term c o stack (some s)).value ≠ .union [] ∧
      (term c o stack (some s)).value ≠ .intersection [] := by
  have hne := Schema.rule_ne_nil s
  rw [term, Schema.termWith_eq_rule]
  cases hr : s.rule with
  | reference r => exact absurd hr (hs r)
  | literals vs =>
    rw [hr] at hne
    refine ⟨fun h => hne ?_, TypeTerm.noConfusion⟩
    exact List.map_eq_nil_iff.1 (TypeTerm.union.inj h)
  | union ms =>
    rw [hr] at hne
    refine ⟨fun h => hne ?_, TypeTerm.noConfusion⟩
    have h := TypeTerm.union.inj h
    rw [Schema.value_membersWith] at h
    exact List.map_eq_nil_iff.1 h
  | intersection ms =>
    rw [hr] at hne
    refine ⟨TypeTerm.noConfusion, fun h => hne ?_⟩
    have h := TypeTerm.intersection.inj h
    rw [Schema.value_membersWith] at h
    exact List.map_eq_nil_iff.1 h
  | array item => exact ⟨TypeTerm.noConfusion, TypeTerm.noConfusion⟩
  | object ps => exact ⟨TypeTerm.noConfusion, TypeTerm.noConfusion⟩
  | plain p => cases p <;> exact ⟨TypeTerm.noConfusion, TypeTerm.noConfusion⟩

/-- **Every union and intersection in the type of a schema has members.** -/
theorem hasMembers_term (stack : List String) (s : Schema) :
    (term c o stack (some s)).value.HasMembers := by
  induction stack, s using Typing.induction with
  | left stack s r hr h =>
    rw [term_of_reference hr]
    exact hasMembers_of_isLeft h
  | expand stack s r t hi hr hs ht ih =>
    rw [term_expanded hi hr hs ht]
    exact ih
  | parts stack s hs ih =>
    refine TypeTerm.hasMembers_iff.2 ⟨value_term_ne_empty hs, fun u hu => ?_⟩
    obtain ⟨i, hi⟩ := List.mem_iff_getElem?.1 hu
    rcases part_or_leaf_of_child hs hi with ⟨t, ht, rfl⟩ | hleaf
    · exact ih t (List.mem_of_getElem? ht)
    · obtain rfl | ⟨v, rfl⟩ := Schema.eq_of_mem_leaves hleaf
      · exact TypeTerm.hasMembers_of_leaf rfl nofun nofun
      · exact TypeTerm.hasMembers_of_leaf rfl nofun nofun

theorem hasMembers_object (stack : List String) (s : Schema) :
    (object c o stack s).value.HasMembers := by
  refine TypeTerm.hasMembers_iff.2 ⟨⟨nofun, nofun⟩, fun u hu => ?_⟩
  rw [object, Logged.value_map, TypeTerm.children, fields, Schema.types_fieldsWith] at hu
  obtain ⟨p, -, rfl⟩ := List.mem_map.1 hu
  exact hasMembers_term stack p.2

end Typing

namespace Catalog

variable {c : Catalog} {o : Settings} {n : String} {s : Schema}

/-- A row that lists values or members lists at least one. -/
theorem row_ne_nil (s : Schema) :
    match s.row with
    | .enum vs => vs ≠ []
    | .union ms | .intersection ms => ms ≠ []
    | _ => True := by
  have hmembers := Schema.members_of_row s
  cases hrow : s.row with
  | enum vs =>
    rw [hrow] at hmembers
    exact (Schema.eq_some_of_nonempty hmembers).2
  | union ms =>
    rw [hrow] at hmembers
    exact (Schema.unionMembers_eq_some hmembers).2
  | intersection ms =>
    rw [hrow] at hmembers
    exact (Schema.eq_some_of_nonempty hmembers).2
  | _ => trivial

/-- The members of a declared union or intersection have members everywhere. -/
theorem hasMembers_memberWith (m : Schema) :
    (m.memberWith (Typing.reference c o [n]) o).value.HasMembers := by
  cases hr : m.reference with
  | some r =>
    rw [Schema.memberWith_of_reference hr]
    exact TypeTerm.hasMembers_of_leaf rfl nofun nofun
  | none =>
    rw [value_memberWith hr]
    exact Typing.hasMembers_object [n] m

/-- **Every union and intersection in a declaration has members**, also the
declared one. -/
theorem hasMembers_body? {t : TypeTerm} (h : (c.declare o n s).value.body? = some t) :
    t.HasMembers := by
  have hne := row_ne_nil s
  have hmembers : ∀ ms : List Schema, ∀ u ∈ ms.map fun m =>
      (m.memberWith (Typing.reference c o [n]) o).value, u.HasMembers := by
    intro ms u hu
    obtain ⟨m, -, rfl⟩ := List.mem_map.1 hu
    exact hasMembers_memberWith m
  cases hrow : s.row with
  | enum vs =>
    rw [value_declare_of_row c o n hrow] at h
    cases h
  | union ms =>
    rw [hrow] at hne
    rw [value_declare_of_row c o n hrow] at h
    cases h
    exact TypeTerm.hasMembers_iff.2
      ⟨⟨fun h => hne (List.map_eq_nil_iff.1 (TypeTerm.union.inj h)), nofun⟩, hmembers ms⟩
  | intersection ms =>
    rw [hrow] at hne
    rw [value_declare_of_row c o n hrow] at h
    cases h
    exact TypeTerm.hasMembers_iff.2
      ⟨⟨nofun, fun h => hne (List.map_eq_nil_iff.1 (TypeTerm.intersection.inj h))⟩, hmembers ms⟩
  | interface =>
    rw [body?_of_interface hrow] at h
    cases h
    exact Typing.hasMembers_object [n] s
  | typeAlias =>
    rw [body?_of_typeAlias hrow] at h
    cases h
    split
    · exact Typing.hasMembers_term [n] s
    · exact TypeTerm.hasMembers_of_leaf rfl nofun nofun

theorem members_ne_nil_of_enum {declared : String} {ms : List EnumMember}
    (h : (c.declare o n s).value = .enum declared ms) : ms ≠ [] := by
  have hne := row_ne_nil s
  cases hrow : s.row with
  | enum vs =>
    rw [hrow] at hne
    rw [value_declare_of_row c o n hrow] at h
    cases h
    exact fun h => hne (List.map_eq_nil_iff.1 h)
  | typeAlias =>
    have hbody := body?_of_typeAlias (c := c) (o := o) (n := n) hrow
    rw [h] at hbody
    cases hbody
  | _ =>
    rw [value_declare_of_row c o n hrow] at h
    cases h

/-- **Empty lists count as absent, and no union, intersection or enum is
empty.** With the empty lists of values and members left out at every depth, of
the schema and of the catalog, a schema has the same declaration, text and
events, and the same type on every stack. An enum that is declared has a
member, and so has every union and intersection, at every depth of what is
declared and of the type of a schema or of its properties; the text of these
is the same whatever empty ones are written as. -/
theorem declare_prune (c : Catalog) (o : Settings) (n : String) (s : Schema) :
    c.prune.emit o n s.prune = c.emit o n s ∧
      (∀ stack t, Typing.term c.prune o stack (t.map Schema.prune) = Typing.term c o stack t) ∧
      (∀ declared ms, (c.declare o n s).value = .enum declared ms → ms ≠ []) ∧
      (∀ t, (c.declare o n s).value.body? = some t →
        t.HasMembers ∧ ∀ words depth, t.textWith words depth = t.text depth) ∧
      (∀ stack t, (Typing.term c o stack t).value.HasMembers ∧ ∀ words depth,
        (Typing.term c o stack t).value.textWith words depth =
          (Typing.term c o stack t).value.text depth) ∧
      (∀ stack t, (Typing.object c o stack t).value.HasMembers ∧ ∀ words depth,
        (Typing.object c o stack t).value.textWith words depth =
          (Typing.object c o stack t).value.text depth) := by
  have hterm : ∀ stack t, (Typing.term c o stack t).value.HasMembers := by
    intro stack t
    cases t with
    | none => exact TypeTerm.hasMembers_of_leaf rfl nofun nofun
    | some t => exact Typing.hasMembers_term stack t
  have hobject : ∀ stack t, (Typing.object c o stack t).value.HasMembers :=
    fun stack t => Typing.hasMembers_object stack t
  refine ⟨Schema.unseen_prune.emit_eq c o n s, Schema.unseen_prune.term_eq c o,
    fun declared ms h => members_ne_nil_of_enum h, fun t h => ?_, fun stack t => ?_,
    fun stack t => ?_⟩
  · exact ⟨hasMembers_body? h, (hasMembers_body? h).textWith_eq_text⟩
  · exact ⟨hterm stack t, (hterm stack t).textWith_eq_text⟩
  · exact ⟨hobject stack t, (hobject stack t).textWith_eq_text⟩

end Catalog
end SchemaTypes
